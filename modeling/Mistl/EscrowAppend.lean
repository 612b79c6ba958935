import Mistl.EscrowEngine
/-!
# EscrowAppend — what the library asks of the storage

The functions of `Storage` that write, which panic where they would overwrite what is committed.  `Asks` says which calls
the consensus library may make; on a numbered log that reaches its commit index none of them panics.
-/
open List

namespace Mistl.Escrow

/-! ## The storage -/

inductive StorageCall where
  | setTermAndVote (term : Nat) (vote : Option String)
  | appendEntries (start : Nat) (entries : List LogEntry)
  | truncateFrom (index : Nat)
  | installSnapshot (snapshot : RaftSnapshot)

namespace Storage

variable (s : Storage)

def setTermAndVote (term : Nat) (vote : Option String) : Storage :=
  if s.term ≠ term ∨ s.vote ≠ vote then { s with term := term, vote := vote, dirty := true } else s

/-- The loop of `append_entries` from an offset on: `none` where the subtraction or the assertion panics. -/
def appendFrom (start : Nat) : Nat → List LogEntry → Option Storage
  | _, [] => some s
  | offset, entry :: entries =>
    if start < s.base + 1 then none
    else
      let index := start - s.base - 1 + offset
      -- entries that match do not replace what comes after them
      if s.log[index]? = some entry then appendFrom start (offset + 1) entries
      else if entry.index ≤ s.committed then none
      else some { s with log := s.log.take index ++ entry :: entries, dirty := true }

def appendEntries (start : Nat) (entries : List LogEntry) : Option Storage := s.appendFrom start 0 entries

def truncateFrom (index : Nat) : Option Storage :=
  if index ≤ s.committed then none
  else if index ≤ s.lastLogIndex then
    some { s with log := s.log.filter (fun entry => decide (entry.index < index)), dirty := true }
  else some s

def installSnapshot (snapshot : RaftSnapshot) : Storage × Bool :=
  if snapshot.lastIncludedIndex ≤ s.base then (s, false)
  else if s.termAt snapshot.lastIncludedIndex = some snapshot.lastIncludedTerm then
    ({ s with log := s.log.filter (fun entry => decide (snapshot.lastIncludedIndex < entry.index)),
              snapshot := some snapshot, dirty := true }, true)
  else if snapshot.lastIncludedIndex < s.committed then (s, false)
  else ({ s with log := [], snapshot := some snapshot, dirty := true }, true)

/-- One call; `none` is a panic. -/
def call : StorageCall → Option Storage
  | .setTermAndVote term vote => some (s.setTermAndVote term vote)
  | .appendEntries start entries => s.appendEntries start entries
  | .truncateFrom index => s.truncateFrom index
  | .installSnapshot snapshot => some (s.installSnapshot snapshot).1

def callAll : Storage → List StorageCall → Option Storage
  | s, [] => some s
  | s, c :: calls => (s.call c).bind fun s => s.callAll calls

end Storage

/-! ## Numbered logs -/

def Numbered : Nat → List LogEntry → Prop
  | _, [] => True
  | n, entry :: entries => entry.index = n ∧ Numbered (n + 1) entries

namespace Numbered

variable {n : Nat} {l l' : List LogEntry}

theorem append : ∀ {l : List LogEntry} {n : Nat}, Numbered n (l ++ l') ↔ Numbered n l ∧ Numbered (n + l.length) l'
  | [], n => by simp [Numbered]
  | entry :: l, n => by
    have hlen : n + 1 + l.length = n + (entry :: l).length := by
      rw [length_cons]
      omega
    rw [cons_append, Numbered, Numbered, append, hlen, and_assoc]

theorem take (h : Numbered n l) (k : Nat) : Numbered n (l.take k) := by
  rw [← take_append_drop k l] at h
  exact (append.1 h).1

theorem drop (h : Numbered n l) (k : Nat) : Numbered (n + k) (l.drop k) := by
  rcases Nat.le_total k l.length with hk | hk
  · rw [← take_append_drop k l] at h
    have hlen : (l.take k).length = k := by rw [length_take, min_eq_left hk]
    have hdrop := (append.1 h).2
    rwa [hlen] at hdrop
  · rw [drop_eq_nil_of_le hk]
    trivial

theorem filter_lt : ∀ {l : List LogEntry} {n : Nat}, Numbered n l → ∀ i,
    l.filter (fun entry => decide (entry.index < i)) = l.take (i - n)
  | [], n, _, i => by rw [take_nil, filter_nil]
  | entry :: l, n, h, i => by
    have ih := filter_lt h.2 i
    by_cases hi : n < i
    · obtain ⟨k, hk⟩ : ∃ k, i - n = k + 1 := ⟨i - n - 1, by omega⟩
      have hk' : i - (n + 1) = k := by omega
      rw [hk, take_succ_cons, filter_cons_of_pos (by simpa [h.1] using hi), ih, hk']
    · have hzero : i - n = 0 ∧ i - (n + 1) = 0 := by omega
      rw [filter_cons_of_neg (by simpa [h.1] using hi), ih, hzero.1, hzero.2, take_zero, take_zero]

theorem filter_gt : ∀ {l : List LogEntry} {n : Nat}, Numbered n l → ∀ i,
    l.filter (fun entry => decide (i < entry.index)) = l.drop (i + 1 - n)
  | [], n, _, i => by rw [drop_nil, filter_nil]
  | entry :: l, n, h, i => by
    have ih := filter_gt h.2 i
    by_cases hi : i < n
    · have hzero : i + 1 - n = 0 ∧ i + 1 - (n + 1) = 0 := by omega
      rw [filter_cons_of_pos (by simpa [h.1] using hi), ih, hzero.1, hzero.2, drop_zero, drop_zero]
    · obtain ⟨k, hk⟩ : ∃ k, i + 1 - n = k + 1 := ⟨i - n, by omega⟩
      have hk' : i + 1 - (n + 1) = k := by omega
      rw [hk, drop_succ_cons, filter_cons_of_neg (by simpa [h.1] using hi), ih, hk']

theorem getLast_index : ∀ {l : List LogEntry} {n : Nat}, Numbered n l → ∀ entry, l.getLast? = some entry →
    entry.index + 1 = n + l.length
  | [x], n, h, entry, hl => by
    rw [← Option.some.inj hl]
    exact congrArg (· + 1) h.1
  | x :: y :: l, n, h, entry, hl => by
    have ih := getLast_index h.2 entry (by rwa [getLast?_cons_cons] at hl)
    have hlen : (x :: y :: l).length = (y :: l).length + 1 := rfl
    omega

theorem of_checkEntries : ∀ {entries : List LogEntry} {index priorTerm term : Nat},
    Engine.checkEntries entries index priorTerm term = .ok () → Numbered index entries
  | [], _, _, _, _ => trivial
  | entry :: entries, index, priorTerm, term, h => by
    rw [Engine.checkEntries] at h
    split at h
    · rename_i hentry
      exact ⟨hentry.1, of_checkEntries h⟩
    · cases h

theorem of_validateEntries {entries : List LogEntry} {previous term : Nat}
    (h : Engine.validateEntries entries previous term = .ok ()) : Numbered (previous + 1) entries := by
  unfold Engine.validateEntries at h
  split at h
  · cases h
  · exact of_checkEntries h

end Numbered

/-! ## No call panics -/

/-- A log that is numbered from its snapshot on and reaches what is committed. -/
structure Storage.Sound (s : Storage) : Prop where
  numbered : Numbered (s.base + 1) s.log
  committed : s.committed ≤ s.base + s.log.length

namespace Storage.Sound

variable {s s' : Storage}

theorem lastLogIndex (h : s.Sound) : s.lastLogIndex = s.base + s.log.length := by
  unfold Storage.lastLogIndex
  cases hl : s.log.getLast? with
  | none => rw [getLast?_eq_none_iff.1 hl]; rfl
  | some entry =>
    have hindex := h.numbered.getLast_index entry hl
    rw [Option.map_some, Option.getD_some]
    omega

theorem congr (h : s.Sound) (hlog : s'.log = s.log) (hsnapshot : s'.snapshot = s.snapshot)
    (hcommitted : s'.committed = s.committed) : s'.Sound := by
  have hbase : s'.base = s.base := by rw [Storage.base, Storage.base, hsnapshot]
  exact ⟨by rw [hbase, hlog]; exact h.numbered, by rw [hbase, hlog, hcommitted]; exact h.committed⟩

theorem of_termAt {index term : Nat} (h : s.termAt index = some term) : s.base ≤ index ∧ index ≤ s.base + s.log.length := by
  have hentry : ∀ {index term : Nat}, (s.entry index).map LogEntry.term = some term →
      s.base ≤ index ∧ index ≤ s.base + s.log.length := by
    intro index term he
    obtain ⟨entry, he, -⟩ := Option.map_eq_some_iff.1 he
    unfold Storage.entry at he
    split at he
    · cases he
    · have hlt := (List.getElem?_eq_some_iff.1 he).1
      omega
  unfold Storage.termAt at h
  split at h
  · rename_i snapshot hsnapshot
    have hbase : s.base = snapshot.lastIncludedIndex := by rw [Storage.base, hsnapshot]; rfl
    split at h
    · omega
    · split at h
      · cases h
      · split at h
        · omega
        · exact hentry h
  · rename_i hsnapshot
    have hbase : s.base = 0 := by rw [Storage.base, hsnapshot]; rfl
    split at h
    · omega
    · exact hentry h

theorem appendFrom (h : s.Sound) {start : Nat} (hstart : s.base + 1 ≤ start) : ∀ {entries : List LogEntry} {offset : Nat},
    start - s.base - 1 + offset ≤ s.log.length → Numbered (start + offset) entries →
    (∀ entry ∈ entries, entry.index ≤ s.committed → s.entry entry.index = some entry) →
    ∃ s', s.appendFrom start offset entries = some s' ∧ s'.Sound ∧ s'.committed = s.committed
  | [], _, _, _, _ => ⟨s, rfl, h, rfl⟩
  | entry :: entries, offset, hreach, hnum, hkept => by
    have hindex : entry.index = start + offset := hnum.1
    rw [Storage.appendFrom, if_neg (not_lt.2 hstart)]
    by_cases hmatch : s.log[start - s.base - 1 + offset]? = some entry
    · have hlt := (List.getElem?_eq_some_iff.1 hmatch).1
      simp only [hmatch]
      exact h.appendFrom hstart (by omega) (by exact hnum.2)
        (fun e he => hkept e (mem_cons_of_mem _ he))
    · have hnew : s.committed < entry.index := by
        by_contra hle
        have hentry := hkept entry mem_cons_self (not_lt.1 hle)
        have hplace : entry.index - (s.base + 1) = start - s.base - 1 + offset := by omega
        rw [Storage.entry, if_neg (by omega), hplace] at hentry
        exact hmatch hentry
      have hlen : (s.log.take (start - s.base - 1 + offset)).length = start - s.base - 1 + offset := by
        rw [length_take, min_eq_left hreach]
      simp only [if_neg hmatch, if_neg (not_le.2 hnew)]
      refine ⟨_, rfl, ⟨?_, ?_⟩, rfl⟩
      · refine Numbered.append.2 ⟨h.numbered.take _, ?_⟩
        have hnext : s.base + 1 + (s.log.take (start - s.base - 1 + offset)).length = start + offset := by omega
        show Numbered (s.base + 1 + _) _
        rw [hnext]
        exact hnum
      · show s.committed ≤ s.base + (s.log.take _ ++ entry :: entries).length
        rw [length_append]
        omega

theorem truncateFrom (h : s.Sound) {index : Nat} (hindex : s.committed < index) :
    ∃ s', s.truncateFrom index = some s' ∧ s'.Sound ∧ s'.committed = s.committed := by
  unfold Storage.truncateFrom
  rw [if_neg (not_le.2 hindex)]
  split
  · refine ⟨_, rfl, ⟨?_, ?_⟩, rfl⟩
    · rw [h.numbered.filter_lt]
      exact h.numbered.take _
    · show s.committed ≤ s.base + (s.log.filter _).length
      have hle := h.committed
      rw [h.numbered.filter_lt, length_take]
      omega
  · exact ⟨s, rfl, h, rfl⟩

theorem installSnapshot (h : s.Sound) (snapshot : RaftSnapshot) :
    (s.installSnapshot snapshot).1.Sound ∧ (s.installSnapshot snapshot).1.committed = s.committed := by
  have hle := h.committed
  unfold Storage.installSnapshot
  split
  · exact ⟨h, rfl⟩
  split
  · rename_i hbase hterm
    have hdrop := h.numbered.filter_gt snapshot.lastIncludedIndex
    refine ⟨⟨?_, ?_⟩, rfl⟩
    · show Numbered (snapshot.lastIncludedIndex + 1) (s.log.filter _)
      rw [hdrop]
      have hfrom : snapshot.lastIncludedIndex + 1 = s.base + 1 + (snapshot.lastIncludedIndex + 1 - (s.base + 1)) := by omega
      rw [hfrom, Nat.add_sub_cancel_left]
      exact h.numbered.drop _
    · show s.committed ≤ snapshot.lastIncludedIndex + (s.log.filter _).length
      rw [hdrop, length_drop]
      omega
  split
  · exact ⟨h, rfl⟩
  · exact ⟨⟨trivial, by show s.committed ≤ snapshot.lastIncludedIndex + 0; omega⟩, rfl⟩

end Storage.Sound

/-! ## The library -/

variable {σ : Type}

/-- The appends the library may ask for: new entries at the end, or the batch of a message of this term or a later one,
after the term before it was compared and nothing but the term and the vote was written. -/
def AppendAllowed (r : RaftState σ) (event : Event) (before : List StorageCall) (s : Storage) (start : Nat)
    (entries : List LogEntry) : Prop :=
  ∃ prevLogIndex prevLogTerm, start = prevLogIndex + 1 ∧ s.termAt prevLogIndex = some prevLogTerm ∧
    ((prevLogIndex = s.lastLogIndex ∧ Numbered start entries) ∨ ∃ sender term leader leaderCommit,
       event = .message sender (.appendEntries term leader prevLogIndex prevLogTerm entries leaderCommit) ∧
       r.storage.term ≤ term ∧ ∀ c ∈ before, ∃ term vote, c = .setTermAndVote term vote)

def CallAllowed (r : RaftState σ) (event : Event) (before : List StorageCall) (s : Storage) : StorageCall → Prop
  | .appendEntries start entries => AppendAllowed r event before s start entries
  | .truncateFrom index => s.committed < index
  | .setTermAndVote _ _ | .installSnapshot _ => True

/-- **What the library does to its storage**: some calls, each allowed where it is made; and it commits no more than
there is. -/
structure Consensus.Asks (K : Consensus σ) (calls : RaftState σ → Event → List StorageCall) : Prop where
  storage : ∀ r event s, r.storage.callAll (calls r event) = some s → (K.step r event).1.storage = s
  allowed : ∀ r event before call after s, calls r event = before ++ call :: after →
    r.storage.callAll before = some s → CallAllowed r event before s call
  commit : ∀ r event, r.commitIndex ≤ r.storage.lastLogIndex → (K.step r event).1.commitIndex ≤ (K.step r event).1.storage.lastLogIndex

namespace Storage

theorem callAll_append : ∀ (calls calls' : List StorageCall) (s : Storage),
    s.callAll (calls ++ calls') = (s.callAll calls).bind (fun s => s.callAll calls')
  | [], _, _ => rfl
  | c :: calls, calls', s => by
    rw [cons_append, callAll, callAll]
    cases s.call c with
    | none => rfl
    | some s => exact callAll_append calls calls' s

theorem callAll_votes : ∀ {calls : List StorageCall} {s s' : Storage},
    (∀ c ∈ calls, ∃ term vote, c = .setTermAndVote term vote) → s.callAll calls = some s' →
    s'.log = s.log ∧ s'.snapshot = s.snapshot ∧ s'.committed = s.committed
  | [], _, _, _, h => by
    cases h
    exact ⟨rfl, rfl, rfl⟩
  | c :: calls, s, s', hvotes, h => by
    obtain ⟨term, vote, rfl⟩ := hvotes c mem_cons_self
    obtain ⟨hlog, hsnapshot, hcommitted⟩ := callAll_votes (fun c hc => hvotes c (mem_cons_of_mem _ hc)) h
    rw [hlog, hsnapshot, hcommitted]
    unfold setTermAndVote
    split <;> exact ⟨rfl, rfl, rfl⟩

end Storage

/-- The entries of a batch that are committed already are the ones in the log, if the batch fits there. -/
def Event.Fits (r : RaftState σ) : Event → Prop
  | .message _ (.appendEntries term _ prevLogIndex prevLogTerm entries _) =>
    Numbered (prevLogIndex + 1) entries ∧ (r.storage.term ≤ term → r.storage.termAt prevLogIndex = some prevLogTerm →
      ∀ entry ∈ entries, entry.index ≤ r.storage.committed → r.storage.entry entry.index = some entry)
  | _ => True

theorem CallAllowed.call {r : RaftState σ} {event : Event} {before : List StorageCall} {s : Storage} {c : StorageCall}
    (h : CallAllowed r event before s c) (hfits : event.Fits r) (hbefore : r.storage.callAll before = some s)
    (hs : s.Sound) : ∃ s', s.call c = some s' ∧ s'.Sound ∧ s'.committed = s.committed := by
  cases c with
  | setTermAndVote term vote =>
    refine ⟨_, rfl, ?_⟩
    unfold Storage.setTermAndVote
    split
    · exact ⟨hs.congr rfl rfl rfl, rfl⟩
    · exact ⟨hs, rfl⟩
  | truncateFrom index => exact hs.truncateFrom h
  | installSnapshot snapshot => exact ⟨_, rfl, hs.installSnapshot snapshot⟩
  | appendEntries start entries =>
    obtain ⟨prevLogIndex, prevLogTerm, rfl, hterm, hwhere⟩ := h
    obtain ⟨hlow, hhigh⟩ := Storage.Sound.of_termAt hterm
    rcases hwhere with ⟨hlast, hnum⟩ | ⟨sender, term, leader, leaderCommit, rfl, hle, hvotes⟩
    · refine hs.appendFrom (by omega) (by omega) hnum (fun entry he hcommitted => ?_)
      -- what is committed is below the end, a new entry is above it
      obtain ⟨front, back, rfl⟩ := append_of_mem he
      have hindex : entry.index = prevLogIndex + 1 + front.length := (Numbered.append.1 hnum).2.1
      have hcommit := hs.committed
      rw [hs.lastLogIndex] at hlast
      omega
    · obtain ⟨hnum, hkept⟩ := hfits
      obtain ⟨hlog, hsnapshot, hcommitted⟩ := Storage.callAll_votes hvotes hbefore
      have hsame : ∀ index, s.entry index = r.storage.entry index := by
        intro index
        rw [Storage.entry, Storage.entry, Storage.base, Storage.base, hlog, hsnapshot]
      have hterm' : r.storage.termAt prevLogIndex = some prevLogTerm := by
        rw [← hterm]
        unfold Storage.termAt
        rw [hsnapshot, hsame]
      refine hs.appendFrom (by omega) (by omega) hnum (fun entry he hle' => ?_)
      rw [hsame]
      exact hkept hle hterm' entry he (hcommitted ▸ hle')

theorem Consensus.Asks.callAll {K : Consensus σ} {calls : RaftState σ → Event → List StorageCall} (hK : K.Asks calls)
    {r : RaftState σ} {event : Event} (hfits : event.Fits r) (hr : r.storage.Sound) :
    ∀ (after before : List StorageCall) {s : Storage}, calls r event = before ++ after →
      r.storage.callAll before = some s → s.Sound → s.committed = r.storage.committed →
      ∃ s', s.callAll after = some s' ∧ s'.Sound ∧ s'.committed = r.storage.committed
  | [], _, s, _, _, hs, hcommitted => ⟨s, rfl, hs, hcommitted⟩
  | c :: after, before, s, hcalls, hbefore, hs, hcommitted => by
    have hallowed := hK.allowed r event before c after s hcalls hbefore
    obtain ⟨s', hcall, hs', hcommitted'⟩ := hallowed.call hfits hbefore hs
    have hbefore' : r.storage.callAll (before ++ [c]) = some s' := by
      rw [Storage.callAll_append, hbefore]
      show (s.call c).bind some = some s'
      rw [hcall]
      rfl
    have hrest := hK.callAll hfits hr after (before ++ [c]) (by rw [hcalls, append_assoc]; rfl) hbefore' hs'
      (hcommitted'.trans hcommitted)
    show ∃ s'', (s.call c).bind (fun s => s.callAll after) = some s'' ∧ _
    rw [hcall]
    exact hrest

/-! ## The engine -/

namespace Engine

variable {K : Consensus σ} {calls : RaftState σ → Event → List StorageCall} {e : Engine σ}

def start (e : Engine σ) : RaftState σ := { e.raft with storage := { e.raft.storage with committed := e.commitIndex } }

def Sound (e : Engine σ) : Prop := e.start.storage.Sound

theorem admitAppend_fits {term prevLogIndex prevLogTerm end_ : Nat} {entries : List LogEntry}
    (h : e.admitAppend term prevLogIndex prevLogTerm entries = .ok end_) :
    Numbered (prevLogIndex + 1) entries ∧ (e.currentTerm ≤ term → e.raft.storage.termAt prevLogIndex = some prevLogTerm →
        ∀ entry ∈ entries, entry.index ≤ e.commitIndex → e.raft.storage.entry entry.index = some entry) := by
  unfold admitAppend at h
  split at h
  · cases h
  split at h
  · cases h
  rename_i hvalid
  split at h
  · cases h
  dsimp only at h
  split at h
  · cases h
  split at h
  · cases h
  rename_i hconflict
  refine ⟨Numbered.of_validateEntries hvalid, fun hle hterm entry he hcommitted => ?_⟩
  by_contra hne
  refine hconflict ⟨hle, hterm, any_eq_true.2 ⟨entry, mem_filter.2 ⟨he, ?_⟩, ?_⟩⟩
  · exact decide_eq_true hcommitted
  · exact decide_eq_true hne

variable {acknowledged : Table String Nat}

theorem admitEvent_fits {event event' : Event} {end_ : Option Nat}
    (h : e.admitEvent K event = .ok (event', acknowledged, end_)) : event'.Fits e.start := by
  unfold admitEvent at h
  cases event with
  | message sender msg =>
    dsimp only at h
    split at h
    · cases h
    split at h
    · cases h
    split at h
    · cases h
    cases msg with
    | appendEntries term leader prevLogIndex prevLogTerm entries leaderCommit =>
      dsimp only at h
      split at h
      · cases h
      · rename_i hadmitted
        cases h
        exact admitAppend_fits hadmitted
    | appendEntriesResponse term follower success matchIndex =>
      cases success with
      | false =>
        cases h
        trivial
      | true =>
        dsimp only at h
        split at h
        · cases h
        · split at h
          · cases h
            trivial
          · cases h
            trivial
    | installSnapshotResponse term follower success lastIncludedIndex =>
      cases success with
      | false =>
        cases h
        trivial
      | true =>
        dsimp only at h
        split at h
        · cases h
        · cases h
          trivial
    | requestVote | installSnapshot =>
      dsimp only at h
      split at h
      · cases h
      · cases h
        trivial
    | requestVoteResponse | appendEntriesConflict =>
      cases h
      trivial
  | clientPropose command =>
    dsimp only at h
    split at h
    · cases h
    · split at h
      · cases h
        trivial
      · cases h
  | addPeer | removePeer | addLearner | changeMembership | electionTimeout =>
    dsimp only at h
    split at h
    · cases h
      trivial
    · cases h
  | heartbeatTimeout | compactSnapshot =>
    cases h
    trivial

/-- **The library's calls succeed** on a sound engine, and leave a storage the engine is sound with. -/
theorem Sound.advance (hK : K.Asks calls) (h : e.Sound) {event event' : Event}
    {end_ : Option Nat} (ha : e.admitEvent K event = .ok (event', acknowledged, end_)) :
    ∃ s, e.start.storage.callAll (calls e.start event') = some s ∧ (e.advance K event' acknowledged end_).1.Sound := by
  obtain ⟨s, hcalls, hs, -⟩ := hK.callAll (admitEvent_fits ha) h (calls e.start event') [] rfl rfl h rfl
  refine ⟨s, hcalls, ?_⟩
  have hcommit : e.start.commitIndex ≤ e.start.storage.lastLogIndex := by
    rw [Storage.Sound.lastLogIndex h]
    exact h.committed
  have hafter := hK.commit e.start event' hcommit
  rw [hK.storage _ _ s hcalls, hs.lastLogIndex] at hafter
  have hstorage : (K.step e.start event').1.storage = s := hK.storage _ _ s hcalls
  refine ⟨?_, ?_⟩
  · show Numbered ((K.step e.start event').1.storage.base + 1) (K.step e.start event').1.storage.log
    rw [hstorage]
    exact hs.numbered
  · show (K.step e.start event').1.commitIndex
      ≤ (K.step e.start event').1.storage.base + (K.step e.start event').1.storage.log.length
    rw [hstorage]
    exact hafter

theorem Sound.persist (h : e.Sound) : e.persist.1.Sound := by
  unfold Engine.persist
  cases e.disk with
  | nil => exact Storage.Sound.congr h rfl rfl rfl
  | cons ok disk => cases ok <;> exact Storage.Sound.congr h rfl rfl rfl

theorem Sound.save (h : e.Sound) (outputs : List Output) : (e.save outputs).1.Sound := by
  have hp := h.persist
  unfold Engine.save
  split
  · split
    · rename_i heq
      rwa [heq] at hp
    · rename_i heq
      rwa [heq] at hp
  · exact h

theorem Sound.step (hK : K.Asks calls) (h : e.Sound) (event : Event) : (e.step K event).1.Sound := by
  unfold Engine.step
  split
  · exact h
  split
  · exact h
  · rename_i ha
    obtain ⟨s, -, hnext⟩ := h.advance hK ha
    exact hnext.save _

theorem Sound.markApplied (h : e.Sound) (index : Nat) : (e.markApplied index).1.Sound := by
  unfold Engine.markApplied
  split
  · exact h
  split
  · exact h
  split
  · exact Sound.persist (e := { e with applied := index }) h
  · exact h

theorem Sound.compact (hK : K.Asks calls) (h : e.Sound) (data : List UInt8) : (e.compact K data).1.Sound := by
  have hstep := h.step hK (.compactSnapshot e.applied data)
  unfold Engine.compact
  split
  · exact h
  split
  · exact h
  split
  · exact h
  split
  · exact h
  split
  · rename_i heq
    rwa [heq] at hstep
  · rename_i heq
    rw [heq] at hstep
    split <;> exact hstep

/-- What `open_with_membership` checks of the state it has read. -/
structure Opened (e : Engine σ) : Prop where
  entries : validateEntries e.log e.raft.storage.base e.currentTerm = .ok ()
  applied : e.raft.storage.base ≤ e.applied ∧ e.applied ≤ e.commitIndex
  commit : e.commitIndex ≤ e.raft.storage.base + e.log.length

/-- The engines of a process: opened, then stepped, told what is applied, and compacted. -/
inductive Reached (K : Consensus σ) : Engine σ → Prop where
  | opened {e : Engine σ} : e.Opened → Reached K e
  | step {e : Engine σ} (event : Event) : Reached K e → Reached K (e.step K event).1
  | markApplied {e : Engine σ} (index : Nat) : Reached K e → Reached K (e.markApplied index).1
  | compact {e : Engine σ} (data : List UInt8) : Reached K e → Reached K (e.compact K data).1

theorem Reached.sound (hK : K.Asks calls) (h : e.Reached K) : e.Sound := by
  induction h with
  | opened h => exact ⟨Numbered.of_validateEntries h.entries, h.commit⟩
  | step event _ ih => exact ih.step hK event
  | markApplied index _ ih => exact ih.markApplied index
  | compact data _ ih => exact ih.compact hK data

/-- **A step never panics and is atomic**: whatever the library asks of the storage succeeds, and after an error the engine
that still runs is as it was. -/
theorem step_atomic (K : Consensus σ) (calls : RaftState σ → Event → List StorageCall) (hK : K.Asks calls) (e : Engine σ)
    (h : e.Reached K) (event : Event) :
    (∀ event' acknowledged end_, e.admitEvent K event = .ok (event', acknowledged, end_) →
      e.start.storage.callAll (calls e.start event') ≠ none) ∧
    ∀ error, (e.step K event).2 = .error error → (e.step K event).1.stopped = false →
      (e.step K event).1.raft = e.raft ∧ (e.step K event).1 = e := by
  constructor
  · intro event' acknowledged end_ ha hnone
    obtain ⟨s, hs, -⟩ := (h.sound hK).advance hK ha
    rw [hnone] at hs
    cases hs
  · intro error herror hrunning
    obtain ⟨-, -, hsame⟩ := step_refused herror hrunning
    exact ⟨congrArg Engine.raft hsame, hsame⟩

/-! ## A follower -/

def followerCalls (r : RaftState Unit) : Event → List StorageCall
  | .message _ (.appendEntries term _ prevLogIndex prevLogTerm entries _) =>
    if r.storage.term ≤ term ∧ r.storage.termAt prevLogIndex = some prevLogTerm then
      [.setTermAndVote term (if term = r.storage.term then r.storage.vote else none), .appendEntries (prevLogIndex + 1) entries]
    else []
  | _ => []

def follower : Consensus Unit where
  step r event :=
    match r.storage.callAll (followerCalls r event), event with
    | some s, .message _ (.appendEntries _ _ _ _ _ leaderCommit) =>
      ({ r with storage := s, commitIndex := min (max r.commitIndex leaderCommit) s.lastLogIndex }, [])
    | some s, _ => ({ r with storage := s, commitIndex := min r.commitIndex s.lastLogIndex }, [])
    | none, _ => (r, [])
  acceptsPeer r sender := r.membership.peers.contains sender
  committedMembership r := r.membership
  matchedIndex _ _ := 0

theorem follower_asks : follower.Asks followerCalls where
  storage r event s h := by
    unfold follower
    dsimp only
    split
    · rename_i heq
      exact Option.some.inj (heq.symm.trans h)
    · rename_i heq
      exact Option.some.inj (heq.symm.trans h)
    · rename_i heq
      rw [h] at heq
      cases heq
  allowed r event before call after s hcalls hbefore := by
    unfold followerCalls at hcalls
    split at hcalls
    · rename_i sender term leader prevLogIndex prevLogTerm entries leaderCommit
      split at hcalls
      · rename_i hterm
        cases before with
        | nil =>
          cases hcalls
          trivial
        | cons c before =>
          obtain ⟨rfl, hrest⟩ := cons.inj hcalls
          cases before with
          | nil =>
            cases hrest
            have hvotes : ∀ c ∈ [StorageCall.setTermAndVote term (if term = r.storage.term then r.storage.vote else none)],
                ∃ term vote, c = .setTermAndVote term vote := fun c hc => ⟨_, _, mem_singleton.1 hc⟩
            obtain ⟨hlog, hsnapshot, -⟩ := Storage.callAll_votes hvotes hbefore
            have hsame : s.termAt prevLogIndex = some prevLogTerm := by
              rw [← hterm.2]
              unfold Storage.termAt Storage.entry Storage.base
              rw [hsnapshot, hlog]
            exact ⟨_, _, rfl, hsame, .inr ⟨_, _, _, _, rfl, hterm.1, hvotes⟩⟩
          | cons c before =>
            obtain ⟨-, hnil⟩ := cons.inj hrest
            cases before <;> cases hnil
      · cases before <;> cases hcalls
    · cases before <;> cases hcalls
  commit r event h := by
    unfold follower
    dsimp only
    split
    · exact min_le_right _ _
    · exact min_le_right _ _
    · exact h

def compacted : Engine Unit where
  raft := { id := "a", role := .follower, commitIndex := 3, leaderId := none, membership := ⟨["a", "b"], none, []⟩, own := (),
            storage := ⟨2, none, [⟨2, 3, ⟨.unreadable, 0⟩⟩], 3, some ⟨2, 1, [], none⟩, false⟩ }
  applied := 3
  savedCommit := 3
  stopped := false
  acknowledged := ∅
  disk := []

theorem step_atomic_compacted :
    let event := Event.message "b" (.appendEntries 2 "b" 2 1 [⟨2, 3, ⟨.unreadable, 0⟩⟩, ⟨2, 4, ⟨.unreadable, 0⟩⟩] 4)
    let other := Event.message "b" (.appendEntries 2 "b" 2 1 [⟨1, 3, ⟨.unreadable, 0⟩⟩] 4)
    (∀ event' acknowledged end_, compacted.admitEvent follower event = .ok (event', acknowledged, end_) →
      compacted.start.storage.callAll (followerCalls compacted.start event') ≠ none) ∧
    (compacted.step follower event).1.log.length = 2 ∧ (compacted.step follower other).1.raft = compacted.raft := by
  have hopened : compacted.Opened := ⟨rfl, by decide, by decide⟩
  have hall := step_atomic follower followerCalls follower_asks compacted (.opened hopened)
  refine ⟨(hall _).1, rfl, ((hall _).2 .committedConflict rfl rfl).1⟩

end Engine

end Mistl.Escrow
