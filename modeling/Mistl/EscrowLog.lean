import Mistl.EscrowAppend
/-!
# EscrowLog — the log of a storage over its calls

Whatever calls are permitted where they are made, the log of a `Storage` stays numbered, and what is committed stays.
-/
namespace Mistl.Escrow

inductive LogCall where
  | append (prev : Nat) (entries : List LogEntry)
  | truncate (index : Nat)
  | install (snapshot : RaftSnapshot)
  | commit (index : Nat)
  deriving DecidableEq

namespace Numbered

theorem index_eq : ∀ {l : List LogEntry} {n : Nat}, Numbered n l → ∀ {k : Nat} {entry : LogEntry}, l[k]? = some entry →
    entry.index = n + k
  | _ :: _, _, h, 0, _, hk => by
    cases hk
    exact h.1
  | _ :: l, n, h, k + 1, entry, hk => by
    rw [index_eq h.2 hk]
    omega

theorem find_eq : ∀ {l : List LogEntry} {n : Nat}, Numbered n l → ∀ i,
    l.find? (fun entry => entry.index == i) = if i < n then none else l[i - n]?
  | [], n, _, i => by simp
  | entry :: l, n, h, i => by
    by_cases hi : n = i
    · rw [List.find?_cons_of_pos (by rw [h.1, hi]; exact beq_self_eq_true i), if_neg (by omega), hi, Nat.sub_self]
      rfl
    · rw [List.find?_cons_of_neg (by rw [h.1]; simpa using hi), find_eq h.2]
      split
      · rw [if_pos (by omega)]
      · rw [if_neg (by omega), show i - n = i - (n + 1) + 1 by omega]
        rfl

end Numbered

namespace Storage

def make (s : Storage) : LogCall → Option Storage
  | .append prev entries => s.appendEntries (prev + 1) entries
  | .truncate index => s.truncateFrom index
  | .install snapshot => some (s.installSnapshot snapshot).1
  | .commit index => some { s with committed := index }

/-- A batch follows an entry there is, and matches what is committed of it. -/
def Permits (s : Storage) : LogCall → Prop
  | .append prev entries => s.base ≤ prev ∧ prev ≤ s.lastLogIndex ∧ Numbered (prev + 1) entries ∧
    ∀ entry ∈ entries, entry.index ≤ s.committed → s.entry entry.index = some entry
  | .truncate index => s.committed < index
  | .install _ => True
  | .commit index => s.committed ≤ index ∧ index ≤ s.lastLogIndex

def makeAll : Storage → List LogCall → Option Storage
  | s, [] => some s
  | s, c :: calls => (s.make c).bind fun s => s.makeAll calls

def PermitsAll : Storage → List LogCall → Prop
  | _, [] => True
  | s, c :: calls => s.Permits c ∧ ∀ s', s.make c = some s' → s'.PermitsAll calls

/-- What is committed stays, but for what a snapshot takes the place of. -/
structure Keeps (s s' : Storage) : Prop where
  base : s.base ≤ s'.base
  committed : s.committed ≤ s'.committed
  entry : ∀ i ≤ s.committed, s'.base < i → s'.entry i = s.entry i

variable {s s' : Storage}

theorem Keeps.refl (s : Storage) : s.Keeps s := ⟨le_rfl, le_rfl, fun _ _ _ => rfl⟩

theorem Keeps.trans {s'' : Storage} (h : s.Keeps s') (h' : s'.Keeps s'') : s.Keeps s'' :=
  ⟨h.base.trans h'.base, h.committed.trans h'.committed, fun i hi hbase =>
    (h'.entry i (hi.trans h.committed) hbase).trans (h.entry i hi (h'.base.trans_lt hbase))⟩

theorem appendFrom_keeps {start : Nat} (hs : s.Sound) (hstart : s.base + 1 ≤ start) : ∀ {entries : List LogEntry} {offset : Nat},
    start - s.base - 1 + offset ≤ s.log.length → Numbered (start + offset) entries →
    s.appendFrom start offset entries = some s' → s.Keeps s'
  | [], _, _, _, h => by
    cases h
    exact .refl s
  | entry :: entries, offset, hreach, hnum, h => by
    rw [appendFrom, if_neg (not_lt.2 hstart)] at h
    dsimp only at h
    split at h
    · rename_i hmatch
      have hlt := (List.getElem?_eq_some_iff.1 hmatch).1
      exact appendFrom_keeps hs hstart (by omega) (by exact hnum.2) h
    · split at h
      · cases h
      · cases h
        refine ⟨le_rfl, le_rfl, fun i hi hbase => ?_⟩
        have hindex : entry.index = start + offset := hnum.1
        have hbase' : s.base < i := hbase
        have hplace : i - (s.base + 1) < start - s.base - 1 + offset := by omega
        change (if i < s.base + 1 then none else (s.log.take _ ++ entry :: entries)[i - (s.base + 1)]?) = _
        rw [List.getElem?_append_left (by rw [List.length_take]; omega), List.getElem?_take_of_lt hplace]
        rfl

theorem truncateFrom_keeps {index : Nat} (hs : s.Sound) (h : s.truncateFrom index = some s') : s.Keeps s' := by
  unfold truncateFrom at h
  split at h
  · cases h
  split at h
  · cases h
    refine ⟨le_rfl, le_rfl, fun i hi hbase => ?_⟩
    have hbase' : s.base < i := hbase
    change (if i < s.base + 1 then none else (s.log.filter _)[i - (s.base + 1)]?) = _
    rw [hs.numbered.filter_lt, List.getElem?_take_of_lt (by omega)]
    rfl
  · cases h
    exact .refl s

theorem installSnapshot_keeps (hs : s.Sound) (snapshot : RaftSnapshot) : s.Keeps (s.installSnapshot snapshot).1 := by
  unfold installSnapshot
  split
  · exact .refl s
  rename_i hbase
  have hle : s.base ≤ snapshot.lastIncludedIndex := (not_le.1 hbase).le
  split
  · refine ⟨hle, le_rfl, fun i hi hi' => ?_⟩
    have hi'' : snapshot.lastIncludedIndex < i := hi'
    change (if i < snapshot.lastIncludedIndex + 1 then none else (s.log.filter _)[i - (snapshot.lastIncludedIndex + 1)]?) = _
    rw [hs.numbered.filter_gt, List.getElem?_drop, entry, if_neg (by omega), if_neg (by omega)]
    congr 1
    omega
  split
  · exact .refl s
  · refine ⟨hle, le_rfl, fun i hi hi' => ?_⟩
    have hi'' : snapshot.lastIncludedIndex < i := hi'
    omega

theorem Sound.make (hs : s.Sound) {c : LogCall} (h : s.Permits c) : ∃ s', s.make c = some s' ∧ s'.Sound ∧ s.Keeps s' := by
  cases c with
  | append prev entries =>
    obtain ⟨hbase, hlast, hnum, hkept⟩ := h
    rw [hs.lastLogIndex] at hlast
    obtain ⟨s', happend, hs', -⟩ := @Sound.appendFrom s hs (prev + 1) (by omega) entries 0 (by omega) hnum hkept
    exact ⟨s', happend, hs', @appendFrom_keeps s s' (prev + 1) hs (by omega) entries 0 (by omega) hnum happend⟩
  | truncate index =>
    obtain ⟨s', htruncate, hs', -⟩ := hs.truncateFrom h
    exact ⟨s', htruncate, hs', truncateFrom_keeps hs htruncate⟩
  | install snapshot => exact ⟨_, rfl, (hs.installSnapshot snapshot).1, installSnapshot_keeps hs snapshot⟩
  | commit index =>
    obtain ⟨hle, hlast⟩ := h
    rw [hs.lastLogIndex] at hlast
    exact ⟨_, rfl, ⟨hs.numbered, hlast⟩, le_rfl, hle, fun _ _ _ => rfl⟩

theorem Sound.makeAll : ∀ {calls : List LogCall} {s : Storage}, s.Sound → s.PermitsAll calls →
    ∃ s', s.makeAll calls = some s' ∧ s'.Sound ∧ s.Keeps s'
  | [], s, hs, _ => ⟨s, rfl, hs, .refl s⟩
  | c :: calls, s, hs, h => by
    obtain ⟨s', hmake, hs', hkeeps⟩ := hs.make h.1
    obtain ⟨s'', hall, hs'', hkeeps''⟩ := Sound.makeAll hs' (h.2 s' hmake)
    rw [Storage.makeAll, hmake]
    exact ⟨s'', hall, hs'', hkeeps.trans hkeeps''⟩

theorem termAt_eq (s : Storage) (i : Nat) : s.termAt i = if i = s.base then some ((s.snapshot.map RaftSnapshot.lastIncludedTerm).getD 0)
    else (s.entry i).map LogEntry.term := by
  unfold termAt
  cases h : s.snapshot with
  | none =>
    have hbase : s.base = 0 := by rw [base, h]; rfl
    rw [hbase]
    rfl
  | some snapshot =>
    have hbase : s.base = snapshot.lastIncludedIndex := by rw [base, h]; rfl
    rw [hbase]
    dsimp only
    split
    · rfl
    split
    · rw [entry, if_pos (by omega)]
      rfl
    · rw [if_neg (by omega)]

theorem appendFrom_matching {start : Nat} (hstart : s.base + 1 ≤ start) : ∀ {entries : List LogEntry} {offset : Nat},
    entries <+: s.log.drop (start - s.base - 1 + offset) → s.appendFrom start offset entries = some s
  | [], _, _ => rfl
  | entry :: entries, offset, h => by
    obtain ⟨rest, hrest⟩ := h
    have hfirst : s.log[start - s.base - 1 + offset]? = some entry := by
      rw [← Nat.add_zero (_ + offset), ← List.getElem?_drop, ← hrest]
      rfl
    rw [appendFrom, if_neg (not_lt.2 hstart)]
    simp only [hfirst]
    refine appendFrom_matching hstart ⟨rest, ?_⟩
    rw [← Nat.add_assoc, ← List.drop_drop, ← hrest]
    rfl

/-- **The log keeps what is committed**: permitted calls never panic; after them the log is numbered from its base on and
reaches the commit index, no entry that was committed has changed, the term of each index is that of the snapshot or of the
entry there, and a batch that the log has already leaves it as it is. -/
theorem log_kept (hs : s.Sound) {calls : List LogCall} (h : s.PermitsAll calls) :
    ∃ s', s.makeAll calls = some s' ∧ (∀ k entry, s'.log[k]? = some entry → entry.index = s'.base + k + 1) ∧
      s'.committed ≤ s'.lastLogIndex ∧ s.Keeps s' ∧
      (∀ i, s'.entry i = s'.log.find? (fun entry => entry.index == i)) ∧
      (∀ i, s'.termAt i = if i = s'.base then some ((s'.snapshot.map RaftSnapshot.lastIncludedTerm).getD 0)
        else (s'.entry i).map LogEntry.term) ∧
      ∀ start entries, s'.base < start → entries <+: s'.log.drop (start - s'.base - 1) → s'.appendEntries start entries = some s' := by
  obtain ⟨s', hall, hs', hkeeps⟩ := hs.makeAll h
  refine ⟨s', hall, fun k entry hk => ?_, ?_, hkeeps, fun i => (hs'.numbered.find_eq i).symm, termAt_eq s',
    fun start entries hstart => @appendFrom_matching s' start hstart entries 0⟩
  · rw [hs'.numbered.index_eq hk]
    omega
  · rw [hs'.lastLogIndex]
    exact hs'.committed

theorem log_kept_compacted : ∃ s', makeAll ⟨0, none, [], 0, none, false⟩
    [.append 0 [⟨1, 1, ⟨.unreadable, 0⟩⟩, ⟨1, 2, ⟨.unreadable, 0⟩⟩], .commit 1, .install ⟨1, 1, [], none⟩] = some s' ∧
      s'.committed ≤ s'.lastLogIndex := by
  obtain ⟨s', hall, -, hle, -⟩ := @log_kept ⟨0, none, [], 0, none, false⟩ ⟨trivial, le_rfl⟩
    [.append 0 [⟨1, 1, ⟨.unreadable, 0⟩⟩, ⟨1, 2, ⟨.unreadable, 0⟩⟩], .commit 1, .install ⟨1, 1, [], none⟩]
    ⟨⟨le_rfl, le_rfl, ⟨rfl, rfl, trivial⟩, by decide⟩, fun s h => by
      cases h
      exact ⟨⟨by decide, by decide⟩, fun s h => by exact ⟨trivial, fun _ _ => trivial⟩⟩⟩
  exact ⟨s', hall, hle⟩

end Storage
end Mistl.Escrow
