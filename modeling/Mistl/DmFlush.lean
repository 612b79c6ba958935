import Mistl.DmLoad
/-!
# DmFlush — the directory against the memory

`Service::flush` drains what the history owes the directory and applies it entry by entry; when that fails, every
conversation is written again, but a deletion that was not carried out is forgotten.
-/
open List Mistl.Table Option

namespace Mistl.Dm

/-- The history, the directory, and a flush of one into the other. -/
structure Store where
  history : History
  dir : Dir
  /-- What a flush under way has yet to apply. -/
  flight : Option Pending
  /-- The conversations from which it was taken. -/
  taken : Table String Conversation
  /-- The conversations from which the last flush was taken, if it succeeded. -/
  saved : Option (Table String Conversation)

inductive Act where
  | add (did : String) (msg : StoredMsg) (nowMs : UInt64) (remote : Bool) (lru : Bool → Option String)
  | markDelivered (did id : String)
  | markRead (did : String)
  | clear (did : String)
  | take (removed dirty : List String)
  | apply
  | fail
  | finish
  | restart (entries : List (String × List UInt8))

def History.drained (h : History) : History := ⟨h.convs, ∅, ∅⟩

/-- The start of `flush` -/
def Store.begin (x : Store) (pending : Pending) : Store :=
  match pending with
  | [] => { x with history := x.history.drained, saved := some x.history.convs }
  | _ :: _ => ⟨x.history.drained, x.dir, some pending, x.history.convs, none⟩

/-- One step of a history with its directory.  What is added was checked by `send` or by `process_inbound`. -/
inductive Store.Step (C : Crates) (known : Set String) (x : Store) : Act → Store → Prop where
  | add {did : String} {msg : StoredMsg} {nowMs : UInt64} {remote : Bool} {lru : Bool → Option String} {h : History} :
      did ∈ known → did.utf8ByteSize = didKeyLen → msg.Storable → (∀ b, History.Oldest x.history.convs b (lru b)) →
      x.history.add did msg nowMs remote lru = .ok h → Step C known x (.add did msg nowMs remote lru) { x with history := h }
  | refused {did : String} {msg : StoredMsg} {nowMs : UInt64} {remote : Bool} {lru : Bool → Option String} {e : AddError} :
      x.history.add did msg nowMs remote lru = .error e → Step C known x (.add did msg nowMs remote lru) x
  | markDelivered (did id : String) : Step C known x (.markDelivered did id) { x with history := (x.history.markDelivered did id).1 }
  | markRead (did : String) : Step C known x (.markRead did) { x with history := x.history.markRead did }
  | clear (did : String) : Step C known x (.clear did) { x with history := x.history.clear did }
  | take {removed dirty : List String} : x.flight = none → (removed.Nodup ∧ removed.toFinset = x.history.removed) →
      (dirty.Nodup ∧ dirty.toFinset = x.history.dirty) →
      Step C known x (.take removed dirty) (x.begin (x.history.pending C removed dirty))
  | apply {entry : String × Option (List UInt8)} {pending : Pending} : x.flight = some (entry :: pending) →
      Step C known x .apply { x with dir := x.dir.apply entry, flight := some pending }
  | fail {pending : Pending} : x.flight = some pending →
      Step C known x .fail { x with history := x.history.markAllDirty, flight := none }
  | finish : x.flight = some [] → Step C known x .finish { x with flight := none, saved := some x.taken }
  | restart {entries : List (String × List UInt8)} : x.dir.Lists entries →
      Step C known x (.restart entries) ⟨History.load C entries, x.dir, none, ∅, none⟩

/-- The states of a run whose steps all meet `ok`. -/
inductive Store.Reach (C : Crates) (known : Set String) (start : Store) (ok : Store → Act → Prop) : Store → Prop where
  | refl : Reach C known start ok start
  | tail {x x' : Store} {act : Act} : Reach C known start ok x → ok x act → x.Step C known act x' → Reach C known start ok x'

structure Store.Fresh (C : Crates) (x : Store) : Prop where
  history : x.history = .default
  flight : x.flight = none
  saved : x.saved = none
  dir : ∀ name bytes, x.dir.get name = some bytes → readEntry C (name, bytes) = none

/-- A failed flush leaves no file whose deletion it forgets: it is gone, or its conversation is there or cleared again. -/
def Store.Remembers (C : Crates) (known : Set String) (x : Store) : Act → Prop
  | .fail => ∀ did ∈ known, (fileNameFor C did, none) ∈ x.flight.getD [] →
      x.dir.get (fileNameFor C did) = none ∨ x.history.convs.get did ≠ none ∨ did ∈ x.history.removed
  | _ => True

/-! ## The history's own invariant -/

structure History.Kept (known : Set String) (h : History) : Prop where
  convs : ∀ did conv, h.convs.get did = some conv → conv.did = did ∧ did ∈ known ∧ conv.Sound
  size : h.convs.size ≤ maxConversations
  dirty : ∀ did ∈ h.dirty, h.convs.get did ≠ none
  removed : ∀ did ∈ h.removed, h.convs.get did = none ∧ did ∈ known

/-- A conversation that owes nothing afterwards owed nothing before, and is as it was. -/
def History.Moves (h h' : History) : Prop :=
  ∀ did, did ∉ h'.dirty → did ∉ h'.removed → did ∉ h.dirty ∧ did ∉ h.removed ∧ h'.convs.get did = h.convs.get did

variable {C : Crates} {known : Set String} {h h' : History} {x x' : Store} {act : Act}

namespace History

theorem Moves.refl (h : History) : h.Moves h := fun _ hdirty hremoved => ⟨hdirty, hremoved, rfl⟩

theorem Moves.trans {h'' : History} (h₁ : h.Moves h') (h₂ : h'.Moves h'') : h.Moves h'' := fun did hdirty hremoved => by
  obtain ⟨hdirty, hremoved, hget⟩ := h₂ did hdirty hremoved
  obtain ⟨hdirty, hremoved, hget'⟩ := h₁ did hdirty hremoved
  exact ⟨hdirty, hremoved, hget.trans hget'⟩

theorem Kept.default : History.default.Kept known := by
  refine ⟨fun did conv hget => ?_, Nat.zero_le _, fun did hdid => ?_, fun did hdid => ?_⟩
  · cases hget
  · exact absurd hdid (Finset.notMem_empty _)
  · exact absurd hdid (Finset.notMem_empty _)

theorem Kept.drained (hk : h.Kept known) : h.drained.Kept known :=
  ⟨hk.convs, hk.size, fun _ hdid => absurd hdid (Finset.notMem_empty _), fun _ hdid => absurd hdid (Finset.notMem_empty _)⟩

theorem Kept.insert (hk : h.Kept known) {did : String} {conv : Conversation} (hsound : conv.Sound) (hdid : conv.did = did)
    (hknown : did ∈ known) (hsize : h.convs.get did ≠ none ∨ h.convs.size < maxConversations) {removed : Finset String}
    (hremoved : removed ⊆ h.removed) (hfresh : did ∉ removed) :
    (⟨h.convs.insert did conv, Insert.insert did h.dirty, removed⟩ : History).Kept known := by
  refine ⟨fun d c hget => ?_, ?_, fun d hd => ?_, fun d hd => ?_⟩
  · rcases of_get_insert hget with ⟨hd, rfl⟩ | ⟨-, hget⟩
    · exact ⟨hdid.trans hd.symm, hd ▸ hknown, hsound⟩
    · exact hk.convs d c hget
  · cases hget : h.convs.get did with
    | none =>
      rw [size_insert hget]
      exact hsize.resolve_left fun hne => hne hget
    | some old =>
      rw [size_replace hget]
      exact hk.size
  · rw [get_insert]
    split
    · exact some_ne_none _
    · rename_i hne
      exact hk.dirty d ((Finset.mem_insert.1 hd).resolve_left hne)
  · have hne : d ≠ did := fun he => hfresh (he ▸ hd)
    obtain ⟨hnone, hd⟩ := hk.removed d (hremoved hd)
    exact ⟨by rw [← hnone]; exact get_insert_ne hne _ _, hd⟩

theorem Kept.erase (hk : h.Kept known) {did : String} (hget : h.convs.get did ≠ none) :
    (⟨h.convs.erase did, h.dirty.erase did, Insert.insert did h.removed⟩ : History).Kept known := by
  obtain ⟨conv, hconv⟩ := ne_none_iff_exists'.1 hget
  refine ⟨fun d c hgot => ?_, ?_, fun d hd => ?_, fun d hd => ?_⟩
  · obtain ⟨-, hgot⟩ := of_get_erase hgot
    exact hk.convs d c hgot
  · have := size_erase hconv
    have := hk.size
    show (h.convs.erase did).size ≤ _
    omega
  · obtain ⟨hne, hd⟩ := Finset.mem_erase.1 hd
    rw [get_erase_ne hne]
    exact hk.dirty d hd
  · rw [get_erase]
    rcases Finset.mem_insert.1 hd with hd | hd
    · rw [if_pos hd, hd]
      exact ⟨rfl, (hk.convs did conv hconv).2.1⟩
    · obtain ⟨hnone, hknown⟩ := hk.removed d hd
      exact ⟨by split <;> [rfl; exact hnone], hknown⟩

theorem Moves.insert (h : History) (did : String) (conv : Conversation) {removed : Finset String}
    (hremoved : ∀ d ∈ h.removed, d ≠ did → d ∈ removed) :
    h.Moves ⟨h.convs.insert did conv, Insert.insert did h.dirty, removed⟩ := fun d hdirty hd => by
  obtain ⟨hne, hdirty⟩ := not_or.1 fun hmem => hdirty (Finset.mem_insert.2 hmem)
  exact ⟨hdirty, fun hmem => hd (hremoved d hmem hne), get_insert_ne hne _ _⟩

theorem Moves.erase (h : History) (did : String) :
    h.Moves ⟨h.convs.erase did, h.dirty.erase did, Insert.insert did h.removed⟩ := fun d hdirty hd => by
  obtain ⟨hne, hd⟩ := not_or.1 fun hmem => hd (Finset.mem_insert.2 hmem)
  exact ⟨fun hmem => hdirty (Finset.mem_erase.2 ⟨hne, hmem⟩), hd, get_erase_ne hne _⟩

theorem append_kept (hk : h.Kept known) {did : String} {msg : StoredMsg} {nowMs : UInt64} {remote : Bool}
    (hknown : did ∈ known) (hlen : did.utf8ByteSize = didKeyLen) (hmsg : msg.Storable)
    (hsize : h.convs.get did ≠ none ∨ h.convs.size < maxConversations) :
    (h.append did msg nowMs remote).Kept known ∧ h.Moves (h.append did msg nowMs remote) := by
  have hold : ((h.convs.get did).getD ⟨did, 0, 0, []⟩).did = did ∧
      ∀ m ∈ ((h.convs.get did).getD ⟨did, 0, 0, []⟩).messages, m.Storable := by
    cases hget : h.convs.get did with
    | none => exact ⟨rfl, nofun⟩
    | some conv =>
      obtain ⟨hdid, -, hsound⟩ := hk.convs did conv hget
      exact ⟨hdid, hsound.messages⟩
  unfold append
  dsimp only
  generalize (h.convs.get did).getD ⟨did, 0, 0, []⟩ = old at hold
  obtain ⟨hdid, hmessages⟩ := hold
  have hsame : (if remote then { old with unread := min (old.unread + 1) maxUnread } else old).did = did ∧
      (if remote then { old with unread := min (old.unread + 1) maxUnread } else old).messages = old.messages := by
    split <;> exact ⟨hdid, rfl⟩
  generalize (if remote then { old with unread := min (old.unread + 1) maxUnread } else old) = conv at hsame
  obtain ⟨hdid, hsame⟩ := hsame
  have hsound : Conversation.Sound (Conversation.trim
      { conv with updatedMs := max nowMs conv.updatedMs, messages := conv.messages ++ [msg] }) := by
    refine Conversation.trim_sound (by rw [hdid]; exact hlen) fun m hm => ?_
    rcases mem_append.1 hm with hm | hm
    · exact hmessages m (hsame ▸ hm)
    · exact mem_singleton.1 hm ▸ hmsg
  refine ⟨hk.insert hsound hdid hknown hsize (Finset.erase_subset _ _) (Finset.notMem_erase _ _), Moves.insert h did _ ?_⟩
  exact fun d hd hne => Finset.mem_erase.2 ⟨hne, hd⟩

theorem add_kept (hk : h.Kept known) {did : String} {msg : StoredMsg} {nowMs : UInt64} {remote : Bool}
    {lru : Bool → Option String} (hlru : ∀ b, Oldest h.convs b (lru b)) (hknown : did ∈ known)
    (hlen : did.utf8ByteSize = didKeyLen) (hmsg : msg.Storable) (hadd : h.add did msg nowMs remote lru = .ok h') :
    h'.Kept known ∧ h.Moves h' := by
  unfold add at hadd
  split at hadd
  · cases hadd
  split at hadd
  · split at hadd
    · cases hadd
    rename_i g hg
    cases hadd
    -- the victim is a conversation of the table
    obtain ⟨b, victim, hvictim, rfl⟩ : ∃ b victim, lru b = some victim ∧
        ⟨h.convs.erase victim, h.dirty.erase victim, Insert.insert victim h.removed⟩ = g := by
      unfold makeRoom at hg
      split at hg
      · cases hg
      rename_i victim hvictim
      cases hg
      rcases or_eq_some_iff.1 hvictim with hv | ⟨-, hv⟩
      · exact ⟨true, victim, hv, rfl⟩
      · split at hv
        · cases hv
        · exact ⟨false, victim, hv, rfl⟩
    have hget : h.convs.get victim ≠ none := by
      have := hlru b
      rw [hvictim] at this
      obtain ⟨conv, hconv, -⟩ := this
      rw [hconv]
      exact some_ne_none _
    obtain ⟨conv, hconv⟩ := ne_none_iff_exists'.1 hget
    have hsize : (h.convs.erase victim).size < maxConversations := by
      have := size_erase hconv
      have := hk.size
      omega
    obtain ⟨hkept, hmoves⟩ := @append_kept _ _ (hk.erase hget) did msg nowMs remote hknown hlen hmsg (.inr hsize)
    exact ⟨hkept, (Moves.erase h victim).trans hmoves⟩
  · rename_i hroom
    cases hadd
    refine append_kept hk hknown hlen hmsg ?_
    by_cases hnone : h.convs.get did = none
    · exact .inr (not_le.1 fun hle => hroom ⟨hnone, hle⟩)
    · exact .inl hnone

theorem deliver_storable {id : String} : ∀ {messages delivered : List StoredMsg}, deliver id messages = some delivered →
    bytesOf delivered = bytesOf messages ∧ delivered.length = messages.length ∧
      ((∀ m ∈ messages, m.Storable) → ∀ m ∈ delivered, m.Storable)
  | [], _, hd => by cases hd
  | msg :: messages, delivered, hd => by
    unfold deliver at hd
    split at hd
    · split at hd
      · cases hd
        refine ⟨rfl, rfl, fun hall m hm => ?_⟩
        rcases mem_cons.1 hm with rfl | hm
        · obtain ⟨hid, htext, hfile⟩ := hall msg mem_cons_self
          exact ⟨hid, htext, hfile⟩
        · exact hall m (mem_cons_of_mem _ hm)
      · cases hd
    · obtain ⟨rest, hrest, rfl⟩ := map_eq_some_iff.1 hd
      obtain ⟨hbytes, hlen, hstorable⟩ := deliver_storable hrest
      refine ⟨by rw [bytesOf_cons, bytesOf_cons, hbytes], congrArg (· + 1) hlen, fun hall m hm => ?_⟩
      rcases mem_cons.1 hm with rfl | hm
      · exact hall m mem_cons_self
      · exact hstorable (fun m hm => hall m (mem_cons_of_mem _ hm)) m hm

theorem markDelivered_kept (hk : h.Kept known) (did id : String) :
    (h.markDelivered did id).1.Kept known ∧ h.Moves (h.markDelivered did id).1 := by
  unfold markDelivered
  split
  · exact ⟨hk, .refl h⟩
  rename_i conv hconv
  split
  · exact ⟨hk, .refl h⟩
  rename_i messages hmessages
  obtain ⟨hdid, hknown, hsound⟩ := hk.convs did conv hconv
  obtain ⟨hbytes, hlen, hstorable⟩ := deliver_storable hmessages
  have hget : h.convs.get did ≠ none := by
    rw [hconv]
    exact some_ne_none _
  have hsound' : Conversation.Sound { conv with messages := messages } :=
    ⟨hsound.did, hlen ▸ hsound.count, hbytes ▸ hsound.bytes, hstorable hsound.messages⟩
  exact ⟨hk.insert hsound' hdid hknown (.inl hget) subset_rfl fun hmem => hget (hk.removed did hmem).1,
    Moves.insert h did _ fun d hd _ => hd⟩

theorem markRead_kept (hk : h.Kept known) (did : String) : (h.markRead did).Kept known ∧ h.Moves (h.markRead did) := by
  unfold markRead
  split
  · exact ⟨hk, .refl h⟩
  rename_i conv hconv
  split
  · obtain ⟨hdid, hknown, hsound⟩ := hk.convs did conv hconv
    have hget : h.convs.get did ≠ none := by
      rw [hconv]
      exact some_ne_none _
    have hsound' : Conversation.Sound { conv with unread := 0 } := ⟨hsound.did, hsound.count, hsound.bytes, hsound.messages⟩
    exact ⟨hk.insert hsound' hdid hknown (.inl hget) subset_rfl fun hmem => hget (hk.removed did hmem).1,
      Moves.insert h did _ fun d hd _ => hd⟩
  · exact ⟨hk, .refl h⟩

theorem clear_kept (hk : h.Kept known) (did : String) : (h.clear did).Kept known ∧ h.Moves (h.clear did) := by
  unfold clear
  split
  · rename_i hsome
    exact ⟨hk.erase (isSome_iff_ne_none.1 hsome), Moves.erase h did⟩
  · exact ⟨hk, .refl h⟩

end History

/-! ## The directory -/

def Dir.view (C : Crates) (dir : Dir) (did : String) : Option Conversation :=
  (dir.get (fileNameFor C did)).bind fun bytes => readEntry C (fileNameFor C did, bytes)

def Dir.Ours (C : Crates) (known : Set String) (dir : Dir) : Prop :=
  ∀ name bytes conv, dir.get name = some bytes → readEntry C (name, bytes) = some conv → conv.did ∈ known ∧ conv.Sound

/-- Few enough conversations for `load` to keep them all. -/
def Dir.Fits (C : Crates) (known : Set String) (dir : Dir) : Prop :=
  ∃ S : Finset String, S.card ≤ maxConversations ∧ ∀ did ∈ known, dir.view C did ≠ none → did ∈ S

def deletion (C : Crates) (did : String) : String × Option (List UInt8) := (fileNameFor C did, none)

def writing (C : Crates) (conv : Conversation) : String × Option (List UInt8) := (fileNameFor C conv.did, some conv.toJson.toVec)

section
variable (hdigest : ∀ bytes, C.digest bytes ≠ "") (hnames : Set.InjOn (fileNameFor C) known)

include hnames in
theorem Dir.view_deletion {dir : Dir} {d did : String} (hd : d ∈ known) (hdid : did ∈ known) :
    (dir.apply (deletion C d)).view C did = if did = d then none else dir.view C did := by
  show ((dir.erase (fileNameFor C d)).get (fileNameFor C did)).bind _ = _
  rw [get_erase]
  by_cases he : did = d
  · rw [he, if_pos rfl, if_pos rfl]
    rfl
  · rw [if_neg fun hname => he (hnames hdid hd hname), if_neg he]
    rfl

include hdigest hnames in
theorem Dir.view_writing {dir : Dir} {conv : Conversation} {did : String} (hsound : conv.Sound) (hconv : conv.did ∈ known)
    (hdid : did ∈ known) :
    (dir.apply (writing C conv)).view C did = if did = conv.did then some conv else dir.view C did := by
  show ((dir.insert (fileNameFor C conv.did) conv.toJson.toVec).get (fileNameFor C did)).bind _ = _
  rw [get_insert]
  by_cases he : did = conv.did
  · rw [he, if_pos rfl, if_pos rfl]
    exact readEntry_toVec hdigest hsound
  · rw [if_neg fun hname => he (hnames hdid hconv hname), if_neg he]
    rfl

include hnames in
theorem Dir.view_deletions {did : String} (hdid : did ∈ known) : ∀ {removed : List String} {dir : Dir}, (∀ d ∈ removed, d ∈ known) →
    ((removed.map (deletion C)).foldl Dir.apply dir).view C did = if did ∈ removed then none else dir.view C did
  | [], dir, _ => (if_neg not_mem_nil).symm
  | d :: removed, dir, hall => by
    rw [map_cons, foldl_cons, view_deletions hdid (fun x hx => hall x (mem_cons_of_mem _ hx)),
      view_deletion hnames (hall d mem_cons_self) hdid]
    by_cases he : did = d
    · rw [if_pos he, ite_self, if_pos (he ▸ mem_cons_self)]
    · simp only [mem_cons, he, false_or, if_false]

include hdigest hnames in
theorem Dir.view_writings {did : String} (hdid : did ∈ known) {convs : Table String Conversation} :
    ∀ {writes : List Conversation} {dir : Dir}, (∀ c ∈ writes, c.Sound ∧ c.did ∈ known ∧ convs.get c.did = some c) →
      ((writes.map (writing C)).foldl Dir.apply dir).view C did =
        if did ∈ writes.map Conversation.did then convs.get did else dir.view C did
  | [], dir, _ => (if_neg not_mem_nil).symm
  | c :: writes, dir, hall => by
    obtain ⟨hsound, hknown, hget⟩ := hall c mem_cons_self
    rw [map_cons, foldl_cons, view_writings hdid (fun x hx => hall x (mem_cons_of_mem _ hx)),
      view_writing hdigest hnames hsound hknown hdid]
    by_cases he : did = c.did
    · rw [if_pos he, he, hget, ite_self, map_cons, if_pos mem_cons_self]
    · simp only [map_cons, mem_cons, he, false_or, if_false]

end

theorem Dir.Ours.deletion {dir : Dir} (ho : dir.Ours C known) (did : String) :
    (dir.apply (deletion C did)).Ours C known := fun name bytes conv hget hread => by
  obtain ⟨-, hget⟩ := of_get_erase hget
  exact ho name bytes conv hget hread

theorem Dir.Ours.writing (hdigest : ∀ bytes, C.digest bytes ≠ "") {dir : Dir} (ho : dir.Ours C known) {conv : Conversation}
    (hsound : conv.Sound) (hknown : conv.did ∈ known) : (dir.apply (writing C conv)).Ours C known :=
  fun name bytes c hget hread => by
    have hget : (dir.insert (fileNameFor C conv.did) conv.toJson.toVec).get name = some bytes := hget
    rcases of_get_insert hget with ⟨hname, rfl⟩ | ⟨-, hget⟩
    · rw [hname, readEntry_toVec hdigest hsound] at hread
      cases hread
      exact ⟨hknown, hsound⟩
    · exact ho name bytes c hget hread

/-! ## Loading -/

variable {entries : List (String × List UInt8)}

section
variable (hnames : Set.InjOn (fileNameFor C) known)

theorem Dir.lists_empty : Dir.Lists ∅ [] := ⟨nodup_nil, fun _ _ => ⟨nofun, nofun⟩⟩

theorem Dir.Lists.insert {dir : Dir} (h : dir.Lists entries) {name : String}
    (hname : dir.get name = none) (bytes : List UInt8) : Dir.Lists (dir.insert name bytes) ((name, bytes) :: entries) := by
  have hfresh : ∀ b, (name, b) ∉ entries := fun b hmem => by
    rw [(h.mem name b).1 hmem] at hname
    cases hname
  refine ⟨nodup_cons.2 ⟨fun hmem => ?_, h.names⟩, fun n b => ?_⟩
  · obtain ⟨⟨n, b⟩, hentry, rfl⟩ := List.mem_map.1 hmem
    exact hfresh b hentry
  · rw [mem_cons, Prod.mk.injEq, get_insert, h.mem n b]
    by_cases hn : n = name
    · rw [if_pos hn, hn, hname]
      exact ⟨fun hb => (hb.resolve_right fun hb => absurd hb.symm (some_ne_none _)).2 ▸ rfl,
        fun hb => .inl ⟨rfl, (Option.some.inj hb).symm⟩⟩
    · rw [if_neg hn]
      exact ⟨fun hb => hb.resolve_left fun hb => hn hb.1, .inr⟩

theorem mem_readEntries {dir : Dir} (hlists : dir.Lists entries)
    {conv : Conversation} (hmem : conv ∈ entries.filterMap (readEntry C)) :
    dir.view C conv.did = some conv ∧ ∃ name bytes, dir.get name = some bytes ∧ readEntry C (name, bytes) = some conv := by
  obtain ⟨⟨name, bytes⟩, hentry, hread⟩ := mem_filterMap.1 hmem
  have hget := (hlists.mem name bytes).1 hentry
  have hname := readEntry_name hread
  refine ⟨?_, name, bytes, hget, hread⟩
  unfold Dir.view
  rw [← hname, hget]
  exact hread

theorem nodup_readEntries {dir : Dir} (hlists : dir.Lists entries) :
    ((entries.filterMap (readEntry C)).map Conversation.did).Nodup := by
  have hpair : (entries.filterMap (readEntry C)).Pairwise fun a b => a.did ≠ b.did := by
    refine Pairwise.filterMap (R := fun a b : String × List UInt8 => a.1 ≠ b.1) _ ?_ (pairwise_map.1 hlists.names)
    intro a b hne c hc d hd he
    exact hne ((readEntry_name hc).trans ((congrArg (fileNameFor C) he).trans (readEntry_name hd).symm))
  exact pairwise_map.2 hpair

theorem length_readEntries {dir : Dir} (hours : dir.Ours C known) (hfits : dir.Fits C known)
    (hlists : dir.Lists entries) :
    (entries.filterMap (readEntry C)).length ≤ maxConversations := by
  obtain ⟨S, hcard, hS⟩ := hfits
  refine le_trans ?_ hcard
  rw [← length_map Conversation.did, ← toFinset_card_of_nodup (nodup_readEntries hlists)]
  refine Finset.card_le_card fun did hdid => ?_
  obtain ⟨conv, hconv, rfl⟩ := List.mem_map.1 (List.mem_toFinset.1 hdid)
  obtain ⟨hview, name, bytes, hget, hread⟩ := mem_readEntries hlists hconv
  refine hS _ (hours name bytes conv hget hread).1 ?_
  rw [hview]
  exact some_ne_none _

theorem load_convs (hlen : (entries.filterMap (readEntry C)).length ≤ maxConversations) :
    (History.load C entries).convs = insertAll Conversation.did
      ((entries.filterMap (readEntry C)).mergeSort (fun a b => decide (b.updatedMs ≤ a.updatedMs))) ∅ := by
  show insertAll Conversation.did (List.take maxConversations _) ∅ = _
  rw [take_of_length_le]
  rwa [(mergeSort_perm _ _).length_eq]

theorem load_of_mem {dir : Dir} (hlists : dir.Lists entries)
    (hlen : (entries.filterMap (readEntry C)).length ≤ maxConversations) {conv : Conversation}
    (hmem : conv ∈ entries.filterMap (readEntry C)) : (History.load C entries).convs.get conv.did = some conv := by
  have hperm := mergeSort_perm (entries.filterMap (readEntry C)) (fun a b => decide (b.updatedMs ≤ a.updatedMs))
  rw [load_convs hlen]
  refine get_insertAll_of_mem _ _ _ ?_ (hperm.mem_iff.2 hmem)
  exact (hperm.map Conversation.did).nodup_iff.2 (nodup_readEntries hlists)

include hnames in
theorem load_get {dir : Dir} (hours : dir.Ours C known) (hfits : dir.Fits C known)
    (hlists : dir.Lists entries) (did : String) (conv : Conversation) :
    (History.load C entries).convs.get did = some conv ↔ did ∈ known ∧ dir.view C did = some conv := by
  have hlen := length_readEntries hours hfits hlists
  constructor
  · intro hget
    rw [load_convs hlen] at hget
    rcases get_insertAll _ _ _ hget with ⟨hmem, rfl⟩ | hnone
    · obtain ⟨hview, name, bytes, hgot, hread⟩ := mem_readEntries hlists ((mergeSort_perm _ _).mem_iff.1 hmem)
      exact ⟨(hours name bytes conv hgot hread).1, hview⟩
    · cases hnone
  · rintro ⟨hknown, hview⟩
    obtain ⟨bytes, hget, hread⟩ := bind_eq_some_iff.1 hview
    have hdid : did = conv.did := hnames hknown (hours _ bytes conv hget hread).1 (readEntry_name hread)
    rw [hdid]
    exact load_of_mem hlists hlen (mem_filterMap.2 ⟨_, (hlists.mem _ bytes).2 hget, hread⟩)

include hnames in
theorem load_kept {dir : Dir} (hours : dir.Ours C known) (hfits : dir.Fits C known)
    (hlists : dir.Lists entries) : (History.load C entries).Kept known := by
  refine ⟨fun did conv hget => ?_, ?_, fun did hdid => absurd hdid (Finset.notMem_empty _),
    fun did hdid => absurd hdid (Finset.notMem_empty _)⟩
  · obtain ⟨hknown, hview⟩ := (load_get hnames hours hfits hlists did conv).1 hget
    obtain ⟨bytes, hget, hread⟩ := bind_eq_some_iff.1 hview
    obtain ⟨hconv, hsound⟩ := hours _ bytes conv hget hread
    exact ⟨(hnames hknown hconv (readEntry_name hread)).symm, hknown, hsound⟩
  · have hperm := mergeSort_perm (entries.filterMap (readEntry C)) (fun a b => decide (b.updatedMs ≤ a.updatedMs))
    have hnd := (hperm.map Conversation.did).nodup_iff.2 (nodup_readEntries hlists)
    show (insertAll Conversation.did (List.take maxConversations _) ∅).size ≤ _
    rw [size_insertAll _ _ _ (hnd.sublist ((take_sublist _ _).map _))
      fun _ _ _ hget => absurd hget.symm (some_ne_none _), size_empty, Nat.zero_add]
    exact (length_filter_le _ _).trans (length_take_le _ _)

end

/-! ## The invariant -/

/-- What a flush under way has yet to apply: deletions, then conversations of the table from which it was taken. -/
structure Store.Flight (C : Crates) (known : Set String) (x : Store) (pending : Pending) : Prop where
  work : ∃ removed writes, pending = List.map (deletion C) removed ++ List.map (writing C) writes ∧
    (∀ did ∈ removed, did ∈ known) ∧ (∀ c ∈ writes, c.Sound ∧ c.did ∈ known ∧ x.taken.get c.did = some c) ∧
    ∀ did ∈ known, x.dir.view C did ≠ none → x.taken.get did ≠ none ∨ did ∈ removed
  reached : ∀ did ∈ known, (pending.foldl Dir.apply x.dir).view C did = x.taken.get did
  known : ∀ did conv, x.taken.get did = some conv → did ∈ known
  size : x.taken.size ≤ maxConversations

/-- **What holds between any two steps**: a conversation that owes nothing is on disk once the flush under way is through. -/
structure Store.Kept (C : Crates) (known : Set String) (x : Store) : Prop where
  history : x.history.Kept known
  ours : x.dir.Ours C known
  fits : x.dir.Fits C known
  owed : ∀ did ∈ known, did ∉ x.history.dirty → did ∉ x.history.removed →
    ((x.flight.getD []).foldl Dir.apply x.dir).view C did = x.history.convs.get did
  flight : ∀ pending, x.flight = some pending → x.Flight C known pending
  saved : ∀ t, x.saved = some t → x.flight = none ∧ ∀ did conv, t.get did = some conv ↔ did ∈ known ∧ x.dir.view C did = some conv

namespace Store

theorem Fresh.kept (hx : x.Fresh C) : x.Kept C known := by
  obtain ⟨history, dir, flight, taken, saved⟩ := x
  obtain ⟨rfl, rfl, rfl, hdir⟩ := hx
  have hview : ∀ did, dir.view C did = none := fun did => by
    unfold Dir.view
    cases hget : dir.get (fileNameFor C did) with
    | none => rfl
    | some bytes => exact hdir _ bytes hget
  refine ⟨.default, fun name bytes conv hget hread => ?_, ⟨∅, Nat.zero_le _, fun did _ hne => absurd (hview did) hne⟩,
    fun did _ _ _ => hview did, nofun,
    nofun⟩
  rw [hdir name bytes hget] at hread
  cases hread

theorem Kept.moves (hk : x.Kept C known) {h : History} (hmoves : h.Kept known ∧ x.history.Moves h) :
    ({ x with history := h } : Store).Kept C known := by
  refine ⟨hmoves.1, hk.ours, hk.fits, fun did hdid hdirty hremoved => ?_, fun pending hflight => ?_, hk.saved⟩
  · obtain ⟨hdirty, hremoved, hget⟩ := hmoves.2 did hdirty hremoved
    exact (hk.owed did hdid hdirty hremoved).trans hget.symm
  · obtain ⟨hwork, hreached, hknown, hsize⟩ := hk.flight pending hflight
    exact ⟨hwork, hreached, hknown, hsize⟩

theorem pending_eq (hk : h.Kept known) (removed dirty : List String) :
    h.pending C removed dirty = removed.map (deletion C) ++ (dirty.filterMap h.convs.get).map (writing C) := by
  have hwrites : dirty.filterMap (fun did => (h.convs.get did).map fun conv => (fileNameFor C did, some conv.toJson.toVec)) =
      (dirty.filterMap h.convs.get).map (writing C) := by
    rw [map_filterMap]
    refine filterMap_congr fun did _ => ?_
    cases hget : h.convs.get did with
    | none => rfl
    | some conv => rw [map_some, map_some, writing, (hk.convs did conv hget).1]
  rw [History.pending, hwrites]
  rfl

variable (hdigest : ∀ bytes, C.digest bytes ≠ "") (hnames : Set.InjOn (fileNameFor C) known)

theorem mem_writes (hk : h.Kept known) {dirty : List String} {conv : Conversation} :
    conv ∈ dirty.filterMap h.convs.get ↔ conv.did ∈ dirty ∧ h.convs.get conv.did = some conv := by
  constructor
  · intro hmem
    obtain ⟨did, hdid, hget⟩ := mem_filterMap.1 hmem
    obtain rfl := (hk.convs did conv hget).1
    exact ⟨hdid, hget⟩
  · rintro ⟨hdid, hget⟩
    exact mem_filterMap.2 ⟨_, hdid, hget⟩

section

variable (hk : x.Kept C known)

include hk

include hdigest hnames in
theorem Kept.pending_reached (hflight : x.flight = none) {removed dirty : List String}
    (hremoved : removed.toFinset = x.history.removed) (hdirty : dirty.toFinset = x.history.dirty) {did : String}
    (hdid : did ∈ known) :
    ((x.history.pending C removed dirty).foldl Dir.apply x.dir).view C did = x.history.convs.get did := by
  have hmem : did ∈ (dirty.filterMap x.history.convs.get).map Conversation.did ↔ did ∈ x.history.dirty := by
    rw [← hdirty, List.mem_toFinset]
    constructor
    · intro hmem
      obtain ⟨conv, hconv, rfl⟩ := List.mem_map.1 hmem
      exact ((mem_writes hk.history).1 hconv).1
    · intro hmem
      obtain ⟨conv, hconv⟩ := ne_none_iff_exists'.1 (hk.history.dirty did (hdirty ▸ List.mem_toFinset.2 hmem))
      obtain rfl := (hk.history.convs did conv hconv).1
      exact List.mem_map.2 ⟨conv, (mem_writes hk.history).2 ⟨hmem, hconv⟩, rfl⟩
  rw [pending_eq hk.history, foldl_append, Dir.view_writings hdigest hnames hdid fun c hc => ?_,
    Dir.view_deletions hnames hdid fun d hd => (hk.history.removed d (hremoved ▸ List.mem_toFinset.2 hd)).2]
  · by_cases hd : did ∈ x.history.dirty
    · rw [if_pos (hmem.2 hd)]
    rw [if_neg fun h => hd (hmem.1 h)]
    by_cases hr : did ∈ x.history.removed
    · rw [if_pos (List.mem_toFinset.1 (hremoved ▸ hr)), (hk.history.removed did hr).1]
    · rw [if_neg fun h => hr (hremoved ▸ List.mem_toFinset.2 h), ← hk.owed did hdid hd hr, hflight]
      rfl
  · obtain ⟨-, hget⟩ := (mem_writes hk.history).1 hc
    obtain ⟨-, hknown, hsound⟩ := hk.history.convs _ c hget
    exact ⟨hsound, hknown, hget⟩

include hdigest hnames in
theorem Kept.begin (hflight : x.flight = none) {removed dirty : List String}
    (hremoved : removed.toFinset = x.history.removed) (hdirty : dirty.toFinset = x.history.dirty) :
    (x.begin (x.history.pending C removed dirty)).Kept C known := by
  have hreached := fun did hdid => @Kept.pending_reached _ _ _ hdigest hnames hk hflight _ _ hremoved hdirty did hdid
  have hwork := pending_eq (C := C) hk.history removed dirty
  cases hpending : x.history.pending C removed dirty with
  | nil =>
    rw [hpending] at hreached
    refine ⟨hk.history.drained, hk.ours, hk.fits, fun did hdid _ _ => ?_, fun _ hsome => ?_, fun t ht => ⟨hflight, ?_⟩⟩
    · show ((x.flight.getD []).foldl Dir.apply x.dir).view C did = _
      rw [hflight]
      exact hreached did hdid
    · exact absurd (hflight.symm.trans hsome).symm (some_ne_none _)
    · cases ht
      intro did conv
      constructor
      · intro hget
        have hknown := (hk.history.convs did conv hget).2.1
        exact ⟨hknown, (hreached did hknown).trans hget⟩
      · rintro ⟨hknown, hview⟩
        exact (hreached did hknown).symm.trans hview
  | cons entry pending =>
    rw [hpending] at hreached hwork
    refine ⟨hk.history.drained, hk.ours, hk.fits, fun did hdid _ _ => hreached did hdid, fun _ hsome => ?_, fun _ ht => ?_⟩
    · cases hsome
      refine ⟨⟨removed, _, hwork, fun did hdid => ?_, fun c hc => ?_, fun did hdid hview => ?_⟩, hreached, ?_, hk.history.size⟩
      · exact (hk.history.removed did (hremoved ▸ List.mem_toFinset.2 hdid)).2
      · obtain ⟨-, hget⟩ := (mem_writes hk.history).1 hc
        obtain ⟨-, hknown, hsound⟩ := hk.history.convs _ c hget
        exact ⟨hsound, hknown, hget⟩
      · by_cases hr : did ∈ x.history.removed
        · exact .inr (List.mem_toFinset.1 (hremoved ▸ hr))
        refine .inl fun hnone => ?_
        by_cases hd : did ∈ x.history.dirty
        · exact hk.history.dirty did hd hnone
        · refine hview ?_
          have howed := hk.owed did hdid hd hr
          rw [hflight] at howed
          exact howed.trans hnone
      · exact fun did conv hget => (hk.history.convs did conv hget).2.1
    · cases ht

include hdigest hnames in
theorem Kept.apply {entry : String × Option (List UInt8)} {pending : Pending}
    (hflight : x.flight = some (entry :: pending)) :
    ({ x with dir := x.dir.apply entry, flight := some pending } : Store).Kept C known := by
  obtain ⟨⟨removed, writes, hwork, hremoved, hwrites, hfiles⟩, hreached, hknown, hsize⟩ := hk.flight _ hflight
  have howed : ∀ did ∈ known, did ∉ x.history.dirty → did ∉ x.history.removed →
      (pending.foldl Dir.apply (x.dir.apply entry)).view C did = x.history.convs.get did := fun did hdid hd hr => by
    have := hk.owed did hdid hd hr
    rwa [hflight] at this
  have hsaved : ∀ t, x.saved = some t → False := fun t ht => by
    have := (hk.saved t ht).1
    rw [hflight] at this
    cases this
  cases removed with
  | cons d removed =>
    obtain ⟨rfl, rfl⟩ := cons.inj hwork
    have hview := fun did hdid => @Dir.view_deletion C known hnames x.dir d did (hremoved d mem_cons_self) hdid
    refine ⟨hk.history, hk.ours.deletion d, ?_, howed, fun _ hsome => ?_, fun t ht => (hsaved t ht).elim⟩
    · obtain ⟨S, hcard, hS⟩ := hk.fits
      refine ⟨S, hcard, fun did hdid hne => hS did hdid fun hnone => hne ?_⟩
      rw [hview did hdid, hnone, ite_self]
    · cases hsome
      refine ⟨⟨removed, writes, rfl, fun did hdid => hremoved did (mem_cons_of_mem _ hdid), hwrites, fun did hdid hne => ?_⟩,
        hreached, hknown, hsize⟩
      rw [hview did hdid] at hne
      split at hne
      · exact absurd rfl hne
      · rename_i hdne
        exact (hfiles did hdid hne).imp_right fun hmem => (mem_cons.1 hmem).resolve_left hdne
  | nil =>
    cases writes with
    | nil => cases hwork
    | cons c writes =>
      obtain ⟨rfl, rfl⟩ := cons.inj hwork
      obtain ⟨hsound, hc, hget⟩ := hwrites c mem_cons_self
      have hview := fun did hdid => @Dir.view_writing C known hdigest hnames x.dir c did hsound hc hdid
      have hfiles' : ∀ did ∈ known, (x.dir.apply (writing C c)).view C did ≠ none → x.taken.get did ≠ none := fun did hdid hne => by
          rw [hview did hdid] at hne
          split at hne
          · rename_i he
            rw [he, hget]
            exact some_ne_none _
          · exact (hfiles did hdid hne).resolve_right not_mem_nil
      -- every deletion is through, so nothing but the table's conversations is left
      refine ⟨hk.history, hk.ours.writing hdigest hsound hc, ⟨x.taken.keys, ?_, fun did hdid hne => ?_⟩, howed,
        fun _ hsome => ?_, fun t ht => (hsaved t ht).elim⟩
      · rw [card_keys]
        exact hsize
      · exact Table.mem_keys.2 (hfiles' did hdid hne)
      · cases hsome
        exact ⟨⟨[], writes, rfl, hremoved, fun c' hc' => hwrites c' (mem_cons_of_mem _ hc'),
          fun did hdid hne => .inl (hfiles' did hdid hne)⟩, hreached, hknown, hsize⟩

theorem Kept.fail {pending : Pending} (hflight : x.flight = some pending) (hok : x.Remembers C known .fail) :
    ({ x with history := x.history.markAllDirty, flight := none } : Store).Kept C known := by
  obtain ⟨⟨removed, writes, hwork, hremoved, hwrites, hfiles⟩, hreached, hknown, hsize⟩ := hk.flight _ hflight
  have hdirty : ∀ did, did ∉ x.history.dirty ∪ x.history.convs.keys →
      did ∉ x.history.dirty ∧ x.history.convs.get did = none := fun did hd => by
    rw [Finset.mem_union, not_or, Table.mem_keys, not_not] at hd
    exact hd
  refine ⟨⟨hk.history.convs, hk.history.size, fun did hdid => ?_, hk.history.removed⟩, hk.ours, hk.fits,
    fun did hdid hd hr => ?_, nofun, fun t ht => ?_⟩
  · rcases Finset.mem_union.1 hdid with hd | hd
    · exact hk.history.dirty did hd
    · exact Table.mem_keys.1 hd
  · obtain ⟨hd, hnone⟩ := hdirty did hd
    show x.dir.view C did = x.history.convs.get did
    rw [hnone]
    by_contra hview
    rcases hfiles did hdid hview with htaken | hmem
    · have howed := hk.owed did hdid hd hr
      rw [hflight] at howed
      exact htaken ((hreached did hdid).symm.trans (howed.trans hnone))
    · have hdel : (fileNameFor C did, none) ∈ x.flight.getD [] := by
        rw [hflight, hwork]
        exact mem_append_left _ (List.mem_map.2 ⟨did, hmem, rfl⟩)
      rcases hok did hdid hdel with hgone | hconv | hagain
      · refine hview ?_
        unfold Dir.view
        rw [hgone]
        rfl
      · exact hconv hnone
      · exact hr hagain
  · have := (hk.saved t ht).1
    rw [hflight] at this
    cases this

theorem Kept.finish (hflight : x.flight = some []) : ({ x with flight := none, saved := some x.taken } : Store).Kept C known := by
  obtain ⟨-, hreached, hknown, -⟩ := hk.flight _ hflight
  refine ⟨hk.history, hk.ours, hk.fits, fun did hdid hd hr => ?_, nofun, fun t ht => ⟨rfl, fun did conv => ?_⟩⟩
  · have := hk.owed did hdid hd hr
    rwa [hflight] at this
  · cases ht
    constructor
    · intro hget
      exact ⟨hknown did conv hget, (hreached did (hknown did conv hget)).trans hget⟩
    · rintro ⟨hdid, hview⟩
      exact (hreached did hdid).symm.trans hview

include hnames in
theorem Kept.restart (hlists : x.dir.Lists entries) : (⟨History.load C entries, x.dir, none, ∅, none⟩ : Store).Kept C known := by
  refine ⟨load_kept hnames hk.ours hk.fits hlists, hk.ours, hk.fits, fun did hdid _ _ => ?_, nofun, nofun⟩
  refine Option.ext fun conv => ?_
  rw [load_get hnames hk.ours hk.fits hlists]
  exact ⟨fun hview => ⟨hdid, hview⟩, fun h => h.2⟩

include hdigest hnames in
theorem Step.kept (hok : x.Remembers C known act) (hstep : x.Step C known act x') : x'.Kept C known := by
  cases hstep with
  | add hknown hlen hmsg hlru hadd => exact hk.moves (History.add_kept hk.history hlru hknown hlen hmsg hadd)
  | refused _ => exact hk
  | markDelivered did id => exact hk.moves (History.markDelivered_kept hk.history did id)
  | markRead did => exact hk.moves (History.markRead_kept hk.history did)
  | clear did => exact hk.moves (History.clear_kept hk.history did)
  | take hflight hremoved hdirty => exact hk.begin hdigest hnames hflight hremoved.2 hdirty.2
  | apply hflight => exact hk.apply hdigest hnames hflight
  | fail hflight => exact hk.fail hflight hok
  | finish hflight => exact hk.finish hflight
  | restart hlists => exact hk.restart hnames hlists

end

include hdigest hnames in
theorem Reach.kept (hx : x.Fresh C) (hrun : Reach C known x (Remembers C known) x') : x'.Kept C known := by
  induction hrun with
  | refl => exact hx.kept
  | tail _ hok hstep ih => exact Step.kept hdigest hnames ih hok hstep

end Store

/-- **A directory loads as the conversations of the last flush**, if it succeeded and nothing has changed since. -/
theorem flushed_is_loaded (hdigest : ∀ bytes, C.digest bytes ≠ "") (hnames : Set.InjOn (fileNameFor C) known)
    (hx : x.Fresh C) (hrun : Store.Reach C known x (Store.Remembers C known) x')
    (hsaved : x'.saved = some x'.history.convs) (entries : List (String × List UInt8)) (hlists : x'.dir.Lists entries) :
    (History.load C entries).convs = x'.history.convs := by
  have hk := hrun.kept hdigest hnames hx
  refine Table.ext fun did => Option.ext fun conv => ?_
  rw [load_get hnames hk.ours hk.fits hlists, (hk.saved _ hsaved).2]

/-! ## Two conversations -/

def sampleMsg : StoredMsg := ⟨"0123456789abcdef0123456789abcdef", true, 5, some "hello", none, .sent⟩

def sampleConv (did : String) : Conversation := ⟨did, 0, 5, [sampleMsg]⟩

def emptyStore : Store := ⟨.default, ∅, none, ∅, none⟩

theorem dmCrates_names : Set.InjOn (fileNameFor dmCrates) {ann, bob} := by
  have hne : fileNameFor dmCrates ann ≠ fileNameFor dmCrates bob := by decide
  rintro a (rfl | rfl) b (rfl | rfl) h
  · rfl
  · exact absurd h hne
  · exact absurd h.symm hne
  · rfl

theorem emptyStore_fresh : emptyStore.Fresh dmCrates := ⟨rfl, rfl, rfl, nofun⟩

theorem sampleMsg_storable : sampleMsg.Storable := by
  refine ⟨by decide, fun text htext => ?_, fun file hfile => ?_⟩
  · cases htext
    decide
  · cases hfile

theorem sampleConv_sound {did : String} (hlen : did.utf8ByteSize = didKeyLen) : (sampleConv did).Sound :=
  ⟨hlen, (by decide : 1 ≤ 500), (by decide : bytesOf [sampleMsg] ≤ maxConvBytes),
    fun msg hmsg => mem_singleton.1 hmsg ▸ sampleMsg_storable⟩

theorem readEntry_sample {did : String} (hlen : did.utf8ByteSize = didKeyLen) :
    readEntry dmCrates (fileNameFor dmCrates did, (sampleConv did).toJson.toVec) = some (sampleConv did) :=
  @readEntry_toVec (sampleConv did) dmCrates dmCrates_digest (sampleConv_sound hlen)

theorem Store.Reach.written {ok : Store → Act → Prop} (hfree : ∀ x act, act ≠ .fail → ok x act) (hrun : Reach C known x ok x')
    (hidle : x'.history = .default ∧ x'.flight = none) {did : String} (hknown : did ∈ known)
    (hlen : did.utf8ByteSize = didKeyLen) : ∃ y, Reach C known x ok y ∧
      y.history = ⟨insert ∅ did (sampleConv did), ∅, ∅⟩ ∧ y.flight = none ∧ y.saved = some y.history.convs ∧
      y.dir = x'.dir.insert (fileNameFor C did) (sampleConv did).toJson.toVec := by
  obtain ⟨history, dir, flight, taken, saved⟩ := x'
  obtain ⟨rfl, rfl⟩ : history = .default ∧ flight = none := hidle
  have hadd : History.default.add did sampleMsg 5 false (fun _ => none) =
      .ok ⟨insert ∅ did (sampleConv did), {did}, ∅⟩ := History.add_default ..
  have hpending : History.pending C ⟨insert ∅ did (sampleConv did), {did}, ∅⟩ [] [did] =
      [(fileNameFor C did, some (sampleConv did).toJson.toVec)] := by
    unfold History.pending
    rw [filterMap_cons, get_insert_self]
    rfl
  have h₁ := hrun.tail (hfree _ (.add did sampleMsg 5 false fun _ => none) nofun) (.add hknown hlen sampleMsg_storable
    (fun _ _ _ hget => absurd hget.symm (some_ne_none _)) hadd)
  have h₂ := h₁.tail (hfree _ (.take [] [did]) nofun) (.take rfl ⟨nodup_nil, rfl⟩ ⟨nodup_singleton did, rfl⟩)
  rw [hpending] at h₂
  have h₃ := h₂.tail (hfree _ .apply nofun) (.apply rfl)
  exact ⟨_, h₃.tail (hfree _ .finish nofun) (.finish rfl), rfl, rfl, rfl, rfl⟩

theorem Store.Reach.cleared {ok : Store → Act → Prop} (hfree : ∀ x act, ok x act) (hrun : Reach C known x ok x')
    {did : String} (hidle : x'.history = ⟨insert ∅ did (sampleConv did), ∅, ∅⟩ ∧ x'.flight = none) :
    ∃ y, Reach C known x ok y ∧ y.history = .default ∧ y.flight = none ∧ y.dir = x'.dir := by
  obtain ⟨history, dir, flight, taken, saved⟩ := x'
  obtain ⟨rfl, rfl⟩ : history = _ ∧ flight = none := hidle
  have herase : (insert ∅ did (sampleConv did)).erase did = ∅ := by
    refine Table.ext fun d => ?_
    rw [get_erase]
    split
    · rfl
    · rename_i hne
      exact get_insert_ne hne _ _
  have hclear : History.clear ⟨insert ∅ did (sampleConv did), ∅, ∅⟩ did = ⟨∅, ∅, {did}⟩ := by
    unfold History.clear
    rw [get_insert_self, herase]
    rfl
  have hpending : History.pending C ⟨∅, ∅, {did}⟩ [did] [] = [deletion C did] := rfl
  have h₁ := hrun.tail (hfree _ (.clear did)) (.clear did)
  rw [hclear] at h₁
  have h₂ := h₁.tail (hfree _ (.take [did] [])) (.take rfl ⟨nodup_singleton did, rfl⟩ ⟨nodup_nil, rfl⟩)
  exact ⟨_, h₂.tail (hfree _ .fail) (.fail rfl), rfl, rfl, rfl⟩

theorem flushed_is_loaded_ann : ∃ y entries,
    Store.Reach dmCrates {ann, bob} emptyStore (Store.Remembers dmCrates {ann, bob}) y ∧ y.dir.Lists entries ∧
      y.history.convs.get ann = some (sampleConv ann) ∧ (History.load dmCrates entries).convs = y.history.convs := by
  have hfree : ∀ x act, act ≠ .fail → Store.Remembers dmCrates {ann, bob} x act := fun x act hne => by
    cases act <;> first | exact trivial | exact absurd rfl hne
  have hstart : Store.Reach dmCrates {ann, bob} emptyStore (Store.Remembers dmCrates {ann, bob}) emptyStore := .refl
  obtain ⟨y, hy, hhistory, -, hsaved, hdir⟩ := hstart.written hfree ⟨rfl, rfl⟩ (Set.mem_insert ann {bob}) (by decide)
  have hlists : y.dir.Lists [(fileNameFor dmCrates ann, (sampleConv ann).toJson.toVec)] := by
    rw [hdir]
    exact Dir.lists_empty.insert rfl _
  refine ⟨y, _, hy, hlists, ?_, flushed_is_loaded dmCrates_digest dmCrates_names emptyStore_fresh hy hsaved _ hlists⟩
  rw [hhistory]
  exact get_insert_self ..

/-- A cleared conversation whose file could not be removed comes back after a flush that succeeded. -/
theorem cleared_comes_back : ¬ ∀ y entries, Store.Reach dmCrates {ann, bob} emptyStore (fun _ _ => True) y →
    y.saved = some y.history.convs → y.dir.Lists entries → (History.load dmCrates entries).convs = y.history.convs := by
  intro hall
  have hstart : Store.Reach dmCrates {ann, bob} emptyStore (fun _ _ => True) emptyStore := .refl
  obtain ⟨x, hx, hhistory, hflight, -, hdir⟩ := hstart.written (fun _ _ _ => trivial) ⟨rfl, rfl⟩ (Set.mem_insert ann {bob}) (by decide)
  obtain ⟨x', hx', hhistory', hflight', hdir'⟩ := hx.cleared (fun _ _ => trivial) ⟨hhistory, hflight⟩
  obtain ⟨y, hy, hhistory, -, hsaved, hdir''⟩ := hx'.written (fun _ _ _ => trivial) ⟨hhistory', hflight'⟩
    (Set.mem_insert_of_mem ann (Set.mem_singleton bob)) (by decide)
  have hne : fileNameFor dmCrates bob ≠ fileNameFor dmCrates ann := fun h =>
    absurd (dmCrates_names (Set.mem_insert_of_mem ann (Set.mem_singleton bob)) (Set.mem_insert ann {bob}) h) (by decide)
  have hlists : y.dir.Lists [(fileNameFor dmCrates bob, (sampleConv bob).toJson.toVec),
      (fileNameFor dmCrates ann, (sampleConv ann).toJson.toVec)] := by
    rw [hdir'', hdir', hdir]
    exact (Dir.lists_empty.insert rfl _).insert (get_insert_ne hne _ _) _
  have hload := hall y _ hy hsaved hlists
  have hread := readEntry_sample (show ann.utf8ByteSize = didKeyLen by decide)
  have hmem : sampleConv ann ∈ [(fileNameFor dmCrates bob, (sampleConv bob).toJson.toVec),
      (fileNameFor dmCrates ann, (sampleConv ann).toJson.toVec)].filterMap (readEntry dmCrates) :=
    mem_filterMap.2 ⟨(fileNameFor dmCrates ann, (sampleConv ann).toJson.toVec), mem_cons_of_mem _ (mem_singleton_self _), hread⟩
  have hlen : ([(fileNameFor dmCrates bob, (sampleConv bob).toJson.toVec),
      (fileNameFor dmCrates ann, (sampleConv ann).toJson.toVec)].filterMap (readEntry dmCrates)).length ≤ maxConversations :=
    Nat.le_trans (length_filterMap_le _ _) (show 2 ≤ 200 by decide)
  have hann := load_of_mem hlists hlen hmem
  have hnone : (insert ∅ bob (sampleConv bob)).get ann = none := get_insert_ne (by decide) _ _
  rw [hload, hhistory] at hann
  exact absurd (hann.symm.trans hnone) (some_ne_none _)

end Mistl.Dm
