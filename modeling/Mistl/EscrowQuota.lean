import Mistl.EscrowRepository
/-!
# EscrowQuota — byte accounting of the repository

The bytes of an index are those of its held generations, its reservations are those outstanding, and no limit is passed,
over every interleaving of the operations.  `Touches` says what one operation may do to the accounts, `Accounted` is the
invariant.
-/
open List Mistl.Table Option

namespace Mistl.Escrow

/-- An outstanding reservation: what it was made for, and whether its commit has happened. -/
structure Booking where
  reservation : Reservation
  room : String
  head : Head
  committed : Bool

structure Desk where
  index : Index
  bookings : Multiset Booking

/-- What the callers of a repository use: the heads that occur, the rooms and owners that reservations are made for, and
the limits of the owners that always reserve under the same one. -/
structure Callers where
  heads : Set Head
  rooms : Set String
  owners : Set String
  limits : String → Option Nat

namespace Desk

/-- The sum of `f` over some reservations. -/
def sum (f : Booking → Nat) (bookings : Multiset Booking) : Nat := (bookings.map f).sum

def amount (b : Booking) : Nat := b.reservation.amount

def due (b : Booking) : Nat := if b.committed then 0 else b.reservation.amount

def ownerAmount (owner : String) (b : Booking) : Nat := if b.reservation.owner = some owner then b.reservation.ownerAmount else 0

def ownerDue (owner : String) (b : Booking) : Nat := if b.committed then 0 else ownerAmount owner b

def Free (d : Desk) (key : String) : Prop := ∀ b ∈ d.bookings, b.reservation.key ≠ key

def Idle (d : Desk) (key : String) : Prop := ∀ b ∈ d.bookings, b.reservation.key = key → b.committed = true

variable (C : Crates) (cfg : Config) (K : Callers)

/-- One operation on the repository, its slot locked by the caller, with the durable steps it takes.  `readable` says which
generations of a room read back. -/
inductive Step (readable : String → Head → Bool) (io : Io) (d : Desk) : List Effect → Desk → Prop
  | reserve (room : String) (head : Head) (owner : Option String) (ownerLimit : Option Nat) (i : Index)
      (reservation : Reservation) : room ∈ K.rooms → head ∈ K.heads → d.Free (slotKey C room head.slot) →
      (∀ o, owner = some o → o ∈ K.owners ∧ ∀ limit, K.limits o = some limit → ownerLimit = some limit) →
      d.index.reserve C cfg room head owner ownerLimit = (i, .ok (some reservation)) →
      Step readable io d [] ⟨i, ⟨reservation, room, head, false⟩ ::ₘ d.bookings⟩
  /-- the head is held already, or the reservation is refused -/
  | unreserved (room : String) (head : Head) (owner : Option String) (ownerLimit : Option Nat) (i : Index)
      (result : Except Error (Option Reservation)) : (∀ r, result ≠ .ok (some r)) →
      d.index.reserve C cfg room head owner ownerLimit = (i, result) → Step readable io d [] { d with index := i }
  | commit (b : Booking) (rest : Multiset Booking) (blob bytes : List UInt8) : d.bookings = b ::ₘ rest → b.committed = false →
      Step readable io d (d.index.commit C b.room b.head blob bytes io).2.1
        ⟨(d.index.commit C b.room b.head blob bytes io).1,
          { b with committed := (d.index.commit C b.room b.head blob bytes io).2.2.isOk } ::ₘ rest⟩
  | drop (b : Booking) (rest : Multiset Booking) : d.bookings = b ::ₘ rest → Step readable io d [] ⟨d.index.release b.reservation, rest⟩
  | importHead (room : String) (head : Head) (blob bytes : List UInt8) : head ∈ K.heads → d.Idle (slotKey C room head.slot) →
      Step readable io d (d.index.importHead C cfg room head blob bytes io).2.1
        { d with index := (d.index.importHead C cfg room head blob bytes io).1 }
  | delete (room : String) (request : Delete) : d.Idle (slotKey C room request.slot) →
      Step readable io d (d.index.delete C room request io).2.1
        { d with index := (d.index.delete C room request io).1 }
  | learn (room : String) (head : Head) (home : Option String) (deleted : Option Delete) : head ∈ K.heads →
      d.Idle (slotKey C room head.slot) →
      Step readable io d (d.index.learn C cfg room head home deleted io).2.1
        { d with index := (d.index.learn C cfg room head home deleted io).1 }
  | meshDelete (room : String) (request : Delete) : d.Idle (slotKey C room request.slot) →
      Step readable io d (d.index.meshDelete C cfg room request io).2.1
        { d with index := (d.index.meshDelete C cfg room request io).1 }
  | setHome (room : String) (head : Head) (home : String) : d.Idle (slotKey C room head.slot) →
      Step readable io d (d.index.setHome C room head home io).2.1
        { d with index := (d.index.setHome C room head home io).1 }
  | dropHolding (room : String) (head : Head) : d.Idle (slotKey C room head.slot) →
      Step readable io d (d.index.dropHolding C room head io).2.1
        { d with index := (d.index.dropHolding C room head io).1 }
  | verifyHolding (room : String) (head : Head) : d.Idle (slotKey C room head.slot) →
      Step readable io d (d.index.verifyHolding C room head (readable room) io).2.1
        { d with index := (d.index.verifyHolding C room head (readable room) io).1 }

def Runs : Desk → Desk → Prop := Relation.ReflTransGen fun d d' => ∃ readable io effects, Step C cfg K readable io d effects d'

end Desk

variable (C : Crates)

def ownedBytes (owner : String) (manifests : Table (String × String) (FileManifest × Nat)) (key : String) (r : Record) : Nat :=
  if r.owner = some owner then recordBytes C manifests key r else 0

/-- The heads of a record are among `V`, and the backup is another one. -/
def Record.Among (V : Set Head) (r : Record) : Prop := r.current ∈ V ∧ ∀ p, r.previous = some p → p ∈ V ∧ p ≠ r.current

/-- **An index that counts what it holds**: every held generation has its manifest in the cache, and the totals are those
of the records. -/
structure Index.Counted (V : Set Head) (i : Index) : Prop where
  bytes : i.bytes = i.records.total (recordBytes C i.manifests)
  ownerBytes : ∀ owner, i.ownerBytes owner = i.records.total (ownedBytes C owner i.manifests)
  cached : ∀ k r, i.records.get k = some r → ∀ h ∈ r.heldHeads, (i.manifests.get (k, h.hash C)).isSome = true
  among : ∀ k r, i.records.get k = some r → r.Among V

/-- **What an operation on a slot may do to the accounts**: the other slots stay as they are, the reservations too, and the
bytes rise by no more than `cost`, those of an owner by no more than its `charge`. -/
structure Index.Touches (V : Set Head) (key : String) (cost : Nat) (charge : String → Nat) (i i' : Index) : Prop where
  counted : i'.Counted C V
  records : ∀ k, k ≠ key → i'.records.get k = i.records.get k
  manifests : ∀ k r, k ≠ key → i.records.get k = some r → ∀ h ∈ r.heldHeads,
    i'.manifests.get (k, h.hash C) = i.manifests.get (k, h.hash C)
  reserved : i'.reserved = i.reserved
  ownerReserved : i'.ownerReserved = i.ownerReserved
  pendingSlots : i'.pendingSlots = i.pendingSlots
  bytes : i'.bytes ≤ i.bytes + cost
  ownerBytes : ∀ owner, i'.ownerBytes owner ≤ i.ownerBytes owner + charge owner

def Index.heldAt (i : Index) (key : String) : List Head := (i.records.get key).elim [] Record.heldHeads

variable {C} {V : Set Head} {i i' : Index} {key : String} {cost : Nat} {charge : String → Nat}

/-! ## Held generations and their manifests -/

variable {r : Record}

theorem mem_heldHeads {h : Head} :
    h ∈ r.heldHeads ↔ r.deleted = none ∧ (r.held = true ∧ h = r.current ∨ r.previousHeld = true ∧ r.previous = some h) := by
  unfold Record.heldHeads
  cases hd : r.deleted <;> cases r.held <;> cases r.previousHeld <;> simp [eq_comm]

variable {manifests : Table (String × String) (FileManifest × Nat)}

theorem get_filter_held {records : Table String Record}
    {k : String} (hr : records.get k = some r) {h : Head} (hh : h ∈ r.heldHeads) :
    (manifests.filter (fun entry _ => heldManifest C records entry)).get (k, h.hash C) = manifests.get (k, h.hash C) := by
  have hheld : heldManifest C records (k, h.hash C) = true := by
    unfold heldManifest
    rw [hr, any_some, List.any_eq_true]
    exact ⟨h, hh, beq_self_eq_true _⟩
  rw [Table.get_filter]
  cases manifests.get (k, h.hash C) with
  | none => rfl
  | some m => exact filter_some_pos hheld

theorem recordBytes_congr {manifests manifests' : Table (String × String) (FileManifest × Nat)} {k : String}
    (h : ∀ x ∈ r.heldHeads, manifests'.get (k, x.hash C) = manifests.get (k, x.hash C)) :
    recordBytes C manifests' k r = recordBytes C manifests k r := by
  unfold recordBytes
  congr 1
  refine map_congr_left (fun x hx => ?_)
  unfold generationBytes
  rw [h x hx]

theorem rebuild_counted (hcached : ∀ k r, i.records.get k = some r → ∀ h ∈ r.heldHeads, (i.manifests.get (k, h.hash C)).isSome = true)
    (hamong : ∀ k r, i.records.get k = some r → r.Among V) : (i.rebuild C).Counted C V := by
  have hsame : ∀ e ∈ i.records.entries, recordBytes C (i.rebuild C).manifests e.1 e.2 = recordBytes C i.manifests e.1 e.2 := fun e he =>
    recordBytes_congr (fun x hx => get_filter_held (get_eq_some_iff.2 he) hx)
  refine ⟨?_, fun owner => ?_, fun k r hr h hh => ?_, hamong⟩
  · exact (total_congr _ hsame).symm
  · have howned : i.records.total (ownedBytes C owner (i.rebuild C).manifests)
        = i.records.total (ownedBytes C owner i.manifests) := by
      refine total_congr _ (fun e he => ?_)
      unfold ownedBytes
      rw [hsame e he]
    exact howned.symm
  · have hr : i.records.get k = some r := hr
    show ((i.manifests.filter _).get _).isSome = true
    rw [get_filter_held hr hh]
    exact hcached k r hr h hh

theorem Index.Counted.touches (hi : i.Counted C V) (b : Bool) : i.Touches C V key cost charge { i with writeFailed := b } :=
  ⟨⟨hi.bytes, hi.ownerBytes, hi.cached, hi.among⟩, fun _ _ => rfl, fun _ _ _ _ _ _ => rfl, rfl, rfl, rfl,
    Nat.le_add_right _ _, fun _ => Nat.le_add_right _ _⟩

theorem Index.Touches.writeFailed (h : i.Touches C V key cost charge i') (b : Bool) :
    i.Touches C V key cost charge { i' with writeFailed := b } :=
  ⟨⟨h.counted.bytes, h.counted.ownerBytes, h.counted.cached, h.counted.among⟩, h.records, h.manifests, h.reserved,
    h.ownerReserved, h.pendingSlots, h.bytes, h.ownerBytes⟩

theorem Index.Touches.publish (hi : i.Counted C V) (h : i.Touches C V key cost charge i') (io : Io) :
    i.Touches C V key cost charge (i.publish i' io) := by
  cases io with
  | done => exact h
  | unpublished => exact hi.touches true
  | uncleaned => exact h.writeFailed true

theorem Index.Counted.insert (hi : i.Counted C V) {m : Option (FileManifest × Nat)} (hr : r.Among V)
    (hm : manifests = match m with | none => i.manifests | some m => i.manifests.insert (key, r.current.hash C) m)
    (hcached : ∀ h ∈ r.heldHeads, (manifests.get (key, h.hash C)).isSome = true)
    (hcost : recordBytes C manifests key r ≤ i.records.amountAt (recordBytes C i.manifests) key + cost)
    (hcharge : ∀ owner, r.owner = some owner →
      recordBytes C manifests key r ≤ i.records.amountAt (ownedBytes C owner i.manifests) key + charge owner) :
    i.Touches C V key cost charge (i.insert C key r m) := by
  have hother : ∀ k, k ≠ key → ∀ x, manifests.get (k, x) = i.manifests.get (k, x) := by
    intro k hk x
    rw [hm]
    cases m with
    | none => rfl
    | some m => exact get_insert_ne (fun h => hk (Prod.ext_iff.1 h).1) _ _
  have hsame : ∀ k v, k ≠ key → i.records.get k = some v → recordBytes C manifests k v = recordBytes C i.manifests k v :=
    fun k v hk _ => recordBytes_congr (fun x _ => hother k hk _)
  have hdef : i.insert C key r m = Index.rebuild C { i with records := i.records.insert key r, manifests := manifests } := by
    rw [hm]
    rfl
  rw [hdef]
  refine ⟨rebuild_counted ?_ ?_, fun k hk => get_insert_ne hk _ _, fun k v hk hv h hh => ?_, rfl, rfl, rfl, ?_, fun owner => ?_⟩
  · intro k v hv h hh
    by_cases hk : k = key
    · rw [hk] at hv ⊢
      cases (get_insert_self _ _ _).symm.trans hv
      exact hcached h hh
    · rw [get_insert_ne hk] at hv
      rw [hother k hk]
      exact hi.cached k v hv h hh
  · intro k v hv
    by_cases hk : k = key
    · rw [hk] at hv
      cases (get_insert_self _ _ _).symm.trans hv
      exact hr
    · rw [get_insert_ne hk] at hv
      exact hi.among k v hv
  · have hget : (i.records.insert key r).get k = some v := by rw [get_insert_ne hk, hv]
    exact (get_filter_held hget hh).trans (hother k hk _)
  · have := total_insert_at r hsame
    show (i.records.insert key r).total (recordBytes C manifests) ≤ i.bytes + cost
    rw [hi.bytes]
    omega
  · have := total_insert_at (f := ownedBytes C owner i.manifests) (g := ownedBytes C owner manifests) r
      (fun k v hk hv => by unfold ownedBytes; rw [hsame k v hk hv])
    show (i.records.insert key r).total (ownedBytes C owner manifests) ≤ i.ownerBytes owner + charge owner
    rw [hi.ownerBytes]
    have hc := hcharge owner
    unfold ownedBytes at this hc ⊢
    split at this <;> rename_i ho
    · have := hc ho
      omega
    · omega

theorem Index.Counted.erase (hi : i.Counted C V) (key : String) :
    i.Touches C V key 0 (fun _ => 0) (Index.rebuild C { i with records := i.records.erase key }) := by
  have hget : ∀ k r, (i.records.erase key).get k = some r → i.records.get k = some r := by
    intro k r hr
    exact (of_get_erase hr).2
  refine ⟨rebuild_counted (fun k r hr => hi.cached k r (hget k r hr)) (fun k r hr => hi.among k r (hget k r hr)),
    fun k hk => get_erase_ne hk _, fun k r hk hr h hh => get_filter_held ?_ hh, rfl, rfl, rfl, ?_, fun owner => ?_⟩
  · rw [get_erase_ne hk, hr]
  · have := total_erase_at (f := recordBytes C i.manifests) (k := key) (m := i.records) (fun _ _ _ _ => rfl)
    show (i.records.erase key).total (recordBytes C i.manifests) ≤ i.bytes + 0
    rw [hi.bytes]
    omega
  · have := total_erase_at (f := ownedBytes C owner i.manifests) (k := key) (m := i.records) (fun _ _ _ _ => rfl)
    show (i.records.erase key).total (ownedBytes C owner i.manifests) ≤ i.ownerBytes owner + 0
    rw [hi.ownerBytes]
    omega

theorem sum_map_le_of_sublist {l l' : List Head} (h : l.Sublist l') (f : Head → Nat) :
    (l.map f).sum ≤ (l'.map f).sum := (h.map f).sum_le_sum fun _ _ => Nat.zero_le _

/-- **A record that holds no more than its slot did** costs nothing, whatever becomes of its owner. -/
theorem Index.Counted.shrink (hi : i.Counted C V) (hr : r.Among V) (hheld : r.heldHeads.Sublist (i.heldAt key))
    (howner : ∀ owner, r.owner = some owner → (i.records.get key).bind Record.owner = some owner) :
    i.Touches C V key 0 (fun _ => 0) (i.insert C key r none) := by
  have hslot : recordBytes C i.manifests key r ≤ i.records.amountAt (recordBytes C i.manifests) key := by
    unfold amountAt Index.heldAt at *
    cases hg : i.records.get key with
    | none =>
      rw [hg] at hheld
      have hnil : r.heldHeads = [] := eq_nil_of_sublist_nil hheld
      simp [recordBytes, hnil]
    | some old =>
      rw [hg] at hheld
      exact sum_map_le_of_sublist hheld _
  refine hi.insert hr rfl (fun h hh => ?_) hslot (fun owner ho => ?_)
  · have hmem := hheld.subset hh
    unfold Index.heldAt at hmem
    cases hg : i.records.get key with
    | none => rw [hg] at hmem; cases hmem
    | some old => rw [hg] at hmem; exact hi.cached key old hg h hmem
  · have ho := howner owner ho
    unfold amountAt at hslot ⊢
    cases hg : i.records.get key with
    | none => rw [hg] at ho; cases ho
    | some old =>
      rw [hg] at ho hslot
      have ho : old.owner = some owner := ho
      show _ ≤ ownedBytes C owner i.manifests key old + 0
      rw [ownedBytes, if_pos ho]
      exact hslot

/-! ## What the operations cost -/

theorem heldHeads_trims {r r' : Record} (h : r'.Trims C r) : r'.heldHeads.Sublist r.heldHeads := by
  have hheld := h.held
  unfold Record.heldHeads
  rw [h.current, h.deleted]
  refine Sublist.append ?_ ?_
  · cases h' : r'.held with
    | false => exact nil_sublist _
    | true => rw [hheld h']
  · rcases h.previous with ⟨hp, hph⟩ | ⟨-, hph⟩
    · cases h' : r'.previousHeld with
      | false => exact nil_sublist _
      | true => rw [hph h', hp]
    · rw [hph]
      exact nil_sublist _

theorem Record.Among.trims {r r' : Record} (hr : r.Among V) (h : r'.Trims C r) : r'.Among V := by
  refine ⟨h.current ▸ hr.1, fun p hp => ?_⟩
  rcases h.previous with ⟨hprev, -⟩ | ⟨hprev, -⟩
  · rw [h.current]
    exact hr.2 p (hprev ▸ hp)
  · rw [hprev] at hp
    cases hp

theorem Index.Counted.trimmed (hi : i.Counted C V) {io : Io} {out : Index × List Effect × Except Error Unit}
    (h : Trimmed C i io key out) : i.Touches C V key 0 (fun _ => 0) out.1 := by
  rcases h with ⟨h1, -⟩ | ⟨r, r', hget, ht, -, h1, -⟩
  · rw [h1]
    exact hi.touches i.writeFailed
  · rw [h1]
    refine Index.Touches.publish hi (hi.shrink ((hi.among key r hget).trims ht) ?_ (fun owner ho => ?_)) io
    · rw [Index.heldAt, hget]
      exact heldHeads_trims ht
    · rw [hget, ← ho, ht.owner]
      rfl

theorem heldHeads_learned (old : Option Record) (room : String) (head : Head) (home : Option String)
    (deleted : Option Delete) :
    (learned C old room head home deleted).heldHeads.Sublist (old.elim [] Record.heldHeads) := by
  unfold learned Record.heldHeads
  cases old with
  | none => simp
  | some r =>
    simp only [Bool.false_and, Bool.false_eq_true, if_false, elim_some]
    split
    · rename_i hp
      rw [Bool.and_eq_true] at hp
      cases hf : Option.filter (fun r : Record => r.deleted.isNone && deleted.isNone
          && decide (head.seq = satAdd r.current.seq 1) && decide (head.parent = some (r.current.hash C))) (some r) with
      | none => rw [hf] at hp; cases hp.1
      | some r' =>
        rw [hf] at hp
        obtain ⟨hr', hcond⟩ := filter_eq_some_iff.1 hf
        cases hr'
        simp only [Bool.and_eq_true] at hcond
        rw [show r.held = true from hp.1, hcond.1.1.1]
        exact (sublist_append_left _ _)
    · exact nil_sublist _

variable {head : Head} {old : Option Record}

theorem among_learned (hV : ∀ h ∈ V, h.seq ≤ maxSafe)
    (hold : ∀ r, old = some r → r.Among V) (hhead : head ∈ V) (room : String) (home : Option String)
    (deleted : Option Delete) : (learned C old room head home deleted).Among V := by
  refine ⟨hhead, fun p hp => ?_⟩
  obtain ⟨r, hr, rfl⟩ := map_eq_some_iff.1 hp
  obtain ⟨hget, hcond⟩ := filter_eq_some_iff.1 hr
  simp only [Bool.and_eq_true, decide_eq_true_eq] at hcond
  refine ⟨(hold r hget).1, fun heq => ?_⟩
  have hseq := hcond.1.2
  have hle := hV _ (hold r hget).1
  rw [satAdd_of_le (by unfold maxSafe at hle; unfold u64Max; omega)] at hseq
  have : r.current.seq = head.seq := congrArg Head.seq heq
  omega

variable {room : String}

theorem Index.Counted.learn (hV : ∀ h ∈ V, h.seq ≤ maxSafe) (hi : i.Counted C V) {cfg : Config}
    (hhead : head.Valid C gib → head ∈ V) (home : Option String) (deleted : Option Delete) (io : Io) :
    i.Touches C V (slotKey C room head.slot) 0 (fun _ => 0) (i.learn C cfg room head home deleted io).1 := by
  rcases @learn_cases C i cfg room head io home deleted with
    ⟨h1, -⟩ | ⟨-, hl, -, -, h1, -⟩
  · rw [h1]
    exact hi.touches i.writeFailed
  · rw [h1]
    have hv := hhead (learnable_valid hl)
    refine Index.Touches.publish hi (hi.shrink (among_learned hV (fun r hr => hi.among _ r hr) hv room home deleted)
      (heldHeads_learned _ room head home deleted) nofun) io

theorem Index.Counted.meshDelete (hV : ∀ h ∈ V, h.seq ≤ maxSafe) (hi : i.Counted C V) {cfg : Config}
    (request : Delete) (io : Io) :
    i.Touches C V (slotKey C room request.slot) 0 (fun _ => 0) (i.meshDelete C cfg room request io).1 := by
  rcases @meshDelete_cases C i cfg room io request with
    ⟨h1, -⟩ | ⟨r, hget, hslot, h1, -⟩
  · rw [h1]
    exact hi.touches i.writeFailed
  · rw [h1, ← hslot]
    exact hi.learn hV (fun _ => (hi.among _ r hget).1) r.home (some request) io

theorem Index.Counted.delete (hi : i.Counted C V) (request : Delete) (io : Io) :
    i.Touches C V (slotKey C room request.slot) 0 (fun _ => 0) (i.delete C room request io).1 := by
  rcases @delete_cases C i room io request with ⟨h1, -⟩ | ⟨-, -, h1, -⟩
  · rw [h1]
    exact hi.touches i.writeFailed
  · rw [h1]
    exact (hi.erase _).publish hi io

def keptHeads (previous : Option Head) (previousHeld : Bool) : List Head := if previousHeld then previous.toList else []

/-- **What is kept beside a new head** is another head, held before. -/
structure Keeps (V : Set Head) (old : Option Record) (head : Head) (previous : Option Head) (previousHeld : Bool) : Prop where
  among : ∀ p, previous = some p → p ∈ V ∧ p ≠ head
  held : (keptHeads previous previousHeld).Sublist (old.elim [] Record.heldHeads)

theorem Keeps.nothing (V : Set Head) (old : Option Record) (head : Head) : Keeps V old head none false := ⟨nofun, nil_sublist _⟩

theorem Keeps.backup (hr : r.Among V) (hlive : r.deleted = none) : Keeps V (some r) r.current r.previous r.previousHeld := by
  refine ⟨hr.2, ?_⟩
  rw [elim_some, Record.heldHeads, hlive]
  cases r.previousHeld with
  | false => exact nil_sublist _
  | true => exact sublist_append_right _ _

theorem Keeps.current (hr : r.Among V) (hlive : r.deleted = none) (hne : r.current ≠ head) :
    Keeps V (some r) head (some r.current) r.held := by
  refine ⟨fun p hp => by cases hp; exact ⟨hr.1, hne⟩, ?_⟩
  rw [elim_some, Record.heldHeads, hlive]
  cases r.held with
  | false => exact nil_sublist _
  | true => exact sublist_append_left _ _

theorem keeps_kept (hold : ∀ r, old = some r → r.Among V) (head : Head) : Keeps V old head (kept C old head).1 (kept C old head).2 := by
  unfold kept
  split
  · rename_i r hr
    obtain ⟨rfl, hlive⟩ := filter_eq_some_iff.1 hr
    have hlive := isNone_iff_eq_none.1 hlive
    split
    · rename_i heq
      rw [← heq]
      exact Keeps.backup (hold r rfl) hlive
    · rename_i hne
      split
      · exact Keeps.current (hold r rfl) hlive hne
      · exact Keeps.nothing V _ head
  · exact Keeps.nothing V _ head

theorem keeps_import (hold : ∀ r, old = some r → r.Among V) {previous : Option Head}
    {previousHeld : Bool} (h : importOver C old head = .ok (previous, previousHeld)) :
    Keeps V old head previous previousHeld := by
  unfold importOver at h
  split at h
  · cases h
    exact Keeps.nothing V _ head
  rename_i r
  dsimp only at h
  split at h
  · cases h
  split at h
  · cases h
  split at h
  · cases h
  split at h
  · cases h
  split at h
  · cases h
  split at h
  · rename_i hsame
    cases h
    rw [← hsame.2]
    exact Keeps.backup (hold r rfl) (isNone_iff_eq_none.1 hsame.1)
  split at h
  · rename_i hnext
    cases h
    refine Keeps.current (hold r rfl) (isNone_iff_eq_none.1 hnext.1) (fun heq => ?_)
    have := (checkedAdd_eq_some.1 hnext.2.1).1
    rw [heq] at this
    omega
  · cases h
    exact Keeps.nothing V _ head

def keptBytes (C : Crates) (manifests : Table (String × String) (FileManifest × Nat)) (key : String)
    (previous : Option Head) (previousHeld : Bool) : Nat :=
  ((keptHeads previous previousHeld).map (generationBytes C manifests key)).sum

/-- **Storing a generation** costs its blob and manifest; on its owner's account, what it keeps as well, where that was not
the owner's before. -/
theorem Index.Counted.store (hV : Set.InjOn (Head.hash C) V) (hi : i.Counted C V) 
    (hhead : head ∈ V) {previous : Option Head} {previousHeld : Bool}
    (hkeeps : Keeps V (i.records.get (slotKey C room head.slot)) head previous previousHeld) (owner : Option String)
    (charge : String → Nat) (blob bytes : List UInt8) (manifest : FileManifest) (io : Io)
    (hcharge : ∀ o, owner = some o → head.size + bytes.length + (if (i.records.get (slotKey C room head.slot)).bind
      Record.owner = some o then 0 else keptBytes C i.manifests (slotKey C room head.slot) previous previousHeld) ≤ charge o) :
    i.Touches C V (slotKey C room head.slot) (head.size + bytes.length) charge
      (i.commitInner C room head previous previousHeld owner blob bytes manifest io).1 := by
  set key := slotKey C room head.slot with hkey
  set old := i.records.get key with hold
  have hheads : (stored old room head previous previousHeld owner).heldHeads = head :: keptHeads previous previousHeld := by
    cases previousHeld <;> rfl
  have hcachedKept : ∀ p ∈ keptHeads previous previousHeld, (i.manifests.get (key, p.hash C)).isSome = true := by
    intro p hp
    have hmem := hkeeps.held.subset hp
    cases hr : old with
    | none => rw [hr] at hmem; cases hmem
    | some r => rw [hr] at hmem; exact hi.cached key r (hold.symm.trans hr) p hmem
  have hkeptGet : ∀ p ∈ keptHeads previous previousHeld,
      (i.manifests.insert (key, head.hash C) (manifest, bytes.length)).get (key, p.hash C)
        = i.manifests.get (key, p.hash C) := by
    intro p hp
    refine get_insert_ne (fun he => ?_) _ _
    have hp : previous = some p := by
      unfold keptHeads at hp
      split at hp
      · exact mem_toList.1 hp
      · cases hp
    exact (hkeeps.among p hp).2 (hV (hkeeps.among p hp).1 hhead (Prod.ext_iff.1 he).2)
  have hbytes : recordBytes C (i.manifests.insert (key, head.hash C) (manifest, bytes.length)) key
      (stored old room head previous previousHeld owner)
      = head.size + bytes.length + keptBytes C i.manifests key previous previousHeld := by
    unfold recordBytes keptBytes
    rw [hheads, map_cons, List.sum_cons]
    congr 1
    · unfold generationBytes
      rw [get_insert_self]
    · congr 1
      refine map_congr_left (fun p hp => ?_)
      unfold generationBytes
      rw [hkeptGet p hp]
  have hkept : keptBytes C i.manifests key previous previousHeld
      ≤ i.records.amountAt (recordBytes C i.manifests) key := by
    unfold amountAt
    rw [← hold]
    have hsub := sum_map_le_of_sublist hkeeps.held (generationBytes C i.manifests key)
    cases hr : old with
    | none | some r => rw [hr] at hsub; exact hsub
  refine Index.Touches.publish hi (hi.insert (m := some (manifest, bytes.length)) ⟨hhead, hkeeps.among⟩ rfl
    (fun h hh => ?_) ?_ (fun o ho => ?_)) io
  · rw [hheads] at hh
    rcases mem_cons.1 hh with rfl | hp
    · exact isSome_iff_exists.2 ⟨_, get_insert_self _ _ _⟩
    · exact (congrArg Option.isSome (hkeptGet h hp)).trans (hcachedKept h hp)
  · show recordBytes C (i.manifests.insert (key, head.hash C) _) key _ ≤ _
    rw [hbytes]
    omega
  · show recordBytes C (i.manifests.insert (key, head.hash C) _) key _ ≤ _
    rw [hbytes]
    have hc := hcharge o ho
    split at hc
    · rename_i hsame
      have howned : i.records.amountAt (ownedBytes C o i.manifests) key
          = i.records.amountAt (recordBytes C i.manifests) key := by
        unfold amountAt
        rw [← hold]
        cases hr : old with
        | none => rfl
        | some r =>
          rw [hr] at hsame
          exact if_pos hsame
      omega
    · omega

theorem keptBytes_le_inherited {o : String} (howner : (i.records.get key).bind Record.owner ≠ some o) :
    keptBytes C i.manifests key (kept C (i.records.get key) head).1 (kept C (i.records.get key) head).2
      ≤ inherited C i key head (some o) := by
  unfold kept inherited inheritedHead
  cases hr : i.records.get key with
  | none => exact Nat.zero_le _
  | some r =>
    rw [hr] at howner
    have hne : r.owner ≠ some o := howner
    cases hd : r.deleted with
    | some d => simp [Option.filter, hd, keptBytes, keptHeads]
    | none =>
      simp only [Option.filter, hd, isNone_none, if_true, isSome_some, hne, ne_eq, not_false_eq_true,
        decide_true, Bool.and_true, bind_some]
      split
      · cases hp : r.previous <;> cases hh : r.previousHeld <;> simp [keptBytes, keptHeads]
      · split <;> cases hh : r.held <;> simp [keptBytes, keptHeads]

/-! ## The accounts -/

theorem length_le_manifestLimit {blob bytes : List UInt8} {manifest : FileManifest}
    (h : validateGeneration C head blob bytes = .ok manifest) : bytes.length ≤ manifestLimit C head.size := by
  unfold validateGeneration at h
  split at h
  · cases h
  split at h
  · cases h
  rename_i hm
  unfold validateManifest at hm
  split at hm
  · cases hm
  · rename_i hn
    exact Nat.not_lt.1 (not_or.1 hn).1

theorem inheritedHead_held {head retained : Head} {owner : Option String}
    (h : inheritedHead old head owner = some retained) : ∃ r, old = some r ∧ retained ∈ r.heldHeads := by
  obtain ⟨r, hr, hret⟩ := bind_eq_some_iff.1 h
  obtain ⟨hget, hcond⟩ := filter_eq_some_iff.1 hr
  rw [Bool.and_eq_true] at hcond
  refine ⟨r, hget, mem_heldHeads.2 ⟨isNone_iff_eq_none.1 hcond.2, ?_⟩⟩
  split at hret
  · exact .inr (filter_eq_some_iff.1 hret).symm
  · obtain ⟨h1, h2⟩ := filter_eq_some_iff.1 hret
    cases h1
    exact .inl ⟨h2, rfl⟩

theorem inherited_touches (ht : i.Touches C V key cost charge i') {k : String} (hk : k ≠ key) (head : Head)
    (owner : Option String) : inherited C i' k head owner = inherited C i k head owner := by
  unfold inherited
  rw [ht.records k hk]
  cases hret : inheritedHead (i.records.get k) head owner with
  | none => rfl
  | some retained =>
    obtain ⟨r, hget, hheld⟩ := inheritedHead_held hret
    show generationBytes C i'.manifests k retained = generationBytes C i.manifests k retained
    unfold generationBytes
    rw [ht.manifests k r hk hget retained hheld]

theorem inherited_le_bytes (hi : i.Counted C V) (k : String) (head : Head) (owner : Option String) :
    inherited C i k head owner ≤ i.bytes := by
  unfold inherited
  cases hret : inheritedHead (i.records.get k) head owner with
  | none => exact Nat.zero_le _
  | some retained =>
    obtain ⟨r, hget, hheld⟩ := inheritedHead_held hret
    rw [hi.bytes]
    exact (single_le_sum (fun _ _ => Nat.zero_le _) _ (List.mem_map_of_mem hheld)).trans
      (Table.le_total (recordBytes C i.manifests) hget)

namespace Desk

variable {cfg : Config} {K : Callers} {d : Desk}

/-- **The accounts are in order.** -/
structure Accounted (C : Crates) (cfg : Config) (K : Callers) (V : Set Head) (d : Desk) : Prop where
  counted : d.index.Counted C V
  reserved : d.index.reserved = sum amount d.bookings
  ownerReserved : ∀ owner, (d.index.ownerReserved.get owner).getD 0 = sum (ownerAmount owner) d.bookings
  pending : ∀ b ∈ d.bookings, (d.index.pendingSlots.get b.reservation.key).bind PendingSlot.owner = b.reservation.owner
  distinct : (d.bookings.map (fun b => b.reservation.key)).Nodup
  booked : ∀ b ∈ d.bookings, b.head ∈ V ∧ b.reservation.key = slotKey C b.room b.head.slot ∧
    b.reservation.amount = b.head.size + manifestLimit C b.head.size
  inherits : ∀ b ∈ d.bookings, b.committed = false → b.reservation.ownerAmount
    = b.reservation.amount + inherited C d.index b.reservation.key b.head b.reservation.owner
  room : d.index.bytes + sum due d.bookings ≤ cfg.maxTotalBytes
  ownerRoom : ∀ owner limit, K.limits owner = some limit → limit < u64Max →
    d.index.ownerBytes owner + sum (ownerDue owner) d.bookings ≤ limit

@[simp] theorem sum_cons (f : Booking → Nat) (b : Booking) (bookings : Multiset Booking) :
    sum f (b ::ₘ bookings) = f b + sum f bookings := by
  unfold sum
  rw [Multiset.map_cons, Multiset.sum_cons]

theorem sum_le_sum {f g : Booking → Nat} (h : ∀ b, f b ≤ g b) (bookings : Multiset Booking) :
    sum f bookings ≤ sum g bookings := Multiset.sum_map_le_sum_map _ _ fun b _ => h b

variable {b : Booking}

theorem le_sum (f : Booking → Nat) {bookings : Multiset Booking} (h : b ∈ bookings) : f b ≤ sum f bookings :=
  Multiset.single_le_sum (fun _ _ => Nat.zero_le _) _ (Multiset.mem_map_of_mem f h)

theorem due_le_amount (b : Booking) : due b ≤ amount b := by
  unfold due amount
  split <;> omega

theorem ownerDue_le_ownerAmount (owner : String) (b : Booking) : ownerDue owner b ≤ ownerAmount owner b := by
  unfold ownerDue
  split <;> omega

theorem add_le_of_satAdd_le {a b limit : Nat} (h : satAdd a b ≤ limit) (hlimit : limit < u64Max) : a + b ≤ limit := by
  unfold satAdd at h
  omega

/-- **An operation on a slot no commit is awaited for** keeps the accounts in order, where its cost fits and no owner is
charged. -/
theorem Accounted.touch (h : d.Accounted C cfg K V) {i' : Index} {key : String} {cost : Nat}
    (ht : d.index.Touches C V key cost (fun _ => 0) i') (hidle : d.Idle key)
    (hcost : d.index.bytes + cost + sum due d.bookings ≤ cfg.maxTotalBytes) :
    Accounted C cfg K V { d with index := i' } where
  counted := ht.counted
  reserved := ht.reserved.trans h.reserved
  ownerReserved owner := by
    rw [ht.ownerReserved]
    exact h.ownerReserved owner
  pending b hb := by
    rw [ht.pendingSlots]
    exact h.pending b hb
  distinct := h.distinct
  booked := h.booked
  inherits b hb hc := by
    have hk : b.reservation.key ≠ key := by
      intro hk
      rw [hidle b hb hk] at hc
      cases hc
    rw [inherited_touches ht hk]
    exact h.inherits b hb hc
  room := by
    have := ht.bytes
    show i'.bytes + sum due d.bookings ≤ _
    omega
  ownerRoom owner limit hl hlt := by
    have h1 := ht.ownerBytes owner
    have h2 := h.ownerRoom owner limit hl hlt
    show i'.ownerBytes owner + sum (ownerDue owner) d.bookings ≤ _
    omega

theorem Accounted.free_touch (h : d.Accounted C cfg K V) {i' : Index} {key : String}
    (ht : d.index.Touches C V key 0 (fun _ => 0) i') (hidle : d.Idle key) :
    Accounted C cfg K V { d with index := i' } :=
  h.touch ht hidle (by have := h.room; omega)

theorem Accounted.reserve (hcfg : cfg.Valid) (h : d.Accounted C cfg K V) 
    {owner : Option String} {ownerLimit : Option Nat} (hhead : head.Valid C gib → head ∈ V)
    (hfree : d.Free (slotKey C room head.slot))
    (hlimit : ∀ o limit, owner = some o → K.limits o = some limit → ownerLimit = some limit) {i : Index} {r : Reservation}
    (hres : d.index.reserve C cfg room head owner ownerLimit = (i, .ok (some r))) :
    Accounted C cfg K V ⟨i, ⟨r, room, head, false⟩ ::ₘ d.bookings⟩ := by
  rcases @reserve_cases C d.index cfg room head owner ownerLimit with
    ⟨-, hnot⟩ | ⟨hv, -, -, -, htotal, howner, r', hrr, heq⟩
  · exact absurd (congrArg Prod.snd hres) (hnot r)
  rw [heq] at hres
  cases hres
  have hmax : cfg.maxTotalBytes < u64Max := lt_of_le_of_lt hcfg.total.2 (by decide)
  have hreserved : d.index.bytes + d.index.reserved + r.amount ≤ cfg.maxTotalBytes := by
    have h1 := add_le_of_satAdd_le htotal hmax
    have h2 : d.index.bytes + d.index.reserved ≤ cfg.maxTotalBytes := add_le_of_satAdd_le ((Nat.le_add_right _ _).trans h1) hmax
    rw [satAdd_of_le (h2.trans hmax.le)] at h1
    rw [hrr]
    exact h1
  have hinherits : r.ownerAmount = r.amount + inherited C d.index r.key head r.owner := by
    have hle := inherited_le_bytes h.counted r.key head r.owner
    rw [hrr] at hle hreserved ⊢
    exact satAdd_of_le (by dsimp only at hle hreserved; omega)
  have hdue := sum_le_sum due_le_amount d.bookings
  rw [← h.reserved] at hdue
  have hkey : r.key = slotKey C room head.slot := by rw [hrr]
  refine ⟨⟨h.counted.bytes, h.counted.ownerBytes, h.counted.cached, h.counted.among⟩, ?_, fun o => ?_, fun b hb => ?_, ?_,
    fun b hb => ?_, fun b hb hc => ?_, ?_, fun o limit hl hlt => ?_⟩
  · rw [sum_cons, ← h.reserved, Nat.add_comm]
    rfl
  · have hold := h.ownerReserved o
    rw [sum_cons, ← hold]
    unfold ownerAmount Index.hold
    cases r.owner with
    | none => simp
    | some o' =>
      rw [get_insert]
      by_cases ho : o = o'
      · subst ho
        rw [if_pos rfl, if_pos rfl, getD_some, Nat.add_comm]
      · rw [if_neg ho, if_neg (fun he => ho (Option.some.inj he).symm), Nat.zero_add]
  · show ((d.index.pendingSlots.insert r.key _).get _).bind _ = _
    rcases Multiset.mem_cons.1 hb with rfl | hb
    · rw [get_insert_self]
      rfl
    · rw [get_insert_ne (hkey ▸ hfree b hb)]
      exact h.pending b hb
  · rw [Multiset.map_cons, Multiset.nodup_cons]
    refine ⟨fun hmem => ?_, h.distinct⟩
    obtain ⟨b, hb, hk⟩ := Multiset.mem_map.1 hmem
    exact hfree b hb (hk.trans hkey)
  · rcases Multiset.mem_cons.1 hb with rfl | hb
    · exact ⟨hhead (hv.mono C hcfg.blob.2), hkey, by rw [hrr]⟩
    · exact h.booked b hb
  · rcases Multiset.mem_cons.1 hb with rfl | hb
    · exact hinherits
    · exact h.inherits b hb hc
  · rw [sum_cons]
    show d.index.bytes + (r.amount + _) ≤ _
    omega
  · have h2 := h.ownerRoom o limit hl hlt
    rw [sum_cons]
    show d.index.ownerBytes o + (ownerAmount o _ + _) ≤ _
    unfold ownerAmount
    split
    · rename_i ho
      have hown : owner = some o := by rw [← ho, hrr]
      have h3 := howner o limit hown (hlimit o limit hown hl)
      have h4 := add_le_of_satAdd_le h3 hlt
      have h5 := add_le_of_satAdd_le ((Nat.le_add_right _ _).trans h4) hlt
      rw [satAdd_of_le (h5.trans hlt.le), h.ownerReserved o] at h4
      have h6 := sum_le_sum (ownerDue_le_ownerAmount o) d.bookings
      rw [hrr]
      dsimp only
      omega
    · omega

theorem Accounted.commit_ok {rest : Multiset Booking} (hb : d.bookings = b ::ₘ rest)
    (hopen : b.committed = false) (h : d.Accounted C cfg K V) {i' : Index}
    (ht : d.index.Touches C V b.reservation.key b.reservation.amount (fun o => ownerAmount o b) i') :
    Accounted C cfg K V ⟨i', { b with committed := true } ::ₘ rest⟩ := by
  have hdistinct := h.distinct
  rw [hb, Multiset.map_cons, Multiset.nodup_cons] at hdistinct
  have hrest : ∀ x ∈ rest, x ∈ d.bookings := fun x hx => hb ▸ Multiset.mem_cons_of_mem hx
  have hself : b ∈ d.bookings := hb ▸ Multiset.mem_cons_self b rest
  refine ⟨ht.counted, ?_, fun o => ?_, fun x hx => ?_, ?_, fun x hx => ?_, fun x hx hc => ?_, ?_, fun o limit hl hlt => ?_⟩
  · rw [ht.reserved, h.reserved, hb, sum_cons, sum_cons]
    rfl
  · rw [ht.ownerReserved, h.ownerReserved o, hb, sum_cons, sum_cons]
    rfl
  · rw [ht.pendingSlots]
    rcases Multiset.mem_cons.1 hx with rfl | hx
    · exact h.pending b hself
    · exact h.pending x (hrest x hx)
  · rw [Multiset.map_cons, Multiset.nodup_cons]
    exact hdistinct
  · rcases Multiset.mem_cons.1 hx with rfl | hx
    · exact h.booked b hself
    · exact h.booked x (hrest x hx)
  · rcases Multiset.mem_cons.1 hx with rfl | hx
    · cases hc
    · have hk : x.reservation.key ≠ b.reservation.key := fun hk => hdistinct.1 (Multiset.mem_map.2 ⟨x, hx, hk⟩)
      rw [inherited_touches ht hk]
      exact h.inherits x (hrest x hx) hc
  · have h1 := h.room
    have h2 := ht.bytes
    have hdue : due b = b.reservation.amount := by rw [due, hopen]; rfl
    rw [hb, sum_cons] at h1
    rw [sum_cons]
    show i'.bytes + (0 + _) ≤ _
    omega
  · have h1 := h.ownerRoom o limit hl hlt
    have h2 := ht.ownerBytes o
    have hdue : ownerDue o b = ownerAmount o b := by rw [ownerDue, hopen]; rfl
    rw [hb, sum_cons] at h1
    rw [sum_cons]
    show i'.ownerBytes o + (0 + _) ≤ _
    omega

theorem Accounted.commit_touches (hV : Set.InjOn (Head.hash C) V) (hb : b ∈ d.bookings)
    (hopen : b.committed = false) (h : d.Accounted C cfg K V) {blob bytes : List UInt8} {manifest : FileManifest}
    (hm : validateGeneration C b.head blob bytes = .ok manifest) (io : Io) :
    d.index.Touches C V b.reservation.key b.reservation.amount (fun o => ownerAmount o b)
      (d.index.commitInner C b.room b.head (kept C (d.index.records.get (slotKey C b.room b.head.slot)) b.head).1
        (kept C (d.index.records.get (slotKey C b.room b.head.slot)) b.head).2
        ((d.index.pendingSlots.get (slotKey C b.room b.head.slot)).bind PendingSlot.owner) blob bytes manifest io).1 := by
  obtain ⟨hhead, hkey, hamount⟩ := h.booked b hb
  have hlen := length_le_manifestLimit hm
  have hinherits := h.inherits b hb hopen
  have hpending := h.pending b hb
  rw [hkey] at hpending hinherits ⊢
  rw [hpending]
  have hcharge : ∀ o, b.reservation.owner = some o → b.head.size + bytes.length
      + (if (d.index.records.get (slotKey C b.room b.head.slot)).bind Record.owner = some o then 0
        else keptBytes C d.index.manifests (slotKey C b.room b.head.slot)
          (kept C (d.index.records.get (slotKey C b.room b.head.slot)) b.head).1
          (kept C (d.index.records.get (slotKey C b.room b.head.slot)) b.head).2) ≤ ownerAmount o b := by
    intro o ho
    rw [ownerAmount, if_pos ho, hinherits, ho]
    split
    · omega
    · rename_i hne
      have := @keptBytes_le_inherited C d.index _ b.head o hne
      omega
  have hstore := h.counted.store hV hhead (keeps_kept (fun r hr => h.counted.among _ r hr) b.head) b.reservation.owner
    (fun o => ownerAmount o b) blob bytes manifest io hcharge
  refine { hstore with bytes := hstore.bytes.trans ?_ }
  omega

theorem Accounted.drop {rest : Multiset Booking} (hb : d.bookings = b ::ₘ rest)
    (h : d.Accounted C cfg K V) : Accounted C cfg K V ⟨d.index.release b.reservation, rest⟩ := by
  have hdistinct := h.distinct
  rw [hb, Multiset.map_cons, Multiset.nodup_cons] at hdistinct
  have hrest : ∀ x ∈ rest, x ∈ d.bookings := fun x hx => hb ▸ Multiset.mem_cons_of_mem hx
  refine ⟨⟨h.counted.bytes, h.counted.ownerBytes, h.counted.cached, h.counted.among⟩, ?_, fun o => ?_, fun x hx => ?_,
    hdistinct.2, fun x hx => h.booked x (hrest x hx), fun x hx hc => h.inherits x (hrest x hx) hc, ?_,
    fun o limit hl hlt => ?_⟩
  · show d.index.reserved - b.reservation.amount = _
    rw [h.reserved, hb, sum_cons]
    exact Nat.add_sub_cancel_left _ _
  · have hold := h.ownerReserved o
    rw [hb, sum_cons] at hold
    unfold ownerAmount at hold
    unfold Index.release
    cases ho : b.reservation.owner with
    | none =>
      rw [ho, if_neg (by simp), Nat.zero_add] at hold
      exact hold
    | some o' =>
      rw [ho] at hold
      dsimp only
      by_cases heq : o = o'
      · subst heq
        rw [if_pos rfl] at hold
        cases hg : d.index.ownerReserved.get o with
        | none =>
          rw [hg] at hold
          rw [hg]
          simp only [getD_none] at hold ⊢
          unfold ownerAmount
          omega
        | some v =>
          rw [hg] at hold
          dsimp only
          simp only [getD_some] at hold
          unfold ownerAmount
          split
          · rw [get_erase_self, getD_none]
            omega
          · rw [get_insert_self, getD_some]
            omega
      · rw [if_neg (fun he => heq (Option.some.inj he).symm), Nat.zero_add] at hold
        rw [← show _ = sum (ownerAmount o) rest from hold]
        split
        · rfl
        · split
          · rw [get_erase_ne heq]
          · rw [get_insert_ne heq]
  · have hk : x.reservation.key ≠ b.reservation.key := fun hk => hdistinct.1 (Multiset.mem_map.2 ⟨x, hx, hk⟩)
    show ((d.index.pendingSlots.erase b.reservation.key).get _).bind _ = _
    rw [get_erase_ne hk]
    exact h.pending x (hrest x hx)
  · have h1 := h.room
    rw [hb, sum_cons] at h1
    show d.index.bytes + sum due rest ≤ _
    omega
  · have h1 := h.ownerRoom o limit hl hlt
    rw [hb, sum_cons] at h1
    show d.index.ownerBytes o + sum (ownerDue o) rest ≤ _
    omega

theorem Step.accounted (hcfg : cfg.Valid) (hhash : Set.InjOn (Head.hash C) V) (hseq : ∀ h ∈ V, h.seq ≤ maxSafe)
    (hK : ∀ h ∈ K.heads, h.Valid C gib → h ∈ V) {readable : String → Head → Bool} {io : Io} {effects : List Effect}
    {d' : Desk} (hs : Step C cfg K readable io d effects d') (h : d.Accounted C cfg K V) : d'.Accounted C cfg K V := by
  cases hs with
  | reserve room head owner ownerLimit i reservation _ hhead hfree hlimit hres =>
    exact h.reserve hcfg (hK head hhead) hfree (fun o limit ho => (hlimit o ho).2 limit) hres
  | unreserved room head owner ownerLimit i result hnot hres =>
    rcases @reserve_cases C d.index cfg room head owner ownerLimit with ⟨h1, -⟩ | ⟨-, -, -, -, -, -, r, -, heq⟩
    · rw [hres] at h1
      cases h1
      exact h
    · rw [heq] at hres
      cases hres
      exact absurd rfl (hnot r)
  | commit b rest blob bytes hb hopen =>
    rcases @commit_cases C d.index b.room b.head io blob bytes with ⟨h1, -, e, h3⟩ | ⟨-, manifest, hm, heq⟩
    · have hsame : ({ b with committed := false } : Booking) = b := by rw [← hopen]
      rw [h1, h3]
      show Accounted C cfg K V ⟨d.index, { b with committed := false } ::ₘ rest⟩
      rw [hsame, ← hb]
      exact h
    · have ht := h.commit_touches hhash (hb ▸ Multiset.mem_cons_self b rest) hopen hm io
      rw [heq]
      cases io with
      | unpublished =>
        have hsame : ({ b with committed := false } : Booking) = b := by rw [← hopen]
        show Accounted C cfg K V ⟨{ d.index with writeFailed := true }, { b with committed := false } ::ₘ rest⟩
        rw [hsame, ← hb]
        exact ⟨⟨h.counted.bytes, h.counted.ownerBytes, h.counted.cached, h.counted.among⟩, h.reserved, h.ownerReserved,
          h.pending, h.distinct, h.booked, h.inherits, h.room, h.ownerRoom⟩
      | done => exact h.commit_ok hb hopen ht
      | uncleaned => exact h.commit_ok hb hopen ht
  | drop b rest hb => exact h.drop hb
  | importHead room head blob bytes hhead hidle =>
    rcases @importHead_cases C d.index cfg room head io blob bytes with
      ⟨h1, -⟩ | ⟨-, -, hv, manifest, previous, previousHeld, -, hover, -, htotal, h1, -⟩
    · rw [h1]
      exact h
    · rw [h1]
      have hmax : cfg.maxTotalBytes < u64Max := lt_of_le_of_lt hcfg.total.2 (by decide)
      have hsum : d.index.bytes + d.index.reserved + head.size + bytes.length ≤ cfg.maxTotalBytes := by
        have e1 := add_le_of_satAdd_le htotal hmax
        have e2 := add_le_of_satAdd_le ((Nat.le_add_right _ _).trans e1) hmax
        have e3 := add_le_of_satAdd_le ((Nat.le_add_right _ _).trans e2) hmax
        rw [satAdd_of_le (e3.trans hmax.le)] at e1 e2
        rw [satAdd_of_le (e2.trans hmax.le)] at e1
        exact e1
      have hdue := sum_le_sum due_le_amount d.bookings
      rw [← h.reserved] at hdue
      refine h.touch (h.counted.store hhash (hK head hhead (hv.mono C hcfg.blob.2))
        (keeps_import (fun r hr => h.counted.among _ r hr) hover) none (fun _ => 0) blob bytes manifest io nofun) hidle ?_
      omega
  | delete room request hidle => exact h.free_touch (h.counted.delete request io) hidle
  | learn room head home deleted hhead hidle => exact h.free_touch (h.counted.learn hseq (hK head hhead) home deleted io) hidle
  | meshDelete room request hidle => exact h.free_touch (h.counted.meshDelete hseq request io) hidle
  | setHome room head home hidle => exact h.free_touch (h.counted.trimmed (setHome_trimmed home)) hidle
  | dropHolding room head hidle => exact h.free_touch (h.counted.trimmed dropHolding_trimmed) hidle
  | verifyHolding room head hidle => exact h.free_touch (h.counted.trimmed (verifyHolding_trimmed (readable room))) hidle

theorem Runs.accounted (hcfg : cfg.Valid) (hhash : Set.InjOn (Head.hash C) V) (hseq : ∀ h ∈ V, h.seq ≤ maxSafe)
    (hK : ∀ h ∈ K.heads, h.Valid C gib → h ∈ V) {d' : Desk} (hr : Runs C cfg K d d') (h : d.Accounted C cfg K V) :
    d'.Accounted C cfg K V := by
  induction hr with
  | refl => exact h
  | tail _ hs ih =>
    obtain ⟨readable, io, effects, hs⟩ := hs
    exact hs.accounted hcfg hhash hseq hK ih

end Desk

def Callers.valid (C : Crates) (K : Callers) : Set Head := {h | h ∈ K.heads ∧ h.Valid C gib}

/-- **An index within its limits**, nothing reserved. -/
structure Index.Within (C : Crates) (cfg : Config) (K : Callers) (i : Index) : Prop where
  counted : i.Counted C (K.valid C)
  reserved : i.reserved = 0
  ownerReserved : i.ownerReserved = ∅
  bytes : i.bytes ≤ cfg.maxTotalBytes
  ownerBytes : ∀ owner limit, K.limits owner = some limit → i.ownerBytes owner ≤ limit

theorem Index.Within.accounted {cfg : Config} {K : Callers} (h : i.Within C cfg K) : Desk.Accounted C cfg K (K.valid C) ⟨i, 0⟩ :=
  ⟨h.counted, h.reserved, fun owner => by rw [h.ownerReserved]; rfl, fun b hb => absurd hb (Multiset.notMem_zero b),
    Multiset.nodup_zero, fun b hb => absurd hb (Multiset.notMem_zero b), fun b hb => absurd hb (Multiset.notMem_zero b),
    h.bytes, fun owner limit hl _ => h.ownerBytes owner limit hl⟩

/-- **The accounts of the repository, over every interleaving of its operations**: the bytes are those of the held
generations, the reserved bytes those of the outstanding reservations, and the limits of the node and of each owner
are kept. -/
theorem bytes_accounted (C : Crates) (cfg : Config) (K : Callers) (D : Set (List UInt8)) (hcfg : cfg.Valid)
    (hD : Set.InjOn C.digest D) (hheads : ∀ h ∈ K.heads, h.document ∈ D) (i : Index) (hi : i.Within C cfg K) (d : Desk)
    (hr : Desk.Runs C cfg K ⟨i, 0⟩ d) :
    (d.index.bytes = d.index.records.total (fun k r =>
        (r.heldHeads.map (fun h => h.size + ((d.index.manifests.get (k, h.hash C)).map Prod.snd).getD 0)).sum) ∧
      ∀ k r, d.index.records.get k = some r → ∀ h ∈ r.heldHeads, (d.index.manifests.get (k, h.hash C)).isSome = true) ∧
    (d.index.reserved = Desk.sum Desk.amount d.bookings ∧ ∀ b ∈ d.bookings, b.reservation.amount ≤ d.index.reserved ∧
      ∀ o, b.reservation.owner = some o → b.reservation.ownerAmount ≤ (d.index.ownerReserved.get o).getD 0) ∧
    d.index.bytes ≤ cfg.maxTotalBytes ∧
    ∀ owner limit, K.limits owner = some limit →
      d.index.ownerBytes owner = d.index.records.total (ownedBytes C owner d.index.manifests) ∧
      d.index.ownerBytes owner ≤ limit := by
  have h := hr.accounted (V := K.valid C) hcfg (fun a ha b hb => Head.hash_inj hD ha.2 hb.2 (hheads a ha.1) (hheads b hb.1))
    (fun h hh => hh.2.seq_le) (fun h hh hv => ⟨hh, hv⟩) hi.accounted
  have hmax : d.index.bytes ≤ cfg.maxTotalBytes := (Nat.le_add_right _ _).trans h.room
  refine ⟨⟨?_, h.counted.cached⟩, ⟨h.reserved, fun b hb => ⟨?_, fun o ho => ?_⟩⟩, hmax, fun owner limit hl =>
    ⟨h.counted.ownerBytes owner, ?_⟩⟩
  · rw [h.counted.bytes]
    refine total_congr _ (fun e he => ?_)
    unfold recordBytes
    congr 1
    refine map_congr_left (fun x hx => ?_)
    obtain ⟨m, hm⟩ := isSome_iff_exists.1 (h.counted.cached e.1 e.2 (get_eq_some_iff.2 he) x hx)
    unfold generationBytes
    rw [hm]
    rfl
  · rw [h.reserved]
    exact Desk.le_sum Desk.amount hb
  · rw [h.ownerReserved o]
    refine le_trans (le_of_eq ?_) (Desk.le_sum (Desk.ownerAmount o) hb)
    rw [Desk.ownerAmount, if_pos ho]
  · by_cases hlt : limit < u64Max
    · exact (Nat.le_add_right _ _).trans (h.ownerRoom owner limit hl hlt)
    · have howned : d.index.ownerBytes owner ≤ d.index.bytes := by
        rw [h.counted.ownerBytes, h.counted.bytes]
        refine total_mono _ (fun e _ => ?_)
        unfold ownedBytes
        split
        · exact le_refl _
        · exact Nat.zero_le _
      have := hcfg.total.2
      unfold u64Max at hlt
      omega

def noteCallers : Callers where
  heads := {noteHead}
  rooms := {"notes"}
  owners := {"alice"}
  limits := fun o => if o = "alice" then some 2000 else none

theorem Index.default_get (k : String) : Index.default.records.get k = none := get_empty k

theorem Index.Within.default {cfg : Config} {K : Callers} : Index.default.Within C cfg K := by
  refine ⟨⟨rfl, fun _ => rfl, fun k r hr => ?_, fun k r hr => ?_⟩, rfl, rfl, Nat.zero_le _, fun _ _ _ => Nat.zero_le _⟩
  · cases hr
  · cases hr

def noteReservation : Reservation := ⟨noteKey, 1156, some "alice", 1156⟩

/-- The index with the reservation, after its commit, and after it is dropped. -/
def reservedNote : Index := Index.default.hold "notes" noteReservation

def committedNote : Index := (reservedNote.commit noteCrates "notes" noteHead noteBlob noteManifest .done).1

def droppedNote : Index := committedNote.release noteReservation

theorem reserve_note : Index.default.reserve noteCrates .default "notes" noteHead (some "alice") (some 2000) =
    (reservedNote, .ok (some noteReservation)) := by
  have hres : (Index.default.reserve noteCrates .default "notes" noteHead (some "alice") (some 2000)).2
      = .ok (some noteReservation) := by decide
  rcases @reserve_cases noteCrates .default .default "notes" noteHead (some "alice") (some 2000) with
    ⟨-, hnot⟩ | ⟨-, -, -, -, -, -, r, -, heq⟩
  · exact absurd hres (hnot _)
  · rw [heq] at hres ⊢
    cases hres
    rfl

/-- A generation is reserved, committed and its reservation dropped. -/
theorem note_runs : Desk.Runs noteCrates .default noteCallers ⟨.default, 0⟩ ⟨droppedNote, 0⟩ := by
  have howner : ∀ o, some "alice" = some o → o ∈ noteCallers.owners ∧
      ∀ limit, noteCallers.limits o = some limit → some 2000 = some limit := by
    intro o ho
    cases ho
    exact ⟨Set.mem_singleton _, fun limit hl => hl⟩
  have hreserve := @Desk.Step.reserve noteCrates .default noteCallers (fun _ _ => true) .done ⟨.default, 0⟩ "notes" noteHead
    (some "alice") (some 2000) _ _ (Set.mem_singleton _) (Set.mem_singleton _) (fun b hb => absurd hb (Multiset.notMem_zero b))
    howner reserve_note
  have hcommit := @Desk.Step.commit noteCrates .default noteCallers (fun _ _ => true) .done
    ⟨reservedNote, ⟨noteReservation, "notes", noteHead, false⟩ ::ₘ 0⟩ ⟨noteReservation, "notes", noteHead, false⟩ 0 noteBlob
    noteManifest rfl rfl
  have hdrop := @Desk.Step.drop noteCrates .default noteCallers (fun _ _ => true) .done
    ⟨committedNote, ⟨noteReservation, "notes", noteHead,
      (reservedNote.commit noteCrates "notes" noteHead noteBlob noteManifest .done).2.2.isOk⟩ ::ₘ 0⟩ _ 0 rfl
  exact ((Relation.ReflTransGen.single ⟨_, _, _, hreserve⟩).tail ⟨_, _, _, hcommit⟩).tail ⟨_, _, _, hdrop⟩

theorem bytes_accounted_note : (reservedNote.commit noteCrates "notes" noteHead noteBlob noteManifest .done).2.2.isOk = true ∧
    (droppedNote.records.get noteKey).map Record.heldHeads = some [noteHead] ∧
    droppedNote.bytes = droppedNote.records.total (fun k r => (r.heldHeads.map (fun h =>
      h.size + ((droppedNote.manifests.get (k, h.hash noteCrates)).map Prod.snd).getD 0)).sum) ∧
    droppedNote.reserved = 0 ∧
    ∀ limit, noteCallers.limits "alice" = some limit → droppedNote.ownerBytes "alice" ≤ limit := by
  obtain ⟨⟨hbytes, -⟩, ⟨hreserved, -⟩, -, howner⟩ := bytes_accounted noteCrates .default noteCallers {noteHead.document}
    Config.Valid.default (Set.injOn_singleton _ _) (fun h hh => congrArg Head.document hh) .default .default _ note_runs
  exact ⟨by decide +kernel, by decide +kernel, hbytes, hreserved, fun limit hl => (howner "alice" limit hl).2⟩

end Mistl.Escrow
