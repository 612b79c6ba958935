import Mistl.EscrowContent
/-!
# EscrowArchive — the generations of a replicated room

`escrow/replication/archive.rs`: generations under the hash of their head, pinned by leases and collected when nothing
refers to them.  `disk` says whether the writes of a call succeed.
-/
open List Mistl.Table

namespace Mistl.Escrow

structure ArchiveRecord where
  head : Head
  rooms : List String
  deriving DecidableEq

structure ArchiveEntry where
  record : ArchiveRecord
  size : Nat
  deriving DecidableEq

structure Archive where
  entries : Table String ArchiveEntry
  bytes : Nat
  writeFailed : Bool
  pins : Table String Nat
  deriving DecidableEq

structure Lease where
  hashes : List String
  nodup : hashes.Nodup
  deriving DecidableEq

/-- `MAX_ENTRIES` -/
def archiveEntries : Nat := 196608

def maxRecord : Nat := 16 * 1024

def ArchiveRecord.toJson (r : ArchiveRecord) : Json := .obj [("head", r.head.toJson), ("rooms", .arr (r.rooms.map Json.str))]

variable (C : Crates)

def Archive.has (a : Archive) (head : Head) : Bool :=
  !a.writeFailed && (a.entries.get (head.hash C)).any (fun e => decide (e.record.head = head))

def insertRoom (room : String) (rooms : List String) : List String := (rooms ++ [room]).insertionSort (· ≤ ·)

def Archive.stage (a : Archive) (cfg : Config) (room : String) (head : Head) (blob bytes : List UInt8) (disk : Bool) :
    Archive × Except Error Unit :=
  if validRoom room = false then (a, .error (.new .badRequest))
  else match head.validate C cfg.maxBlobBytes with
    | .error e => (a, .error e)
    | .ok () => match head.verify C with
      | .error e => (a, .error e)
      | .ok () => match validateGeneration C head blob bytes with
        | .error e => (a, .error e)
        | .ok _ =>
          let hash := head.hash C
          if a.writeFailed then (a, .error (.new .fetchFailed))
          else
            let existing := a.entries.get hash
            if existing.any (fun e => e.record.rooms.contains room) then (a, .ok ())
            else if existing.isNone ∧ archiveEntries ≤ a.entries.size then (a, .error (.new .quota))
            else
              let rooms := (existing.map (fun e => e.record.rooms)).getD []
              if 64 ≤ rooms.length then (a, .error (.new .quota))
              else
                let record : ArchiveRecord := ⟨head, insertRoom room rooms⟩
                let metadata := record.toJson.toVec.length
                if maxRecord < metadata then (a, .error (.new .tooLarge))
                else
                  let size := blob.length + bytes.length + metadata
                  let total := a.bytes - (existing.map ArchiveEntry.size).getD 0 + size
                  if cfg.maxTotalBytes < total then (a, .error (.new .quota))
                  else if disk = false then ({ a with writeFailed := true }, .error (.new .fetchFailed))
                  else ({ a with bytes := total, entries := a.entries.insert hash ⟨record, size⟩ }, .ok ())

def headHashes (heads : List Head) : List String := (heads.map (Head.hash C)).dedup

def addPin (pins : Table String Nat) (hash : String) : Table String Nat := pins.insert hash ((pins.get hash).getD 0 + 1)

def dropPin (pins : Table String Nat) (hash : String) : Table String Nat :=
  match pins.get hash with
  | none => pins
  | some count => if count - 1 = 0 then pins.erase hash else pins.insert hash (count - 1)

def Archive.pinHeads (a : Archive) (heads : List Head) : Option (Archive × Lease) :=
  if a.writeFailed then none
  else if heads.all (fun h => (a.entries.get (h.hash C)).any (fun e => decide (e.record.head = h))) = false then none
  else some ({ a with pins := (headHashes C heads).foldl addPin a.pins }, ⟨headHashes C heads, nodup_dedup _⟩)

/-- `Lease::drop` -/
def Archive.release (a : Archive) (lease : Lease) : Archive := { a with pins := lease.hashes.foldl dropPin a.pins }

/-- `Archive::collect`, its files removed without a failure. -/
def Archive.collect (a : Archive) (retained : String → Bool) : Option Archive :=
  if a.writeFailed then none
  else
    let obsolete := fun hash _ => !retained hash && !a.pins.contains hash
    some { a with entries := a.entries.filter (fun hash e => !obsolete hash e),
                  bytes := a.bytes - (a.entries.filter obsolete).total (fun _ e => e.size) }

/-! ## Pins -/

def pinCount (live : Multiset Lease) (hash : String) : Nat := live.countP fun l => hash ∈ l.hashes

/-- **The pins count the live leases.** -/
structure Pinned (live : Multiset Lease) (pins : Table String Nat) : Prop where
  count : ∀ hash, (pins.get hash).getD 0 = pinCount live hash
  positive : ∀ hash, pins.get hash ≠ some 0

theorem addPin_get (pins : Table String Nat) (hash x : String) :
    ((addPin pins hash).get x).getD 0 = (pins.get x).getD 0 + (if x = hash then 1 else 0) := by
  unfold addPin
  rw [get_insert]
  split
  · rename_i h
    rw [h]
    rfl
  · rfl

variable {pins : Table String Nat}

theorem addPin_positive (h : ∀ x, pins.get x ≠ some 0) (hash x : String) : (addPin pins hash).get x ≠ some 0 := by
  unfold addPin
  rw [get_insert]
  split
  · simp
  · exact h x

theorem dropPin_get (pins : Table String Nat) (hash x : String) :
    ((dropPin pins hash).get x).getD 0 = (pins.get x).getD 0 - (if x = hash then 1 else 0) := by
  unfold dropPin
  cases hg : pins.get hash with
  | none =>
    dsimp only
    split
    · rename_i h
      rw [h, hg]
      rfl
    · rfl
  | some count =>
    dsimp only
    split
    · rename_i hc
      rw [get_erase]
      split
      · rename_i h
        rw [h, hg]
        exact hc.symm
      · rfl
    · rw [get_insert]
      split
      · rename_i h
        rw [h, hg]
        rfl
      · rfl

theorem dropPin_positive (h : ∀ x, pins.get x ≠ some 0) (hash x : String) : (dropPin pins hash).get x ≠ some 0 := by
  unfold dropPin
  cases pins.get hash with
  | none => exact h x
  | some count =>
    dsimp only
    split
    · rw [get_erase]
      split
      · simp
      · exact h x
    · rename_i hc
      rw [get_insert]
      split
      · intro h0
        exact hc (Option.some.inj h0)
      · exact h x

theorem addPins_get : ∀ (hashes : List String) (pins : Table String Nat), hashes.Nodup → ∀ x,
    ((hashes.foldl addPin pins).get x).getD 0 = (pins.get x).getD 0 + (if x ∈ hashes then 1 else 0)
  | [], _, _, _ => rfl
  | hash :: hashes, pins, hnd, x => by
    rw [nodup_cons] at hnd
    rw [foldl_cons, addPins_get hashes _ hnd.2, addPin_get]
    by_cases hx : x = hash
    · subst hx
      simp [hnd.1]
    · simp [hx]

theorem dropPins_get : ∀ (hashes : List String) (pins : Table String Nat), hashes.Nodup → ∀ x,
    ((hashes.foldl dropPin pins).get x).getD 0 = (pins.get x).getD 0 - (if x ∈ hashes then 1 else 0)
  | [], _, _, _ => rfl
  | hash :: hashes, pins, hnd, x => by
    rw [nodup_cons] at hnd
    rw [foldl_cons, dropPins_get hashes _ hnd.2, dropPin_get]
    by_cases hx : x = hash
    · subst hx
      simp [hnd.1]
    · simp [hx]

theorem foldl_positive {f : Table String Nat → String → Table String Nat}
    (hf : ∀ pins, (∀ x, pins.get x ≠ some 0) → ∀ hash x, (f pins hash).get x ≠ some 0) :
    ∀ (hashes : List String) (pins : Table String Nat), (∀ x, pins.get x ≠ some 0) → ∀ x, (hashes.foldl f pins).get x ≠ some 0
  | [], _, h, x => h x
  | hash :: hashes, pins, h, x => foldl_positive hf hashes (f pins hash) (hf pins h hash) x

variable {live : Multiset Lease} {a : Archive} {C}

theorem Pinned.pin (h : Pinned live pins) (l : Lease) : Pinned (l ::ₘ live) (l.hashes.foldl addPin pins) where
  count := by
    intro hash
    rw [addPins_get l.hashes pins l.nodup, h.count]
    unfold pinCount
    rw [Multiset.countP_cons]
  positive := foldl_positive (fun _ h => addPin_positive h) l.hashes pins h.positive

theorem Pinned.release {l : Lease} (h : Pinned (l ::ₘ live) a.pins) : Pinned live (a.release l).pins where
  count := by
    intro hash
    have hc := h.count hash
    unfold pinCount at hc
    rw [Multiset.countP_cons] at hc
    unfold Archive.release
    rw [dropPins_get l.hashes a.pins l.nodup, hc]
    exact Nat.add_sub_cancel _ _
  positive := foldl_positive (fun _ h => dropPin_positive h) l.hashes a.pins h.positive

theorem Pinned.contains (h : Pinned live a.pins) {l : Lease} (hl : l ∈ live) {hash : String} (hh : hash ∈ l.hashes) :
    a.pins.contains hash = true := by
  have hpos : 0 < pinCount live hash := Multiset.countP_pos.2 ⟨l, hl, hh⟩
  rw [← h.count hash] at hpos
  cases hg : a.pins.get hash with
  | none =>
    rw [hg] at hpos
    exact absurd hpos (lt_irrefl 0)
  | some n => exact Table.contains_iff.2 ⟨n, hg⟩

/-! ## What an archive holds -/

variable (C) in
def Archive.Holds (a : Archive) (head : Head) : Prop := ∃ e, a.entries.get (head.hash C) = some e ∧ e.record.head = head

def Archive.Roomed (a : Archive) (room : String) : Prop := ∀ hash e, a.entries.get hash = some e → room ∈ e.record.rooms

theorem Archive.has_iff {head : Head} : a.has C head = true ↔ a.writeFailed = false ∧ a.Holds C head := by
  unfold Archive.has Archive.Holds
  rw [Bool.and_eq_true, Bool.not_eq_true', Option.any_eq_true]
  exact and_congr_right (fun _ => exists_congr (fun e => and_congr_right (fun _ => decide_eq_true_iff)))

theorem mem_insertRoom (room : String) (rooms : List String) : room ∈ insertRoom room rooms := by
  unfold insertRoom
  rw [mem_insertionSort]
  exact mem_append_right _ mem_cons_self

/-- **What staging can do**: nothing; fail to write; or write a generation that is new to the room. -/
theorem Archive.stage_cases (C : Crates) (a : Archive) (cfg : Config) (room : String) (head : Head)
    (blob bytes : List UInt8) (disk : Bool) :
    (a.stage C cfg room head blob bytes disk).1 = a ∨
    (disk = false ∧ (a.stage C cfg room head blob bytes disk).1 = { a with writeFailed := true }) ∨
    ∃ rooms size total, (∀ e, a.entries.get (head.hash C) = some e → room ∉ e.record.rooms) ∧
      (a.stage C cfg room head blob bytes disk).1
        = { a with bytes := total, entries := a.entries.insert (head.hash C) ⟨⟨head, insertRoom room rooms⟩, size⟩ } := by
  unfold Archive.stage
  split
  · exact .inl rfl
  split
  · exact .inl rfl
  split
  · exact .inl rfl
  split
  · exact .inl rfl
  dsimp only
  split
  · exact .inl rfl
  split
  · exact .inl rfl
  rename_i hroom
  split
  · exact .inl rfl
  split
  · exact .inl rfl
  split
  · exact .inl rfl
  split
  · exact .inl rfl
  split
  · rename_i hd
    exact .inr (.inl ⟨hd, rfl⟩)
  · refine .inr (.inr ⟨_, _, _, fun e he hm => hroom ?_, rfl⟩)
    rw [he]
    exact contains_iff_mem.2 hm

section
variable {cfg : Config} {room : String} {head h : Head} {blob bytes : List UInt8} {disk : Bool}

theorem Archive.stage_pins : (a.stage C cfg room head blob bytes disk).1.pins = a.pins := by
  rcases a.stage_cases C cfg room head blob bytes disk with he | ⟨-, he⟩ | ⟨_, _, _, -, he⟩ <;> rw [he]

theorem Archive.stage_writeFailed (hd : disk = true) : (a.stage C cfg room head blob bytes disk).1.writeFailed = a.writeFailed := by
  rcases a.stage_cases C cfg room head blob bytes disk with he | ⟨hf, -⟩ | ⟨_, _, _, -, he⟩
  · rw [he]
  · rw [hd] at hf
    cases hf
  · rw [he]

theorem Archive.Holds.stage (hr : a.Roomed room) (hh : a.Holds C h) : (a.stage C cfg room head blob bytes disk).1.Holds C h := by
  obtain ⟨e, hg, he⟩ := hh
  rcases a.stage_cases C cfg room head blob bytes disk with hs | ⟨-, hs⟩ | ⟨rooms, size, total, hnew, hs⟩
  · rw [hs]
    exact ⟨e, hg, he⟩
  · rw [hs]
    exact ⟨e, hg, he⟩
  · rw [hs]
    refine ⟨e, ?_, he⟩
    have hne : h.hash C ≠ head.hash C := fun heq => hnew e (heq ▸ hg) (hr _ e hg)
    exact (get_insert_ne hne _ _).trans hg

theorem Archive.Roomed.stage (hr : a.Roomed room) : (a.stage C cfg room head blob bytes disk).1.Roomed room := by
  rcases a.stage_cases C cfg room head blob bytes disk with hs | ⟨-, hs⟩ | ⟨rooms, size, total, -, hs⟩
  · rw [hs]
    exact hr
  · rw [hs]
    exact hr
  · rw [hs]
    intro hash e hg
    rcases of_get_insert hg with ⟨-, rfl⟩ | ⟨-, hg⟩
    · exact mem_insertRoom room rooms
    · exact hr hash e hg

end

variable {a' : Archive}

theorem Archive.pinHeads_some {heads : List Head} {l : Lease} (h : a.pinHeads C heads = some (a', l)) :
    (∀ x ∈ heads, a.Holds C x ∧ x.hash C ∈ l.hashes) ∧ a' = { a with pins := l.hashes.foldl addPin a.pins } := by
  unfold Archive.pinHeads at h
  split at h
  · cases h
  · split at h
    · cases h
    · rename_i hall
      cases h
      rw [Bool.not_eq_false, List.all_eq_true] at hall
      refine ⟨fun x hx => ⟨?_, ?_⟩, rfl⟩
      · obtain ⟨e, hg, he⟩ := (Option.any_eq_true _ _).1 (hall x hx)
        exact ⟨e, hg, decide_eq_true_iff.1 he⟩
      · exact mem_dedup.2 (mem_map.2 ⟨x, hx, rfl⟩)

theorem Archive.Holds.collect {retained : String → Bool} {h : Head} (hh : a.Holds C h)
    (hc : a.collect retained = some a') (hkeep : retained (h.hash C) = true ∨ a.pins.contains (h.hash C) = true) :
    a'.Holds C h := by
  obtain ⟨e, hg, he⟩ := hh
  unfold Archive.collect at hc
  split at hc
  · cases hc
  · cases hc
    refine ⟨e, ?_, he⟩
    rw [get_filter, hg]
    rcases hkeep with hk | hk <;> simp [hk]

theorem Archive.collect_some {retained : String → Bool} (hc : a.collect retained = some a') :
    a'.pins = a.pins ∧ a'.writeFailed = a.writeFailed ∧ ∀ room, a.Roomed room → a'.Roomed room := by
  unfold Archive.collect at hc
  split at hc
  · cases hc
  · cases hc
    refine ⟨rfl, rfl, fun room hr hash e hg => ?_⟩
    rw [get_filter, Option.filter_eq_some_iff] at hg
    exact hr hash e hg.1

end Mistl.Escrow
