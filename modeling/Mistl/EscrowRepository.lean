import Mistl.EscrowContent
/-!
# EscrowRepository — the durable slots of an escrow node

`escrow/repository.rs` and `escrow/repository_mesh.rs`.  An operation returns the index it leaves, the durable steps it takes
(`Effect`) and its result; `Io` says how far its writes come.  The index of blocks is left out.
-/
namespace Mistl.Escrow

structure Record where
  room : String
  owner : Option String
  current : Head
  previous : Option Head
  previousHeld : Bool
  home : Option String
  deleted : Option Delete
  held : Bool

def Record.heldHeads (r : Record) : List Head := (if r.held && r.deleted.isNone then [r.current] else []) ++
    (if r.previousHeld && r.deleted.isNone then r.previous.toList else [])

structure PendingSlot where
  room : String
  owner : Option String

structure Index where
  records : Table String Record
  bytes : Nat
  reserved : Nat
  /-- zero for an owner that is not in the map -/
  ownerBytes : String → Nat
  ownerReserved : Table String Nat
  pendingSlots : Table String PendingSlot
  manifests : Table (String × String) (FileManifest × Nat)
  writeFailed : Bool

def Index.default : Index := ⟨∅, 0, 0, fun _ => 0, ∅, ∅, ∅, false⟩

structure Reservation where
  key : String
  amount : Nat
  owner : Option String
  ownerAmount : Nat
  deriving DecidableEq

inductive Effect where
  | writeBlob (dir : String) (bytes : List UInt8)
  | writeManifest (dir : String) (bytes : List UInt8)
  | writeRecord (key : String) (record : Record)
  | unlinkRecord (key : String)
  | removeDir (dir : String)

/-- How far the writes of an operation come: all of them succeed, the record is not published, or the cleanup fails. -/
inductive Io where
  | done | unpublished | uncleaned
  deriving DecidableEq

inductive ImportOutcome where
  | imported
  | unchanged
  | skipped (reason : String)

/-! ## Decisions of the mesh (`mesh/decision.rs`) -/

inductive Acceptance where
  | new | same | stale | conflict | writerMismatch
  deriving DecidableEq

def acceptance (current : Option Head) (incoming : Head) : Acceptance :=
  match current with
  | none => .new
  | some current =>
    if current.writer ≠ incoming.writer then .writerMismatch
    else if current = incoming then .same
    else if incoming.seq < current.seq then .stale
    else if incoming.seq = current.seq then .conflict
    else .new

variable (C : Crates)

def successor (head deleted : Head) : Except Error Unit :=
  if head.writer ≠ deleted.writer then .error (.new .writerMismatch)
  else if checkedAdd deleted.seq 1 ≠ some head.seq ∨ head.parent ≠ some (deleted.hash C) then
    .error ⟨.deleted, some deleted⟩
  else .ok ()

def validateDelete (delete : Delete) (head : Head) : Except Error Unit :=
  match delete.validate with
  | .error e => .error e
  | .ok () => match head.validate C gib with
    | .error e => .error e
    | .ok () => match head.verify C with
      | .error e => .error e
      | .ok () =>
        if delete.slot ≠ head.slot ∨ delete.seq ≠ head.seq ∨ delete.head ≠ head.hash C then .error (.conflict head)
        else delete.verify C head.writer

/-! ## The index -/

/-- `key` -/
def slotKey (room slot : String) : String := C.digest (Json.utf8 (room.toList ++ '\n' :: slot.toList))

/-- `Repository::generation`: the directory of a generation. -/
def generation (key : String) (head : Head) : String := C.digest (Json.utf8 (key.toList ++ '\n' :: (head.hash C).toList))

def generationBytes (manifests : Table (String × String) (FileManifest × Nat)) (key : String) (h : Head) : Nat :=
  match manifests.get (key, h.hash C) with
  | some (_, len) => h.size + len
  | none => 0

def recordBytes (manifests : Table (String × String) (FileManifest × Nat)) (key : String) (r : Record) : Nat :=
  (r.heldHeads.map (generationBytes C manifests key)).sum

def heldManifest (records : Table String Record) (entry : String × String) : Bool :=
  (records.get entry.1).any (fun r => r.heldHeads.any (fun h => h.hash C == entry.2))

/-- `Repository::rebuild_index` -/
def Index.rebuild (i : Index) : Index := { i with
    bytes := i.records.total (recordBytes C i.manifests)
    ownerBytes := fun owner => i.records.total (fun k r => if r.owner = some owner then recordBytes C i.manifests k r else 0)
    manifests := i.manifests.filter (fun entry _ => heldManifest C i.records entry) }

def Index.slots (i : Index) (room : String) : Nat :=
  (i.records.filter (fun _ r => r.room == room)).size + (i.pendingSlots.filter (fun _ p => p.room == room)).size

def Index.full (i : Index) (cfg : Config) (room : String) : Bool :=
  decide (65536 ≤ i.records.size + i.pendingSlots.size) || decide (cfg.maxSlotsPerRoom ≤ i.slots room)

def Index.head (i : Index) (room slot : String) : Option Head :=
  ((i.records.get (slotKey C room slot)).filter (fun r => r.deleted.isNone)).map Record.current

/-- The index after an operation that would leave `next`. -/
def Index.publish (i next : Index) : Io → Index
  | .done => next
  | .unpublished => { i with writeFailed := true }
  | .uncleaned => { next with writeFailed := true }

/-! ## Reservations -/

/-- The generation a new owner takes over with a commit of `head`. -/
def inheritedHead (record : Option Record) (head : Head) (owner : Option String) : Option Head :=
  (record.filter (fun r => owner.isSome && decide (r.owner ≠ owner) && r.deleted.isNone)).bind (fun r =>
    if r.current = head then r.previous.filter (fun _ => r.previousHeld) else (some r.current).filter (fun _ => r.held))

def inherited (i : Index) (key : String) (head : Head) (owner : Option String) : Nat :=
  (inheritedHead (i.records.get key) head owner).elim 0 (generationBytes C i.manifests key)

def isRetry (record : Option Record) (head : Head) : Except Error Bool :=
  match record with
  | some r =>
    if r.deleted.isSome then
      match successor C head r.current with
      | .error e => .error e
      | .ok () => .ok false
    else checkCas C head (some r.current)
  | none => checkCas C head none

/-- Whether `amount` more passes the limit of an owner. -/
def Index.overLimit (i : Index) (owner : Option String) (ownerLimit : Option Nat) (amount : Nat) : Bool :=
  match owner, ownerLimit with
  | some owner, some limit => decide (limit < satAdd (satAdd (i.ownerBytes owner) ((i.ownerReserved.get owner).getD 0)) amount)
  | _, _ => false

def Index.hold (i : Index) (room : String) (r : Reservation) : Index := { i with
    reserved := i.reserved + r.amount
    ownerReserved := match r.owner with
      | none => i.ownerReserved
      | some owner => i.ownerReserved.insert owner ((i.ownerReserved.get owner).getD 0 + r.ownerAmount)
    pendingSlots := i.pendingSlots.insert r.key ⟨room, r.owner⟩ }

def Index.reserve (i : Index) (cfg : Config) (room : String) (head : Head) (owner : Option String)
    (ownerLimit : Option Nat) : Index × Except Error (Option Reservation) :=
  match head.validate C cfg.maxBlobBytes with
  | .error e => (i, .error e)
  | .ok () => match head.verify C with
    | .error e => (i, .error e)
    | .ok () =>
      if i.writeFailed then (i, .error (.new .quota))
      else
        let k := slotKey C room head.slot
        let record := i.records.get k
        if record.any (fun r => r.deleted.isNone && decide (r.previous = some head)) then (i, .ok none)
        else match isRetry C record head with
          | .error e => (i, .error e)
          | .ok retry =>
            if retry && record.any Record.held then (i, .ok none)
            else if record.isNone && i.full cfg room then (i, .error (.new .quota))
            else
              let amount := head.size + manifestLimit C head.size
              let ownerAmount := satAdd amount (inherited C i k head owner)
              if cfg.maxTotalBytes < satAdd (satAdd i.bytes i.reserved) amount then (i, .error (.new .quota))
              else if i.overLimit owner ownerLimit ownerAmount then (i, .error (.new .quota))
              else
                let reservation : Reservation := ⟨k, amount, owner, ownerAmount⟩
                (i.hold room reservation, .ok (some reservation))

/-- `Reservation::drop` -/
def Index.release (i : Index) (r : Reservation) : Index := { i with
    reserved := i.reserved - r.amount
    ownerReserved := match r.owner with
      | none => i.ownerReserved
      | some owner => match i.ownerReserved.get owner with
        | none => i.ownerReserved
        | some reserved =>
          if reserved - r.ownerAmount = 0 then i.ownerReserved.erase owner
          else i.ownerReserved.insert owner (reserved - r.ownerAmount)
    pendingSlots := i.pendingSlots.erase r.key }

/-! ## Generations -/

def Index.insert (i : Index) (key : String) (record : Record) (manifest : Option (FileManifest × Nat)) : Index :=
  Index.rebuild C { i with
    records := i.records.insert key record
    manifests := match manifest with
      | none => i.manifests
      | some m => i.manifests.insert (key, record.current.hash C) m }

/-- The record of a generation that is stored over the record `old`. -/
def stored (old : Option Record) (room : String) (head : Head) (previous : Option Head) (previousHeld : Bool)
    (owner : Option String) : Record :=
  ⟨room, owner, head, previous, previousHeld, old.bind Record.home, none, true⟩

def Index.commitInner (i : Index) (room : String) (head : Head) (previous : Option Head) (previousHeld : Bool)
    (owner : Option String) (blob bytes : List UInt8) (manifest : FileManifest) (io : Io) :
    Index × List Effect × Except Error Unit :=
  let k := slotKey C room head.slot
  let record := stored (i.records.get k) room head previous previousHeld owner
  let dir := generation C k head
  (i.publish (i.insert C k record (some (manifest, bytes.length))) io,
    [.writeBlob dir blob, .writeManifest dir bytes, .writeRecord k record],
    if io = .unpublished then .error (.new .fetchFailed) else .ok ())

/-- The generation a commit of `head` keeps beside it. -/
def kept (record : Option Record) (head : Head) : Option Head × Bool :=
  match record.filter (fun r => r.deleted.isNone) with
  | some r =>
    if r.current = head then (r.previous, r.previousHeld)
    else match checkCas C head (some r.current) with
      | .ok false => (some r.current, r.held)
      | _ => (none, false)
  | none => (none, false)

def Index.commit (i : Index) (room : String) (head : Head) (blob bytes : List UInt8) (io : Io) :
    Index × List Effect × Except Error Unit :=
  match validateGeneration C head blob bytes with
  | .error e => (i, [], .error e)
  | .ok manifest =>
    if i.writeFailed then (i, [], .error (.new .quota))
    else
      let k := slotKey C room head.slot
      let (previous, previousHeld) := kept C (i.records.get k) head
      let owner := (i.pendingSlots.get k).bind PendingSlot.owner
      i.commitInner C room head previous previousHeld owner blob bytes manifest io

def importOver (record : Option Record) (head : Head) : Except ImportOutcome (Option Head × Bool) :=
  match record with
  | none => .ok (none, false)
  | some r =>
    let refused := match r.deleted with
      | none => none
      | some _ => match successor C head r.current with
        | .error e => some e.code.text
        | .ok () => none
    match refused with
    | some code => .error (.skipped code)
    | none =>
      if r.deleted.isNone ∧ r.held = true ∧ (r.current = head ∨ r.previous = some head) then .error .unchanged
      else if r.current.writer ≠ head.writer then .error (.skipped "writer_mismatch")
      else if head.seq < r.current.seq then .error (.skipped "older")
      else if head.seq = r.current.seq ∧ r.current ≠ head then .error (.skipped "conflict")
      else if r.deleted.isNone ∧ r.current = head then .ok (r.previous, r.previousHeld)
      else if r.deleted.isNone ∧ checkedAdd r.current.seq 1 = some head.seq ∧ head.parent = some (r.current.hash C) then
        .ok (some r.current, r.held)
      else .ok (none, false)

/-- `Repository::import` -/
def Index.importHead (i : Index) (cfg : Config) (room : String) (head : Head) (blob bytes : List UInt8) (io : Io) :
    Index × List Effect × Except Error ImportOutcome :=
  if validRoom room = false then (i, [], .error (.new .badRequest))
  else match head.validate C cfg.maxBlobBytes with
    | .error e => (i, [], .error e)
    | .ok () => match head.verify C with
      | .error e => (i, [], .error e)
      | .ok () => match validateGeneration C head blob bytes with
        | .error e => (i, [], .error e)
        | .ok manifest =>
          if i.writeFailed then (i, [], .error (.new .quota))
          else
            let record := i.records.get (slotKey C room head.slot)
            match importOver C record head with
            | .error outcome => (i, [], .ok outcome)
            | .ok (previous, previousHeld) =>
              if record.isNone && i.full cfg room then (i, [], .ok (.skipped "quota"))
              else if cfg.maxTotalBytes < satAdd (satAdd (satAdd i.bytes i.reserved) head.size) bytes.length then
                (i, [], .ok (.skipped "quota"))
              else
                match i.commitInner C room head previous previousHeld none blob bytes manifest io with
                | (i, effects, .error e) => (i, effects, .error e)
                | (i, effects, .ok ()) => (i, effects, .ok .imported)

def Index.delete (i : Index) (room : String) (request : Delete) (io : Io) : Index × List Effect × Except Error Unit :=
  match request.validate with
  | .error e => (i, [], .error e)
  | .ok () =>
    if i.writeFailed then (i, [], .error (.new .quota))
    else
      let k := slotKey C room request.slot
      match i.records.get k with
      | none => (i, [], .ok ())
      | some r =>
        if request.seq ≠ r.current.seq ∨ request.head ≠ r.current.hash C then (i, [], .error (.conflict r.current))
        else match request.verify C r.current.writer with
          | .error e => (i, [], .error e)
          | .ok () =>
            (i.publish (Index.rebuild C { i with records := i.records.erase k }) io, [.unlinkRecord k],
              if io = .done then .ok () else .error (.new .fetchFailed))

/-! ## Metadata of the mesh -/

def Index.publishMetadata (i : Index) (key : String) (record : Record) (io : Io) : Index × List Effect × Except Error Unit :=
  if i.writeFailed then (i, [], .error (.new .quota))
  else
    (i.publish (i.insert C key record none) io, [.writeRecord key record], if io = .done then .ok () else .error (.new .fetchFailed))

/-- `Repository::verify_holding`; `readable` says which generations read back as they were written. -/
def Index.verifyHolding (i : Index) (room : String) (head : Head) (readable : Head → Bool) (io : Io) :
    Index × List Effect × Except Error Unit :=
  let k := slotKey C room head.slot
  match (i.records.get k).filter (fun r => r.deleted.isNone && decide (r.current = head)) with
  | none => (i, [], .ok ())
  | some r =>
    let corruptCurrent := r.held && !readable head
    let corruptPrevious := r.previousHeld && r.previous.any (fun h => !readable h)
    if (!corruptCurrent && !corruptPrevious) = true then (i, [], .ok ())
    else
      let current := if corruptCurrent then { r with held := false } else r
      let checked := if corruptPrevious then { current with previous := none, previousHeld := false } else current
      i.publishMetadata C k checked io

def Index.setHome (i : Index) (room : String) (head : Head) (home : String) (io : Io) : Index × List Effect × Except Error Unit :=
  if (pubkeyFromDid C home).isNone then (i, [], .error (.new .badRequest))
  else
    let k := slotKey C room head.slot
    match i.records.get k with
    | none => (i, [], .error (.new .conflict))
    | some r =>
      if r.current ≠ head ∨ r.deleted.isSome then (i, [], .error (.new .conflict))
      else if r.home = some home then (i, [], .ok ())
      else i.publishMetadata C k { r with home := some home } io

/-- What `learn` checks of a message alone. -/
def learnable (room : String) (head : Head) (home : Option String) (deleted : Option Delete) : Except Error Unit :=
  if validRoom room = false then .error (.new .badRequest)
  else match head.validate C gib with
    | .error e => .error e
    | .ok () => match head.verify C with
      | .error e => .error e
      | .ok () =>
        if home.any (fun home => (pubkeyFromDid C home).isNone) then .error (.new .badRequest)
        else match deleted with
          | none => .ok ()
          | some delete => validateDelete C delete head

/-- What `learn` decides about a record, before it looks for room: an answer, or that the record is replaced. -/
def learnOver (old : Option Record) (head : Head) (deleted : Option Delete) : Except Error (Option Acceptance) :=
  let outcome := acceptance (old.map Record.current) head
  if outcome = .stale ∨ outcome = .conflict ∨ outcome = .writerMismatch then .ok (some outcome)
  else match old with
    | none => .ok none
    | some r =>
      if r.deleted.isSome then
        if deleted.isSome ∧ r.current = head then .ok (some .same)
        else if deleted.isNone ∧ head.seq ≤ satAdd r.current.seq 1 then
          match successor C head r.current with
          | .error e => .error e
          | .ok () => .ok none
        else .ok none
      else if outcome = .same ∧ deleted.isNone then .ok (some outcome)
      else .ok none

/-- The record `learn` publishes: metadata only, beside its direct predecessor. -/
def learned (old : Option Record) (room : String) (head : Head) (home : Option String) (deleted : Option Delete) : Record :=
  let previous := old.filter (fun r => r.deleted.isNone && deleted.isNone && decide (head.seq = satAdd r.current.seq 1)
    && decide (head.parent = some (r.current.hash C)))
  { room := room, owner := none, current := head, previous := previous.map Record.current,
    previousHeld := previous.any Record.held, home := home.or (old.bind Record.home), deleted := deleted, held := false }

def Index.learn (i : Index) (cfg : Config) (room : String) (head : Head) (home : Option String)
    (deleted : Option Delete) (io : Io) : Index × List Effect × Except Error Acceptance :=
  match learnable C room head home deleted with
  | .error e => (i, [], .error e)
  | .ok () =>
    if i.writeFailed then (i, [], .error (.new .quota))
    else
      let k := slotKey C room head.slot
      let old := i.records.get k
      match learnOver C old head deleted with
      | .error e => (i, [], .error e)
      | .ok (some outcome) => (i, [], .ok outcome)
      | .ok none =>
        if old.isNone && i.full cfg room then (i, [], .error (.new .quota))
        else match i.publishMetadata C k (learned C old room head home deleted) io with
          | (i, effects, .error e) => (i, effects, .error e)
          | (i, effects, .ok ()) => (i, effects, .ok .new)

/-- `Repository::mesh_delete`; every record lies under the key of its room and slot. -/
def Index.meshDelete (i : Index) (cfg : Config) (room : String) (delete : Delete) (io : Io) : Index × List Effect × Except Error Unit :=
  match (i.records.get (slotKey C room delete.slot)).filter
      (fun r => r.room == room && r.current.slot == delete.slot) with
  | none => (i, [], .ok ())
  | some r => match validateDelete C delete r.current with
    | .error e => (i, [], .error e)
    | .ok () => match i.learn C cfg room r.current r.home (some delete) io with
      | (i, effects, .error e) => (i, effects, .error e)
      | (i, effects, .ok _) => (i, effects, .ok ())

def Index.dropHolding (i : Index) (room : String) (head : Head) (io : Io) : Index × List Effect × Except Error Unit :=
  let k := slotKey C room head.slot
  match i.records.get k with
  | none => (i, [], .ok ())
  | some r =>
    if r.current ≠ head ∨ r.held = false then (i, [], .ok ())
    else i.publishMetadata C k { r with held := false, previousHeld := false } io

/-! ## What an operation can do -/

variable {C} {i : Index} {cfg : Config} {room : String} {head : Head} {io : Io}

theorem publishMetadata_cases (key : String) (r : Record) :
    ((i.publishMetadata C key r io).1 = i ∧ (i.publishMetadata C key r io).2.1 = []) ∨
    (i.writeFailed = false ∧ (i.publishMetadata C key r io).1 = i.publish (i.insert C key r none) io ∧
      (i.publishMetadata C key r io).2.1 = [.writeRecord key r]) := by
  unfold Index.publishMetadata
  split
  · exact .inl ⟨rfl, rfl⟩
  · rename_i hw
    exact .inr ⟨Bool.eq_false_iff.2 hw, rfl, rfl⟩

theorem learnable_valid {home : Option String} {deleted : Option Delete} (h : learnable C room head home deleted = .ok ()) :
    head.Valid C gib := by
  unfold learnable at h
  split at h
  · cases h
  split at h
  · cases h
  rename_i hv
  split at h
  · cases h
  rename_i hs
  exact Head.valid_of_checks C hv hs

/-- **What `learn` can do**: nothing, or publish the learned record over a slot that has room. -/
theorem learn_cases (home : Option String) (deleted : Option Delete) :
    ((i.learn C cfg room head home deleted io).1 = i ∧ (i.learn C cfg room head home deleted io).2.1 = []) ∨
    (i.writeFailed = false ∧ learnable C room head home deleted = .ok () ∧
      learnOver C (i.records.get (slotKey C room head.slot)) head deleted = .ok none ∧
      (i.records.get (slotKey C room head.slot) = none → i.full cfg room = false) ∧
      (i.learn C cfg room head home deleted io).1 = i.publish (i.insert C (slotKey C room head.slot)
        (learned C (i.records.get (slotKey C room head.slot)) room head home deleted) none) io ∧
      (i.learn C cfg room head home deleted io).2.1 = [.writeRecord (slotKey C room head.slot)
        (learned C (i.records.get (slotKey C room head.slot)) room head home deleted)]) := by
  unfold Index.learn
  split
  · exact .inl ⟨rfl, rfl⟩
  rename_i hl
  split
  · exact .inl ⟨rfl, rfl⟩
  rename_i hw
  have hw : i.writeFailed = false := Bool.eq_false_iff.2 hw
  dsimp only
  split
  · exact .inl ⟨rfl, rfl⟩
  · exact .inl ⟨rfl, rfl⟩
  rename_i hover
  split
  · exact .inl ⟨rfl, rfl⟩
  rename_i hfull
  refine .inr ⟨hw, hl, hover, fun hnone => ?_, ?_⟩
  · rw [hnone] at hfull
    simpa using hfull
  · unfold Index.publishMetadata
    rw [if_neg (by rw [hw]; decide)]
    cases io <;> exact ⟨rfl, rfl⟩

theorem reserve_cases (owner : Option String) (ownerLimit : Option Nat) : ((i.reserve C cfg room head owner ownerLimit).1 = i ∧
      ∀ r, (i.reserve C cfg room head owner ownerLimit).2 ≠ .ok (some r)) ∨
    (head.Valid C cfg.maxBlobBytes ∧ i.writeFailed = false ∧
      (∃ retry, isRetry C (i.records.get (slotKey C room head.slot)) head = .ok retry) ∧
      (i.records.get (slotKey C room head.slot) = none → i.full cfg room = false) ∧
      satAdd (satAdd i.bytes i.reserved) (head.size + manifestLimit C head.size) ≤ cfg.maxTotalBytes ∧
      (∀ o limit, owner = some o → ownerLimit = some limit →
        satAdd (satAdd (i.ownerBytes o) ((i.ownerReserved.get o).getD 0)) (satAdd (head.size + manifestLimit C head.size)
          (inherited C i (slotKey C room head.slot) head owner)) ≤ limit) ∧
      ∃ r : Reservation, r = ⟨slotKey C room head.slot, head.size + manifestLimit C head.size, owner,
          satAdd (head.size + manifestLimit C head.size) (inherited C i (slotKey C room head.slot) head owner)⟩ ∧
        i.reserve C cfg room head owner ownerLimit = (i.hold room r, .ok (some r))) := by
  unfold Index.reserve
  split
  · exact .inl ⟨rfl, fun _ h => by cases h⟩
  rename_i hv
  split
  · exact .inl ⟨rfl, fun _ h => by cases h⟩
  rename_i hs
  split
  · exact .inl ⟨rfl, fun _ h => by cases h⟩
  rename_i hw
  dsimp only
  split
  · exact .inl ⟨rfl, fun _ h => by cases h⟩
  split
  · exact .inl ⟨rfl, fun _ h => by cases h⟩
  rename_i retry hretry
  split
  · exact .inl ⟨rfl, fun _ h => by cases h⟩
  split
  · exact .inl ⟨rfl, fun _ h => by cases h⟩
  rename_i hfull
  split
  · exact .inl ⟨rfl, fun _ h => by cases h⟩
  rename_i htotal
  split
  · exact .inl ⟨rfl, fun _ h => by cases h⟩
  rename_i howner
  refine .inr ⟨Head.valid_of_checks C hv hs, Bool.eq_false_iff.2 hw, ⟨retry, hretry⟩, fun hnone => ?_, Nat.not_lt.1 htotal,
    fun o limit ho hlimit => ?_, _, rfl, rfl⟩
  · rw [hnone] at hfull
    simpa using hfull
  · subst ho hlimit
    simpa [Index.overLimit] using howner

theorem commit_cases (blob bytes : List UInt8) :
    ((i.commit C room head blob bytes io).1 = i ∧ (i.commit C room head blob bytes io).2.1 = [] ∧
      ∃ e, (i.commit C room head blob bytes io).2.2 = .error e) ∨
    (i.writeFailed = false ∧ ∃ manifest, validateGeneration C head blob bytes = .ok manifest ∧
      i.commit C room head blob bytes io = i.commitInner C room head (kept C (i.records.get (slotKey C room head.slot)) head).1
        (kept C (i.records.get (slotKey C room head.slot)) head).2
        ((i.pendingSlots.get (slotKey C room head.slot)).bind PendingSlot.owner) blob bytes manifest io) := by
  unfold Index.commit
  split
  · exact .inl ⟨rfl, rfl, _, rfl⟩
  rename_i manifest hm
  split
  · exact .inl ⟨rfl, rfl, _, rfl⟩
  rename_i hw
  exact .inr ⟨Bool.eq_false_iff.2 hw, manifest, hm, rfl⟩

theorem importHead_cases (blob bytes : List UInt8) :
    ((i.importHead C cfg room head blob bytes io).1 = i ∧ (i.importHead C cfg room head blob bytes io).2.1 = []) ∨
    (i.writeFailed = false ∧ validRoom room = true ∧ head.Valid C cfg.maxBlobBytes ∧
      ∃ manifest previous previousHeld, validateGeneration C head blob bytes = .ok manifest ∧
        importOver C (i.records.get (slotKey C room head.slot)) head = .ok (previous, previousHeld) ∧
        (i.records.get (slotKey C room head.slot) = none → i.full cfg room = false) ∧
        satAdd (satAdd (satAdd i.bytes i.reserved) head.size) bytes.length ≤ cfg.maxTotalBytes ∧
        (i.importHead C cfg room head blob bytes io).1
          = (i.commitInner C room head previous previousHeld none blob bytes manifest io).1 ∧
        (i.importHead C cfg room head blob bytes io).2.1
          = (i.commitInner C room head previous previousHeld none blob bytes manifest io).2.1) := by
  unfold Index.importHead
  split
  · exact .inl ⟨rfl, rfl⟩
  rename_i hroom
  split
  · exact .inl ⟨rfl, rfl⟩
  rename_i hv
  split
  · exact .inl ⟨rfl, rfl⟩
  rename_i hs
  split
  · exact .inl ⟨rfl, rfl⟩
  rename_i manifest hm
  split
  · exact .inl ⟨rfl, rfl⟩
  rename_i hw
  dsimp only
  split
  · exact .inl ⟨rfl, rfl⟩
  rename_i previous previousHeld hover
  split
  · exact .inl ⟨rfl, rfl⟩
  rename_i hfull
  split
  · exact .inl ⟨rfl, rfl⟩
  rename_i htotal
  refine .inr ⟨Bool.eq_false_iff.2 hw, Bool.not_eq_false _ ▸ hroom, Head.valid_of_checks C hv hs, manifest, previous,
    previousHeld, hm, hover, fun hnone => ?_, Nat.not_lt.1 htotal, ?_⟩
  · rw [hnone] at hfull
    simpa using hfull
  · cases io <;> exact ⟨rfl, rfl⟩

theorem delete_cases (request : Delete) : ((i.delete C room request io).1 = i ∧ (i.delete C room request io).2.1 = []) ∨
    (i.writeFailed = false ∧ (∃ r, i.records.get (slotKey C room request.slot) = some r) ∧ (i.delete C room request io).1
        = i.publish (Index.rebuild C { i with records := i.records.erase (slotKey C room request.slot) }) io ∧
      (i.delete C room request io).2.1 = [.unlinkRecord (slotKey C room request.slot)]) := by
  unfold Index.delete
  split
  · exact .inl ⟨rfl, rfl⟩
  split
  · exact .inl ⟨rfl, rfl⟩
  rename_i hw
  dsimp only
  split
  · exact .inl ⟨rfl, rfl⟩
  rename_i r hr
  split
  · exact .inl ⟨rfl, rfl⟩
  split
  · exact .inl ⟨rfl, rfl⟩
  exact .inr ⟨Bool.eq_false_iff.2 hw, ⟨r, hr⟩, rfl, rfl⟩

theorem meshDelete_cases (delete : Delete) :
    ((i.meshDelete C cfg room delete io).1 = i ∧ (i.meshDelete C cfg room delete io).2.1 = []) ∨
    ∃ r, i.records.get (slotKey C room delete.slot) = some r ∧ r.current.slot = delete.slot ∧
      (i.meshDelete C cfg room delete io).1 = (i.learn C cfg room r.current r.home (some delete) io).1 ∧
      (i.meshDelete C cfg room delete io).2.1 = (i.learn C cfg room r.current r.home (some delete) io).2.1 := by
  unfold Index.meshDelete
  split
  · exact .inl ⟨rfl, rfl⟩
  rename_i r hr
  obtain ⟨hget, hmatch⟩ := Option.filter_eq_some_iff.1 hr
  rw [Bool.and_eq_true, beq_iff_eq, beq_iff_eq] at hmatch
  split
  · exact .inl ⟨rfl, rfl⟩
  refine .inr ⟨r, hget, hmatch.2, ?_⟩
  split <;> rename_i heq <;> rw [heq] <;> exact ⟨rfl, rfl⟩

/-- A record that keeps no more than another of the same head. -/
structure Record.Trims (C : Crates) (r' r : Record) : Prop where
  room : r'.room = r.room
  owner : r'.owner = r.owner
  current : r'.current = r.current
  deleted : r'.deleted = r.deleted
  held : r'.held = true → r.held = true
  previous : r'.previous = r.previous ∧ (r'.previousHeld = true → r.previousHeld = true) ∨ r'.previous = none ∧ r'.previousHeld = false
  home : r'.home = r.home ∨ ∃ did, r'.home = some did ∧ (pubkeyFromDid C did).isSome = true

def Trimmed (C : Crates) (i : Index) (io : Io) (key : String) (out : Index × List Effect × Except Error Unit) : Prop :=
  (out.1 = i ∧ out.2.1 = []) ∨
  ∃ r r', i.records.get key = some r ∧ r'.Trims C r ∧ i.writeFailed = false ∧
    out.1 = i.publish (i.insert C key r' none) io ∧ out.2.1 = [.writeRecord key r']

theorem trimmed_publish {key : String} {r r' : Record} (hr : i.records.get key = some r) (ht : r'.Trims C r) :
    Trimmed C i io key (i.publishMetadata C key r' io) := by
  rcases @publishMetadata_cases C i io key r' with h | ⟨hw, h1, h2⟩
  · exact .inl h
  · exact .inr ⟨r, r', hr, ht, hw, h1, h2⟩

theorem setHome_trimmed (home : String) : Trimmed C i io (slotKey C room head.slot) (i.setHome C room head home io) := by
  unfold Index.setHome
  split
  · exact .inl ⟨rfl, rfl⟩
  rename_i hdid
  dsimp only
  split
  · exact .inl ⟨rfl, rfl⟩
  rename_i r hr
  split
  · exact .inl ⟨rfl, rfl⟩
  split
  · exact .inl ⟨rfl, rfl⟩
  refine trimmed_publish hr ⟨rfl, rfl, rfl, rfl, id, .inl ⟨rfl, id⟩, .inr ⟨home, rfl, ?_⟩⟩
  simpa [Option.isSome_iff_ne_none] using hdid

theorem dropHolding_trimmed : Trimmed C i io (slotKey C room head.slot) (i.dropHolding C room head io) := by
  unfold Index.dropHolding
  dsimp only
  split
  · exact .inl ⟨rfl, rfl⟩
  rename_i r hr
  split
  · exact .inl ⟨rfl, rfl⟩
  exact trimmed_publish hr ⟨rfl, rfl, rfl, rfl, nofun, .inl ⟨rfl, nofun⟩, .inl rfl⟩

theorem verifyHolding_trimmed (readable : Head → Bool) :
    Trimmed C i io (slotKey C room head.slot) (i.verifyHolding C room head readable io) := by
  unfold Index.verifyHolding
  dsimp only
  split
  · exact .inl ⟨rfl, rfl⟩
  rename_i r hr
  obtain ⟨hget, -⟩ := Option.filter_eq_some_iff.1 hr
  split
  · exact .inl ⟨rfl, rfl⟩
  refine trimmed_publish hget ?_
  split
  · split <;> exact ⟨rfl, rfl, rfl, rfl, by simp, .inr ⟨rfl, rfl⟩, .inl rfl⟩
  · split <;> exact ⟨rfl, rfl, rfl, rfl, by simp, .inl ⟨rfl, id⟩, .inl rfl⟩

theorem learn_published {home : Option String} {deleted : Option Delete} (hw : i.writeFailed = false)
    (hl : learnable C room head home deleted = .ok ())
    (hover : learnOver C (i.records.get (slotKey C room head.slot)) head deleted = .ok none)
    (hfull : i.records.get (slotKey C room head.slot) = none → i.full cfg room = false) :
    (i.learn C cfg room head home deleted io).1 = i.publish (i.insert C (slotKey C room head.slot)
      (learned C (i.records.get (slotKey C room head.slot)) room head home deleted) none) io := by
  have hroom : ((i.records.get (slotKey C room head.slot)).isNone && i.full cfg room) = false := by
    cases hr : i.records.get (slotKey C room head.slot) with
    | none => simpa using hfull hr
    | some r => rfl
  unfold Index.learn Index.publishMetadata
  simp only [hl, hw, hover, hroom]
  cases io <;> rfl

end Mistl.Escrow
