import Mistl.EscrowRaft
import Mistl.EscrowRepository
import Mistl.Lib.Checks
import Mistl.Lib.JsonLine
import Mistl.WiresignCanon
/-!
# EscrowDisk — the files of a repository, and opening it

`Repository::open`: every record is read, checked against its file name and the generations it holds, and what no record
holds is removed.  A disk that holds some storable records opens as those records (`open_ok`).  Temporary files are left
out; `write_private` and `unlink` are single steps.
-/
open List Mistl.Table Option

namespace Mistl.Escrow

/-! ## The text of a record -/

def Delete.ofJson (j : Json) : Option Delete :=
  match Json.structFields ["slot", "seq", "head", "sig"] false j with
  | some [some slot, some seq, some head, some sig] => do
    let slot ← slot.asStr
    let seq ← seq.asUnsigned (2 ^ 64)
    let head ← head.asStr
    let sig ← sig.asStr
    some ⟨slot, seq, head, sig⟩
  | _ => none

def optJson {α : Type} (show_ : α → Json) : Option α → Json
  | none => .null
  | some a => show_ a

def readOption {α : Type} (read : Json → Option α) : Option Json → Option (Option α)
  | none | some .null => some none
  | some j => (read j).map some

/-- A field with the default `default_held`. -/
def readHeld : Option Json → Option Bool
  | none => some true
  | some j => j.asBool

def recordNames : List String := ["room", "owner", "current", "previous", "previous_held", "home", "deleted", "held"]

def Record.toJson (r : Record) : Json := .obj [("room", .str r.room), ("owner", optStr r.owner), ("current", r.current.toJson),
    ("previous", optJson Head.toJson r.previous), ("previous_held", .bool r.previousHeld), ("home", optStr r.home),
    ("deleted", optJson Delete.toJson r.deleted), ("held", .bool r.held)]

/-- Whether a sequence of fields is too short: `previous` has no default. -/
def shortRecord : Json → Bool
  | .arr items => decide (items.length < 4)
  | _ => false

def Record.ofJson (j : Json) : Option Record :=
  if shortRecord j then none
  else match Json.structFields recordNames false j with
    | some [some room, owner, some current, previous, previousHeld, home, deleted, held] => do
      let room ← room.asStr
      let owner ← readOptStr owner
      let current ← Head.ofJson current
      let previous ← readOption Head.ofJson previous
      let previousHeld ← readHeld previousHeld
      let home ← readOptStr home
      let deleted ← readOption Delete.ofJson deleted
      let held ← readHeld held
      some ⟨room, owner, current, previous, previousHeld, home, deleted, held⟩
    | _ => none

def Record.bytes (r : Record) : List UInt8 := r.toJson.toVec

/-! ## The disk -/

structure Files where
  blob : Option (List UInt8)
  manifest : Option (List UInt8)

/-- The files `heads/<name>.json`, and the directories under `blobs`. -/
structure Disk where
  heads : Table String (List UInt8)
  blobs : Table String Files

namespace Disk

def empty : Disk := ⟨∅, ∅⟩

def files (d : Disk) (dir : String) : Files := (d.blobs.get dir).getD ⟨none, none⟩

def apply (d : Disk) : Effect → Disk
  | .writeBlob dir bytes => { d with blobs := d.blobs.insert dir { d.files dir with blob := some bytes } }
  | .writeManifest dir bytes => { d with blobs := d.blobs.insert dir { d.files dir with manifest := some bytes } }
  | .writeRecord key record => { d with heads := d.heads.insert key record.bytes }
  | .unlinkRecord key => { d with heads := d.heads.erase key }
  | .removeDir dir => { d with blobs := d.blobs.erase dir }

end Disk

/-! ## Opening -/

/-- Why a repository does not open: a file that is missing, a text that is no record, an identity that is none, or a check
with its message. -/
inductive OpenError where
  | io | malformed | identity
  | check (message : String)

def codeCheck {α : Type} : Except Error α → Except OpenError α
  | .ok a => .ok a
  | .error e => .error (.check e.code.text)

def readBounded (file : Option (List UInt8)) (limit : Nat) : Except OpenError (List UInt8) := do
  let bytes ← okOr file .io
  ensure (decide (bytes.length ≤ limit)) (.check "escrow: oversized file")
  .ok bytes

variable (C : Crates)

def verifyGeneration (d : Disk) (key : String) (head : Head) : Except OpenError (FileManifest × Nat) := do
  let blob ← readBounded (d.files (generation C key head)).blob head.size
  codeCheck (validateBlob C head blob)
  let bytes ← readBounded (d.files (generation C key head)).manifest maxManifest
  let manifest ← codeCheck (validateManifest C head bytes)
  ensure (chunksVerify C manifest blob) (.check "invalid retained chunk")
  .ok (manifest, bytes.length)

structure Found where
  corruptCurrent : Bool
  corruptPrevious : Bool
  manifests : List ((String × String) × FileManifest × Nat)

def openHead (d : Disk) (key : String) (record : Record) (found : Found) (head : Head) : Except OpenError Found := do
  codeCheck (head.validate C gib)
  codeCheck (head.verify C)
  ensure (head.slot == record.current.slot && head.writer == record.current.writer) (.check "escrow: invalid backup")
  let held := if head = record.current then record.held else record.previousHeld
  if !held || record.deleted.isSome then .ok found
  else match verifyGeneration C d key head with
    | .ok m => .ok { found with manifests := ((key, head.hash C), m) :: found.manifests }
    | .error e =>
      if record.home.isNone then .error e
      else if head = record.current then .ok { found with corruptCurrent := true }
      else .ok { found with corruptPrevious := true }

def openDeleted (record : Record) : Except OpenError Unit :=
  match record.deleted with
  | none => .ok ()
  | some request => do
    codeCheck (validateDelete C request record.current)
    ensure (!record.held && record.previous.isNone) (.check "invalid tombstone storage")

def openHome (record : Record) : Except OpenError Unit :=
  match record.home with
  | none => .ok ()
  | some home => ensure (pubkeyFromDid C home).isSome .identity

def openPrevious (record : Record) : Except OpenError Unit :=
  match record.previous with
  | none => .ok ()
  | some previous => do
    let same ← codeCheck (checkCas C record.current (some previous))
    ensure (!same) (.check "escrow: duplicate backup generation")

def Found.trim (found : Found) (record : Record) : Record :=
  let record := if found.corruptCurrent then { record with held := false } else record
  if found.corruptPrevious then { record with previous := none, previousHeld := false } else record

/-- One file of `heads`: the record, and what is found of its generations. -/
def openRecord (d : Disk) (name : String) (bytes : List UInt8) : Except OpenError (Record × Found) := do
  ensure (decide (bytes.length ≤ 32 * 1024)) (.check "escrow: oversized state file")
  let record ← okOr ((Json.fromSlice bytes).bind Record.ofJson) .malformed
  ensure (validRoom record.room) (.check "escrow: invalid persisted room")
  ensure (name == slotKey C record.room record.current.slot) (.check "escrow: invalid state filename")
  let found ← (record.current :: record.previous.toList).foldlM (openHead C d name record) ⟨false, false, []⟩
  openDeleted C record
  openHome C record
  openPrevious C record
  .ok (found.trim record, found)

def adopt (name : String) (record : Record) (found : Found) (i : Index) (heads : Table String (List UInt8)) :
    Index × Table String (List UInt8) :=
  ({ i with
      records := i.records.insert name record
      manifests := found.manifests.foldl (fun m e => m.insert e.1 e.2) i.manifests },
    if found.corruptCurrent || found.corruptPrevious then heads.insert name record.bytes else heads)

/-- The files of `heads`, in the order of the directory. -/
def openFiles (d : Disk) : List (Sigma (fun _ : String => List UInt8)) → Index → Table String (List UInt8) →
    Except OpenError (Index × Table String (List UInt8))
  | [], i, heads => .ok (i, heads)
  | file :: rest, i, heads =>
    if 65536 ≤ i.records.size then .error (.check "escrow: too many persisted slots")
    else match openRecord C d file.1 file.2 with
      | .error e => .error e
      | .ok (record, found) => openFiles d rest (adopt file.1 record found i heads).1 (adopt file.1 record found i heads).2

def keepsDir (records : Table String Record) (dir : String) : Bool :=
  decide (0 < (records.filter (fun k r => r.heldHeads.any (fun h => generation C k h == dir))).size)

def Disk.cleanup (d : Disk) (records : Table String Record) : Disk :=
  { d with blobs := d.blobs.filter (fun dir _ => !hexString dir 64 || keepsDir C records dir) }

/-- `Repository::open`, the files of `heads` in some order. -/
def Disk.open (d : Disk) (order : List (Sigma (fun _ : String => List UInt8))) : Except OpenError (Index × Disk) :=
  match openFiles C d order Index.default d.heads with
  | .error e => .error e
  | .ok (i, heads) => .ok (i.rebuild C, { d with heads := heads }.cleanup C i.records)

/-! ## Records that can be stored -/

variable {C} {key : String} {r : Record}

structure Record.Storable (C : Crates) (key : String) (r : Record) : Prop where
  key_eq : key = slotKey C r.room r.current.slot
  room : validRoom r.room = true
  current : r.current.Valid C gib
  previous : ∀ p, r.previous = some p → p.Valid C gib ∧ p.slot = r.current.slot ∧ Extends C r.current p
  deleted : ∀ d, r.deleted = some d → validateDelete C d r.current = .ok () ∧ r.held = false ∧ r.previous = none
  home : ∀ did, r.home = some did → (pubkeyFromDid C did).isSome = true
  owner : ∀ o, r.owner = some o → o.utf8ByteSize ≤ 1024

variable {h : Head}

theorem Head.Valid.words (hv : h.Valid C gib) : h.Words :=
  ⟨by rw [hv.v_eq]; decide, lt_of_le_of_lt hv.seq_le (by decide), lt_of_le_of_lt hv.size_le (by decide),
    lt_of_le_of_lt hv.at_le (by decide)⟩

theorem validateDelete_shape {d : Delete} {head : Head} (h : validateDelete C d head = .ok ()) :
    hexString d.slot 32 = true ∧ d.seq ≤ maxSafe ∧ hexString d.head 64 = true ∧ d.sig.utf8ByteSize = 86 := by
  unfold validateDelete at h
  split at h
  · cases h
  rename_i hv
  unfold Delete.validate at hv
  split at hv
  · cases hv
  rename_i hn
  simp only [not_or, not_not, Bool.not_eq_false, Nat.not_lt] at hn
  exact ⟨hn.1, hn.2.2.1, hn.2.2.2.1, hn.2.2.2.2⟩

theorem Delete.ofJson_toJson {d : Delete} (h : d.seq < 2 ^ 64) : Delete.ofJson d.toJson = some d := by
  have hfields : Json.structFields ["slot", "seq", "head", "sig"] false d.toJson
      = some [some (.str d.slot), some (.int d.seq), some (.str d.head), some (.str d.sig)] := rfl
  rw [Delete.ofJson, hfields]
  simp only [Json.asStr, asUnsigned_int h, bind_eq_bind, bind_some]

theorem readOption_optJson {α : Type} {read : Json → Option α} {show_ : α → Json} {a : Option α}
    (hobj : ∀ x, show_ x ≠ .null) (h : ∀ x, a = some x → read (show_ x) = some x) :
    readOption read (some (optJson show_ a)) = some a := by
  cases a with
  | none => rfl
  | some x =>
    rw [optJson]
    unfold readOption
    split
    · rename_i he
      cases he
    · rename_i he
      exact absurd (Option.some.inj he) (hobj x)
    · rename_i he
      rw [← Option.some.inj he, h x rfl, map_some]

namespace Record.Storable

theorem delete_word (h : r.Storable C key) {d : Delete} (hd : r.deleted = some d) : d.seq < 2 ^ 64 :=
  lt_of_le_of_lt (validateDelete_shape (h.deleted d hd).1).2.1 (by decide)

theorem ofJson_toJson (h : r.Storable C key) : Record.ofJson r.toJson = some r := by
  have hfields : Json.structFields recordNames false r.toJson
      = some [some (.str r.room), some (optStr r.owner), some r.current.toJson, some (optJson Head.toJson r.previous),
          some (.bool r.previousHeld), some (optStr r.home), some (optJson Delete.toJson r.deleted),
          some (.bool r.held)] := rfl
  have hprevious : readOption Head.ofJson (some (optJson Head.toJson r.previous)) = some r.previous :=
    readOption_optJson (fun _ => nofun) (fun p hp => (h.previous p hp).1.ofJson_toJson)
  have hdeleted : readOption Delete.ofJson (some (optJson Delete.toJson r.deleted)) = some r.deleted :=
    readOption_optJson (fun _ => nofun) (fun d hd => Delete.ofJson_toJson (h.delete_word hd))
  rw [Record.ofJson, if_neg (show ¬ shortRecord r.toJson = true from nofun), hfields]
  simp only [Json.asStr, readOptStr_optStr, h.current.ofJson_toJson, hprevious, hdeleted, readHeld, Json.asBool,
    bind_eq_bind, bind_some]

theorem integral_optStr (s : Option String) : Json.Integral (optStr s) := by
  cases s <;> (trivial)

theorem integral (h : r.Storable C key) : Json.Integral r.toJson := by
  have hprevious : Json.Integral (optJson Head.toJson r.previous) := by
    cases hp : r.previous with
    | none => trivial
    | some p => exact (h.previous p hp).1.words.exact.integral
  have hdeleted : Json.Integral (optJson Delete.toJson r.deleted) := by
    cases hd : r.deleted with
    | none => trivial
    | some d =>
      have := h.delete_word hd
      rw [optJson, Delete.toJson]
      simp only [Json.IntegralFields, Json.Integral, true_and, and_true]
      omega
  rw [Record.toJson]
  simp only [Json.IntegralFields, Json.Integral, integral_optStr, h.current.words.exact.integral, hprevious, hdeleted, and_true]

theorem nesting_optStr (s : Option String) : Json.nesting (optStr s) = 0 := by
  cases s <;> rw [optStr, Json.nesting]

theorem nesting (r : Record) : Json.nesting r.toJson < Json.maxDepth := by
  have hprevious : Json.nesting (optJson Head.toJson r.previous) ≤ 1 := by
    cases r.previous with
    | none => decide
    | some p => exact le_of_eq (nesting_head p)
  have hdeleted : Json.nesting (optJson Delete.toJson r.deleted) ≤ 1 := by
    cases r.deleted with
    | none => decide
    | some d =>
      rw [optJson, Delete.toJson]
      simp [Json.nestingFields, Json.nesting]
  rw [Record.toJson]
  simp only [Json.nestingFields, Json.nesting, nesting_optStr, nesting_head, Json.maxDepth]
  omega

theorem fromSlice_bytes (h : r.Storable C key) : (Json.fromSlice r.bytes).bind Record.ofJson = some r := by
  rw [Record.bytes, Json.fromSlice_toVec _ h.integral.repr (nesting r), bind_some, h.ofJson_toJson]

end Record.Storable

/-! ## The size of a record -/

theorem size_optStr_le {s : Option String} {n : Nat} (h : ∀ x, s = some x → x.utf8ByteSize ≤ n) : Json.size (optStr s) ≤ 6 * n + 4 := by
  cases s with
  | none =>
    have : Json.size (optStr none) = 4 := by decide
    omega
  | some x =>
    have h1 := h x rfl
    have h2 := Json.stringSize_le x
    rw [optStr, Json.size_str]
    omega

theorem hexString_size {value : String} {len : Nat} (h : hexString value len = true) : value.utf8ByteSize = len :=
  beq_iff_eq.1 (Bool.and_eq_true_iff.1 h).1

theorem Head.Valid.size_toJson_le (hv : h.Valid C gib) (hcid : h.cid.utf8ByteSize ≤ 1024) : Json.size h.toJson ≤ 10000 := by
  have hs := fun s => Json.stringSize_le s
  have h1 := Json.size_int_le (n := h.v) (by rw [hv.v_eq]; decide)
  have h2 := hs h.kind
  have h2' : h.kind.utf8ByteSize = 14 := by rw [hv.kind_eq]; decide
  have h3 := hs h.slot
  have h3' := hexString_size hv.slot_hex
  have h4 := Json.size_int_le (n := h.seq) (lt_of_le_of_lt hv.seq_le (by decide))
  have h5 : Json.size (optStr h.parent) ≤ 6 * 64 + 4 := size_optStr_le (fun p hp => le_of_eq (hexString_size (hv.parent_hex p hp)))
  have h6 := hs h.cid
  have h7 := Json.size_int_le (n := h.size) (lt_of_le_of_lt hv.size_le (by decide))
  have h8 := hs h.sha256
  have h8' := hexString_size hv.sha_hex
  have h9 := hs h.comp
  have h9' : h.comp.utf8ByteSize = 4 := by
    rcases hv.comp_eq with hc | hc
    · rw [hc]; decide
    · rw [hc]; decide
  have h10 := hs h.schema
  have h10' := hv.schema_le
  have h11 := hs h.writer
  have h11' := hv.writer_len
  have h12 := Json.size_int_le (n := h.at_) (lt_of_le_of_lt hv.at_le (by decide))
  have h13 := hs h.sig
  have h13' := hv.sig_len
  have hnames : Json.stringSize "v" + Json.stringSize "type" + Json.stringSize "slot" + Json.stringSize "seq"
      + Json.stringSize "parent" + Json.stringSize "cid" + Json.stringSize "size" + Json.stringSize "sha256"
      + Json.stringSize "comp" + Json.stringSize "schema" + Json.stringSize "writer" + Json.stringSize "at"
      + Json.stringSize "sig" = 78 := by decide
  rw [Head.toJson, Json.size_obj]
  simp only [Json.fieldsSize, Json.size_str]
  omega

theorem Record.Storable.fits (h : r.Storable C key) (hcid : ∀ cid, C.isValidCid cid = true → cid.utf8ByteSize ≤ 1024) :
    r.bytes.length ≤ 32 * 1024 := by
  have hs := fun s => Json.stringSize_le s
  have h1 := hs r.room
  have h1' : r.room.utf8ByteSize ≤ 96 := by
    have hroom := h.room
    simp only [validRoom, Bool.and_eq_true, decide_eq_true_eq] at hroom
    exact hroom.1.2
  have h2 : Json.size (optStr r.owner) ≤ 6 * 1024 + 4 := size_optStr_le h.owner
  have h3 := h.current.size_toJson_le (hcid _ h.current.cid_valid)
  have h4 : Json.size (optJson Head.toJson r.previous) ≤ 10000 := by
    cases hp : r.previous with
    | none =>
      have : Json.size (optJson Head.toJson none) = 4 := by decide
      omega
    | some p => exact (h.previous p hp).1.size_toJson_le (hcid _ (h.previous p hp).1.cid_valid)
  have hbool : ∀ b, Json.size (.bool b) ≤ 5 := by decide
  have h5 := hbool r.previousHeld
  have h6 : Json.size (optStr r.home) ≤ 6 * 56 + 4 := by
    refine size_optStr_le (fun did hd => ?_)
    have hkey := h.home did hd
    unfold pubkeyFromDid at hkey
    split at hkey
    · cases hkey
    · rename_i hlen
      exact le_of_eq (not_not.1 hlen)
  have h7 : Json.size (optJson Delete.toJson r.deleted) ≤ 1300 := by
    cases hd : r.deleted with
    | none =>
      have : Json.size (optJson Delete.toJson none) = 4 := by decide
      omega
    | some d =>
      obtain ⟨hslot, -, hhead, hsig⟩ := validateDelete_shape (h.deleted d hd).1
      have a1 := hs d.slot
      have a2 := Json.size_int_le (h.delete_word hd)
      have a3 := hs d.head
      have a4 := hs d.sig
      have b1 := hexString_size hslot
      have b3 := hexString_size hhead
      have hnames : Json.stringSize "slot" + Json.stringSize "seq" + Json.stringSize "head" + Json.stringSize "sig" = 22 := by
        decide
      rw [optJson, Delete.toJson, Json.size_obj]
      simp only [Json.fieldsSize, Json.size_str]
      omega
  have h8 := hbool r.held
  have hnames : Json.stringSize "room" + Json.stringSize "owner" + Json.stringSize "current" + Json.stringSize "previous"
      + Json.stringSize "previous_held" + Json.stringSize "home" + Json.stringSize "deleted" + Json.stringSize "held"
      = 68 := by decide
  show Json.size r.toJson ≤ _
  rw [Record.toJson, Json.size_obj]
  simp only [Json.fieldsSize, Json.size_str]
  omega

/-! ## What a disk holds -/

variable (C) in
def Disk.Present (d : Disk) (key : String) (h : Head) : Prop :=
  ∃ blob bytes manifest, d.blobs.get (generation C key h) = some ⟨some blob, some bytes⟩ ∧
    validateGeneration C h blob bytes = .ok manifest

variable (C) in
/-- The files of some records, with every generation they hold. -/
structure Disk.Holds (d : Disk) (records : Table String Record) : Prop where
  files : ∀ k, d.heads.get k = (records.get k).map Record.bytes
  generations : ∀ k r h, records.get k = some r → h ∈ r.heldHeads → d.Present C k h

variable {d d' : Disk} {records : Table String Record}

theorem keepsDir_eq_true {dir : String} : keepsDir C records dir = true ↔
    ∃ k r h, records.get k = some r ∧ h ∈ r.heldHeads ∧ generation C k h = dir := by
  rw [keepsDir, decide_eq_true_iff, Nat.pos_iff_ne_zero]
  constructor
  · intro hsize
    have hne : ¬ ∀ k, (records.filter (fun k r => r.heldHeads.any (fun h => generation C k h == dir))).get k = none :=
      fun h => hsize (size_eq_zero.2 (eq_empty_iff.2 h))
    obtain ⟨k, hk⟩ := not_forall.1 hne
    obtain ⟨r, hr⟩ := ne_none_iff_exists'.1 hk
    rw [Table.get_filter, filter_eq_some_iff] at hr
    obtain ⟨h, hh, hdir⟩ := List.any_eq_true.1 hr.2
    exact ⟨k, r, h, hr.1, hh, beq_iff_eq.1 hdir⟩
  · rintro ⟨k, r, h, hr, hh, rfl⟩
    refine @size_ne_zero _ _ _ _ r k ?_
    rw [Table.get_filter, hr, filter_some, if_pos]
    exact List.any_eq_true.2 ⟨h, hh, beq_self_eq_true _⟩

theorem Disk.Holds.left (h : d.Holds C records) (hheads : d'.heads = d.heads)
    (hblobs : ∀ dir, keepsDir C records dir = true → d'.blobs.get dir = d.blobs.get dir) : d'.Holds C records := by
  refine ⟨fun k => by rw [hheads, h.files], fun k r head hr hh => ?_⟩
  obtain ⟨blob, bytes, manifest, hget, hvalid⟩ := h.generations k r head hr hh
  exact ⟨blob, bytes, manifest, by rw [hblobs _ (keepsDir_eq_true.2 ⟨k, r, head, hr, hh, rfl⟩), hget], hvalid⟩

theorem Disk.Holds.cleanup (h : d.Holds C records) : (d.cleanup C records).Holds C records := by
  refine h.left rfl (fun dir hdir => ?_)
  rw [Disk.cleanup, Table.get_filter]
  cases d.blobs.get dir with
  | none => rfl
  | some files => rw [filter_some, if_pos (by rw [hdir, Bool.or_true])]

theorem Disk.cleanup_holds {dir : String} {files : Files} (h : (d.cleanup C records).blobs.get dir = some files)
    (hdir : hexString dir 64 = true) : ∃ k r h, records.get k = some r ∧ h ∈ r.heldHeads ∧ generation C k h = dir := by
  rw [Disk.cleanup, Table.get_filter, filter_eq_some_iff, hdir] at h
  exact keepsDir_eq_true.1 h.2

/-! ## Opening what a disk holds -/

theorem validateGeneration_eq_ok {blob bytes : List UInt8} {manifest : FileManifest}
    (hv : validateGeneration C h blob bytes = .ok manifest) :
    validateBlob C h blob = .ok () ∧ validateManifest C h bytes = .ok manifest ∧ chunksVerify C manifest blob = true := by
  unfold validateGeneration at hv
  split at hv
  · cases hv
  rename_i hblob
  split at hv
  · cases hv
  rename_i hmanifest
  split at hv
  · rename_i hchunks
    cases hv
    exact ⟨hblob, hmanifest, hchunks⟩
  · cases hv

theorem Disk.Present.verify (hp : d.Present C key h) : ∃ m, verifyGeneration C d key h = .ok m := by
  obtain ⟨blob, bytes, manifest, hget, hvalid⟩ := hp
  obtain ⟨hblob, hmanifest, hchunks⟩ := validateGeneration_eq_ok hvalid
  have hsize : blob.length ≤ h.size := by
    unfold validateBlob at hblob
    split at hblob
    · cases hblob
    · rename_i hn
      exact le_of_eq (not_not.1 (not_or.1 hn).1)
  have hlimit : bytes.length ≤ maxManifest := by
    unfold validateManifest at hmanifest
    split at hmanifest
    · cases hmanifest
    · rename_i hn
      exact (Nat.not_lt.1 (not_or.1 hn).1).trans (Nat.min_le_right _ _)
  have hfiles : d.files (generation C key h) = ⟨some blob, some bytes⟩ := by rw [Disk.files, hget]; rfl
  refine ⟨(manifest, bytes.length), ?_⟩
  simp only [verifyGeneration, hfiles, readBounded, okOr, ensure, hsize, hlimit, hblob, hmanifest, hchunks, codeCheck,
    decide_true, if_true, bind, Except.bind]

theorem openHead_ok (h : r.Storable C key) {head : Head} (hmem : head = r.current ∨ r.previous = some head)
    (hp : head ∈ r.heldHeads → d.Present C key head) (found : Found) :
    ∃ manifests, openHead C d key r found head = .ok { found with manifests := manifests } := by
  have hsame : head.Valid C gib ∧ head.slot = r.current.slot ∧ head.writer = r.current.writer := by
    rcases hmem with rfl | hprev
    · exact ⟨h.current, rfl, rfl⟩
    · obtain ⟨hv, hslot, hext⟩ := h.previous head hprev
      exact ⟨hv, hslot, hext.writer.symm⟩
  obtain ⟨hv, hslot, hwriter⟩ := hsame
  have hheld : (!(if head = r.current then r.held else r.previousHeld) || r.deleted.isSome) = false → head ∈ r.heldHeads := by
    intro hb
    rw [Bool.or_eq_false_iff, Bool.not_eq_false', isSome_eq_false_iff] at hb
    obtain ⟨hheld, hdel⟩ := hb
    rw [Record.heldHeads, mem_append, hdel]
    split at hheld
    · rename_i heq
      exact .inl (by simp [hheld, heq])
    · rename_i hne
      exact .inr (by simp [hheld, hmem.resolve_left hne])
  simp only [openHead, hv.validate C hv.size_le, hv.signed, hslot, hwriter, beq_self_eq_true]
  cases hb : !(if head = r.current then r.held else r.previousHeld) || r.deleted.isSome with
  | true => exact ⟨found.manifests, rfl⟩
  | false =>
    obtain ⟨m, hm⟩ := (hp (hheld hb)).verify
    rw [hm]
    exact ⟨_, rfl⟩

theorem openHeads_ok (h : r.Storable C key) : ∀ (heads : List Head),
    (∀ head ∈ heads, (head = r.current ∨ r.previous = some head) ∧ (head ∈ r.heldHeads → d.Present C key head)) →
    ∀ found : Found, ∃ manifests, heads.foldlM (openHead C d key r) found = .ok { found with manifests := manifests }
  | [], _, found => ⟨found.manifests, rfl⟩
  | head :: heads, hall, found => by
    obtain ⟨hmem, hp⟩ := hall head mem_cons_self
    obtain ⟨m, hm⟩ := openHead_ok h hmem hp found
    obtain ⟨m', hm'⟩ := openHeads_ok h heads (fun x hx => hall x (mem_cons_of_mem _ hx)) { found with manifests := m }
    refine ⟨m', ?_⟩
    rw [foldlM_cons, hm]
    exact hm'

theorem openRecord_ok (h : r.Storable C key) (hcid : ∀ cid, C.isValidCid cid = true → cid.utf8ByteSize ≤ 1024)
    (hp : ∀ head ∈ r.heldHeads, d.Present C key head) :
    ∃ manifests, openRecord C d key r.bytes = .ok (r, ⟨false, false, manifests⟩) := by
  have hmem : ∀ head ∈ r.current :: r.previous.toList,
      (head = r.current ∨ r.previous = some head) ∧ (head ∈ r.heldHeads → d.Present C key head) := by
    intro head hh
    refine ⟨?_, hp head⟩
    rcases mem_cons.1 hh with rfl | hh
    · exact .inl rfl
    · exact .inr (mem_toList.1 hh)
  obtain ⟨m, hm⟩ := openHeads_ok h _ hmem ⟨false, false, []⟩
  have hdeleted : openDeleted C r = .ok () := by
    unfold openDeleted
    split
    · rfl
    · rename_i request hd
      obtain ⟨hv, hheld, hprev⟩ := h.deleted request hd
      simp [hv, hheld, hprev, codeCheck, ensure, bind, Except.bind]
  have hhome : openHome C r = .ok () := by
    unfold openHome
    split
    · rfl
    · rename_i home hhome
      rw [h.home home hhome]
      rfl
  have hprevious : openPrevious C r = .ok () := by
    unfold openPrevious
    split
    · rfl
    · rename_i p hp
      rw [((h.previous p hp).2.2).checkCas]
      rfl
  refine ⟨m, ?_⟩
  have hkey : (key == slotKey C r.room r.current.slot) = true := beq_iff_eq.2 h.key_eq
  simp only [openRecord, h.fits hcid, h.fromSlice_bytes, okOr, h.room, hkey, hm, hdeleted, hhome, hprevious, bind, Except.bind]
  rfl

theorem openFiles_ok (hs : ∀ k r, records.get k = some r → r.Storable C k)
    (hcid : ∀ cid, C.isValidCid cid = true → cid.utf8ByteSize ≤ 1024) (hd : d.Holds C records) (heads : Table String (List UInt8)) :
    ∀ (order : List (Sigma (fun _ : String => List UInt8))) (i : Index),
      (∀ file ∈ order, d.heads.get file.1 = some file.2) → i.records.size + order.length ≤ 65536 →
      ∃ i', openFiles C d order i heads = .ok (i', heads) ∧ i'.pendingSlots = i.pendingSlots ∧
        ∀ k, i'.records.get k = if k ∈ order.map Sigma.fst then records.get k else i.records.get k
  | [], i, _, _ => ⟨i, rfl, rfl, fun k => by simp⟩
  | file :: order, i, hfiles, hsize => by
    rw [length_cons] at hsize
    have hfile := hfiles file mem_cons_self
    rw [hd.files, map_eq_some_iff] at hfile
    obtain ⟨r, hr, hbytes⟩ := hfile
    obtain ⟨m, hm⟩ := openRecord_ok (hs _ r hr) hcid (fun head hh => hd.generations _ r head hr hh)
    have hsize' : (i.records.insert file.1 r).size ≤ i.records.size + 1 := by
      cases hk : i.records.get file.1 with
      | none => exact le_of_eq (size_insert hk r)
      | some old => exact (le_of_eq (size_replace hk r)).trans (Nat.le_succ _)
    obtain ⟨i', hopen, hpending, hget⟩ := openFiles_ok hs hcid hd heads order
      (adopt file.1 r ⟨false, false, m⟩ i heads).1 (fun x hx => hfiles x (mem_cons_of_mem _ hx)) (by
        show (i.records.insert file.1 r).size + _ ≤ _
        omega)
    refine ⟨i', ?_, hpending, fun k => ?_⟩
    · rw [openFiles, if_neg (by omega), ← hbytes, hm]
      exact hopen
    · rw [hget k, map_cons]
      show (if _ then _ else (i.records.insert file.1 r).get k) = _
      rw [get_insert]
      by_cases hk : k = file.1
      · subst hk
        simp [hr]
      · rw [if_neg hk]
        simp only [mem_cons, hk, false_or]

/-- **A disk opens as the records it holds**, whatever the order of its files, and is cleaned up. -/
theorem open_ok (hs : ∀ k r, records.get k = some r → r.Storable C k)
    (hcid : ∀ cid, C.isValidCid cid = true → cid.utf8ByteSize ≤ 1024) (hd : d.Holds C records)
    (hsize : records.size ≤ 65536) {order : List (Sigma (fun _ : String => List UInt8))}
    (horder : (order : Multiset _) = d.heads.entries) :
    ∃ i, d.open C order = .ok (i, d.cleanup C records) ∧ i.records = records ∧ i.pendingSlots = ∅ := by
  have hmem : ∀ file, file ∈ order ↔ d.heads.get file.1 = some file.2 := by
    intro file
    rw [get_eq_some_iff, ← horder, Multiset.mem_coe]
  have hlength : order.length ≤ records.size := by
    have hcard : order.length = d.heads.size := by rw [size, ← horder, Multiset.coe_card]
    rw [hcard]
    refine size_le_of_keys (fun k v hk hnone => ?_)
    rw [hd.files, hnone] at hk
    cases hk
  obtain ⟨i, hopen, hpending, hget⟩ := openFiles_ok hs hcid hd d.heads order Index.default (fun file => (hmem file).1)
    (by rw [show Index.default.records.size = 0 from rfl, Nat.zero_add]; exact hlength.trans hsize)
  have hrecords : i.records = records := by
    refine Table.ext (fun k => ?_)
    rw [hget k]
    split
    · rfl
    · rename_i hk
      cases hr : records.get k with
      | none => rfl
      | some r =>
        refine absurd (List.mem_map.2 ⟨⟨k, r.bytes⟩, (hmem _).2 ?_, rfl⟩) hk
        rw [hd.files, hr, map_some]
  refine ⟨i.rebuild C, ?_, hrecords, hpending⟩
  rw [Disk.open, hopen]
  simp only [hrecords]

end Mistl.Escrow
