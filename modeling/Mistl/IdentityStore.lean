import Mistl.FolderPaths
import Mistl.Lib.Base64Std
import Mistl.Lib.Journal
import Mistl.Lib.JsonPretty
import Mistl.Lib.Runs
/-!
# IdentityStore — the private key and its metadata on the disk

`identity/mod.rs` and `identity/backup.rs`.  An identity is two files, each replaced atomically, that are loaded only if they
agree; the key is written first, and an import backs both up before.  A process may stop after any write.
-/
open List Mistl.Table Mistl.Json Option

namespace Mistl.IdentityStore

open Folder (trim)
open Journal (Durable Work Ran after)

/-- What identities take from other crates, over their type of private keys. -/
structure Curve (Key : Type) where
  /-- `to_pkcs8_der` -/
  toPkcs8 : Key → List UInt8
  /-- `from_pkcs8_der`, an error being no result -/
  fromPkcs8 : List UInt8 → Option Key
  /-- `verifying_key().to_bytes()` -/
  verifyingKey : Key → List UInt8
  /-- `bs58::encode` -/
  b58Encode : List UInt8 → String

section Store
variable {Key : Type} (V : Curve Key)

def didFromPubkey (pubkey : List UInt8) : String := "did:key:z" ++ V.b58Encode (0xed :: 0x01 :: pubkey)

/-- `Identity`, whose DID is that of its key -/
structure Identity where
  did : String
  signingKey : Key
  createdAt : String
  derived : did = didFromPubkey V (V.verifyingKey signingKey)

structure IdentityMeta where
  did : String
  method : String
  keyType : String
  publicKeyMultibase : String
  createdAt : String

/-- What follows `did:key:` in a DID. -/
def multibase (did : String) : String := if "did:key:".toList.isPrefixOf did.toList then String.ofList (did.toList.drop 8) else did

variable {V} in
def Identity.metadata (i : Identity V) : IdentityMeta := ⟨i.did, "did:key", "Ed25519", multibase i.did, i.createdAt⟩

/-! ## Files -/

/-- `key.pkcs8.b64` -/
def keyText (key : Key) : String := String.ofList (Base64.encodeStd (V.toPkcs8 key))

/-- `meta.json` -/
def metaText (m : IdentityMeta) : String := String.ofList (prettyObject [("did", m.did), ("method", m.method), ("key_type", m.keyType),
    ("public_key_multibase", m.publicKeyMultibase), ("created_at", m.createdAt)])

def readMeta (text : String) : Option IdentityMeta := (Json.parse text.toList).bind (fun j =>
    match structFields ["did", "method", "key_type", "public_key_multibase", "created_at"] false j with
    | some [some did, some method, some keyType, some multibase, some createdAt] => do
      some ⟨← did.asStr, ← method.asStr, ← keyType.asStr, ← multibase.asStr, ← createdAt.asStr⟩
    | _ => none)

/-- The fields of a `Profile` that a first run sets. -/
structure Profile where
  displayName : Option String
  updatedAt : Option String

/-- A directory under `backup`. -/
structure Backup where
  key : Option String
  «meta» : Option String

/-- `<data_dir>/identity` -/
structure Disk where
  key : Option String
  «meta» : Option String
  profile : Option Profile
  backups : Table String Backup

def Disk.empty : Disk := ⟨none, none, none, ∅⟩

def Disk.complete (d : Disk) : Bool := d.key.isSome && d.meta.isSome

/-- What lasts: a new backup directory, and a file in it or in the identity's own directory. -/
inductive Event where
  | makeBackup (name : String)
  | backupKey (name text : String)
  | backupMeta (name text : String)
  | writeKey (text : String)
  | writeMeta (text : String)
  | writeProfile (profile : Profile)

def Disk.fill (d : Disk) (name : String) (f : Backup → Backup) : Disk :=
  { d with backups := ((d.backups.get name).map f).elim d.backups (d.backups.insert name) }

def Disk.apply (d : Disk) : Event → Disk
  | .makeBackup name => { d with backups := d.backups.insert name ⟨none, none⟩ }
  | .backupKey name text => d.fill name (fun b => { b with key := some text })
  | .backupMeta name text => d.fill name (fun b => { b with «meta» := some text })
  | .writeKey text => { d with key := some text }
  | .writeMeta text => { d with «meta» := some text }
  | .writeProfile profile => { d with profile := some profile }

instance : Durable Disk Event := ⟨Disk.apply⟩

/-! ## Loading, generating and importing -/

def loadIdentityIn (d : Disk) : Except String (Option (Identity V)) :=
  match d.key, d.meta with
  | some keyText, some metaText => do
    let bytes ← okOr (Base64.decodeStd (trim keyText.toList)) "invalid PKCS8 base64"
    let key ← okOr (V.fromPkcs8 bytes) "invalid PKCS8 key"
    let m ← okOr (readMeta metaText) "parsing meta.json"
    if h : m.did = didFromPubkey V (V.verifyingKey key) then .ok (some ⟨m.did, key, m.createdAt, h⟩)
    else .error "identity meta does not match the stored key"
  | _, _ => .ok none

def fresh (key : Key) (createdAt : String) : Identity V := ⟨_, key, createdAt, rfl⟩

/-- `generate_identity` with the key that was drawn, at a time -/
def generateIdentity (key : Key) (createdAt : String) (displayName : Option String) : Work Disk Event (Identity V) := do
  Work.emit (.writeKey (keyText V key))
  Work.emit (.writeMeta (metaText (fresh V key createdAt).metadata))
  let d ← Work.read
  if d.profile.isNone then Work.emit (.writeProfile ⟨displayName, some createdAt⟩)
  return fresh V key createdAt

def loadOrCreate (key : Key) (createdAt : String) (displayName : Option String) : Work Disk Event (Identity V) := do
  let d ← Work.read
  let loaded ← Work.lift (loadIdentityIn V d)
  match loaded with
  | some identity => return identity
  | none => generateIdentity V key createdAt displayName

/-- The backup of `import_into`, in the directory of its second. -/
def backUp (stamp : String) : Work Disk Event Unit := do
  let d ← Work.read
  if d.backups.contains stamp then Work.fail "identity backup already exists; retry the import in one second"
  else do
    Work.emit (.makeBackup stamp)
    let key ← Work.lift (okOr d.key "reading old key.pkcs8.b64")
    Work.emit (.backupKey stamp key)
    let «meta» ← Work.lift (okOr d.meta "reading old meta.json")
    Work.emit (.backupMeta stamp «meta»)

structure ImportResult where
  did : String
  previousDid : Option String
  changed : Bool
  restartRequired : Bool
  backupDir : Option String

/-- `import_into` at a second -/
def importInto (identity : Identity V) (force dryRun : Bool) (stamp : String) : Work Disk Event ImportResult := do
  let d ← Work.read
  let previous ← Work.lift (loadIdentityIn V d)
  let previousDid := previous.map Identity.did
  let changed := decide (previousDid ≠ some identity.did)
  if changed && previous.isSome && !force && !dryRun then
    Work.fail ("replacing identity " ++ previousDid.getD "" ++ " with " ++ identity.did ++ " requires force=true")
  else if !changed || dryRun then return ⟨identity.did, previousDid, changed, changed && !dryRun, none⟩
  else do
    if previous.isSome then backUp stamp
    Work.emit (.writeKey (keyText V identity.signingKey))
    Work.emit (.writeMeta (metaText identity.metadata))
    return ⟨identity.did, previousDid, changed, changed && !dryRun, if previous.isSome then some stamp else none⟩

/-! ## Runs -/

/-- A daemon loads its identity when it starts; a command imports one. -/
inductive Op where
  | loadOrCreate (key : Key) (createdAt : String) (displayName : Option String)
  | importInto (identity : Identity V) (force dryRun : Bool) (stamp : String)

variable {V}

def Op.events (d : Disk) : Op V → List Event
  | .loadOrCreate key createdAt displayName => (IdentityStore.loadOrCreate V key createdAt displayName d).events
  | .importInto identity force dryRun stamp => (IdentityStore.importInto V identity force dryRun stamp d).events

def Op.identity : Op V → Identity V
  | .loadOrCreate key createdAt _ => fresh V key createdAt
  | .importInto identity _ _ _ => identity

/-- The disk, and the identities whose key was written so far. -/
structure World (V : Curve Key) where
  disk : Disk
  offered : List (Identity V)

def World.start : World V := ⟨.empty, []⟩

/-- An operation that the process stops after so many effects, or that fails there; or that is done before. -/
structure Step (V : Curve Key) where
  op : Op V
  stop : Nat

def Event.isKey : Event → Bool
  | .writeKey _ => true
  | _ => false

/-- What an operation wrote before it stopped lasts. -/
def World.step (x : World V) (s : Step V) : World V :=
  let written := (s.op.events x.disk).take s.stop
  ⟨after x.disk written, if written.any Event.isKey then x.offered ++ [s.op.identity] else x.offered⟩

def World.run (x : World V) (steps : List (Step V)) : World V := steps.foldl World.step x

def endsInKey (es : List Event) : Bool := es.getLast?.any Event.isKey

/-- The process does not stop between the key and the metadata of an import that replaces a stored identity. -/
def World.whole (x : World V) (s : Step V) : Bool := !(x.disk.complete && endsInKey ((s.op.events x.disk).take s.stop))

def World.Survives (x : World V) : Prop := x.disk.complete = true → ∃ i ∈ x.offered, loadIdentityIn V x.disk = .ok (some i)

/-! ## What was written reads back -/

theorem trim_encodeStd (bytes : List UInt8) : trim (Base64.encodeStd bytes) = Base64.encodeStd bytes := by
  have hblank : ∀ c ∈ Base64.encodeStd bytes, Authz.isWhitespace c = false := by
    intro c hc
    obtain ⟨hlo, hhi⟩ := Base64.encodeStd_graphic bytes c hc
    simp [Authz.isWhitespace]
    omega
  unfold trim
  rw [dropWhile_eq_self_iff.2 (fun h => by rw [hblank _ (getElem_mem _)]; decide),
    rdropWhile_eq_self_iff.2 (fun h => by rw [hblank _ (getLast_mem h)]; decide)]

theorem readMeta_metaText (m : IdentityMeta) : readMeta (metaText m) = some m := by
  unfold readMeta metaText
  rw [String.toList_ofList, parse_prettyObject (by simp)]
  rfl

/-! ## What an operation writes -/

variable {d : Disk} {i : Identity V}

theorem load_eq_ok_some {prev : Identity V} (h : loadIdentityIn V d = .ok (some prev)) :
    ∃ key «meta», d.key = some key ∧ d.meta = some «meta» := by
  unfold loadIdentityIn at h
  split at h
  · rename_i key «meta» hkey hmeta
    exact ⟨key, «meta», hkey, hmeta⟩
  · cases h

theorem load_eq_ok_none (h : loadIdentityIn V d = .ok none) : d.key = none ∨ d.meta = none := by
  unfold loadIdentityIn at h
  split at h
  · simp only [okOr_bind_eq_ok] at h
    obtain ⟨bytes, -, key, -, m, -, h⟩ := h
    split at h <;> cases h
  · rename_i hnone
    cases hkey : d.key with
    | none => exact .inl rfl
    | some key =>
      cases hmeta : d.meta with
      | none => exact .inr rfl
      | some «meta» => exact absurd hmeta (hnone key «meta» hkey)

def storeEvents (i : Identity V) : List Event := [.writeKey (keyText V i.signingKey), .writeMeta (metaText i.metadata)]

theorem loadOrCreate_events (key : Key) (createdAt : String) (displayName : Option String) :
    (IdentityStore.loadOrCreate V key createdAt displayName d).events = [] ∨
    loadIdentityIn V d = .ok none ∧ ∃ profile, (profile = [] ∨ ∃ p, profile = [.writeProfile p]) ∧
      (IdentityStore.loadOrCreate V key createdAt displayName d).events = storeEvents (fresh V key createdAt) ++ profile := by
  unfold loadOrCreate
  rw [Journal.read_bind]
  cases hload : loadIdentityIn V d with
  | error e => exact .inl rfl
  | ok loaded =>
    cases loaded with
    | some identity => exact .inl rfl
    | none =>
      change (generateIdentity V key createdAt displayName d).events = [] ∨ _ ∧ ∃ profile, _ ∧
        (generateIdentity V key createdAt displayName d).events = storeEvents (fresh V key createdAt) ++ profile
      unfold generateIdentity
      rw [Journal.emit_bind, Journal.emit_bind, Journal.read_bind]
      split
      · exact .inr ⟨rfl, _, .inr ⟨_, rfl⟩, rfl⟩
      · exact .inr ⟨rfl, _, .inl rfl, rfl⟩

theorem backUp_taken {stamp : String} {b : Backup} (hstamp : d.backups.get stamp = some b) :
    backUp stamp d = ⟨[], .error "identity backup already exists; retry the import in one second"⟩ := by
  unfold backUp
  rw [Journal.read_bind, if_pos (Table.contains_iff.2 ⟨b, hstamp⟩)]
  rfl

theorem backUp_new {stamp key «meta» : String} (hkey : d.key = some key) (hmeta : d.meta = some «meta»)
    (hstamp : d.backups.get stamp = none) :
    backUp stamp d = ⟨[.makeBackup stamp, .backupKey stamp key, .backupMeta stamp «meta»], .ok ()⟩ := by
  unfold backUp
  rw [Journal.read_bind, if_neg (by rw [contains_eq_false.2 hstamp]; decide), Journal.emit_bind, hkey, okOr,
    Journal.lift_ok_bind, Journal.emit_bind, hmeta, okOr]
  rfl

theorem importInto_events (force dryRun : Bool) (stamp : String) : (importInto V i force dryRun stamp d).events = [] ∨
    loadIdentityIn V d = .ok none ∧ (importInto V i force dryRun stamp d).events = storeEvents i ∨
    ∃ prev key «meta», loadIdentityIn V d = .ok (some prev) ∧ prev.did ≠ i.did ∧ d.key = some key ∧ d.meta = some «meta» ∧
      d.backups.get stamp = none ∧ (importInto V i force dryRun stamp d).events =
        [.makeBackup stamp, .backupKey stamp key, .backupMeta stamp «meta»] ++ storeEvents i := by
  unfold importInto
  rw [Journal.read_bind]
  cases hload : loadIdentityIn V d with
  | error e => exact .inl rfl
  | ok previous =>
    rw [Journal.lift_ok_bind]
    split
    · exact .inl rfl
    · split
      · exact .inl rfl
      · rename_i hchanged
        cases previous with
        | none => exact .inr (.inl ⟨rfl, rfl⟩)
        | some prev =>
          obtain ⟨key, «meta», hkey, hmeta⟩ := load_eq_ok_some hload
          have hne : prev.did ≠ i.did ∧ dryRun = false := by simpa using hchanged
          rw [if_pos (by rfl)]
          cases hstamp : d.backups.get stamp with
          | some b =>
            rw [Journal.bind_of_error (backUp_taken hstamp)]
            exact .inl rfl
          | none =>
            rw [Journal.bind_of_ok (backUp_new hkey hmeta hstamp)]
            exact .inr (.inr ⟨prev, key, «meta», rfl, hne.1, hkey, hmeta, rfl, rfl⟩)

def Event.quiet : Event → Bool
  | .writeKey _ | .writeMeta _ => false
  | _ => true

theorem Op.events_cases (op : Op V) (d : Disk) : op.events d = [] ∨
    ∃ pre post, (∀ e ∈ pre, e.quiet = true) ∧ (∀ e ∈ post, e.quiet = true) ∧ op.events d = pre ++ (storeEvents op.identity ++ post) ∧
      (loadIdentityIn V d = .ok none ∨ ∃ prev, loadIdentityIn V d = .ok (some prev) ∧ prev.did ≠ op.identity.did) := by
  cases op with
  | loadOrCreate key createdAt displayName =>
    rcases @loadOrCreate_events Key V d key createdAt displayName with hnone | ⟨hload, profile, hprofile, hevents⟩
    · exact .inl hnone
    · refine .inr ⟨[], profile, fun e he => (by cases he), fun e he => ?_, hevents, .inl hload⟩
      rcases hprofile with rfl | ⟨p, rfl⟩
      · cases he
      · rw [mem_singleton.1 he]
        rfl
  | importInto identity force dryRun stamp =>
    rcases @importInto_events Key V d identity force dryRun stamp with
      hnone | ⟨hload, hevents⟩ | ⟨prev, key, «meta», hload, hne, -, -, -, hevents⟩
    · exact .inl hnone
    · exact .inr ⟨[], [], fun e he => (by cases he), fun e he => (by cases he), hevents, .inl hload⟩
    · refine .inr ⟨_, [], fun e he => ?_, fun e he => (by cases he), hevents, .inr ⟨prev, hload, hne⟩⟩
      simp only [mem_cons, not_mem_nil, or_false] at he
      rcases he with rfl | rfl | rfl <;> rfl

theorem after_quiet : ∀ {es : List Event} {d : Disk}, (∀ e ∈ es, e.quiet = true) → (after d es).key = d.key ∧ (after d es).meta = d.meta
  | [], _, _ => ⟨rfl, rfl⟩
  | e :: es, d, h => by
    have hrest := @after_quiet es (d.apply e) (fun e' he' => h e' (mem_cons_of_mem _ he'))
    have hquiet := h e mem_cons_self
    have he : (d.apply e).key = d.key ∧ (d.apply e).meta = d.meta := by
      cases e with
      | writeKey text | writeMeta text => cases hquiet
      | makeBackup | backupKey | backupMeta | writeProfile => exact ⟨rfl, rfl⟩
    exact ⟨hrest.1.trans he.1, hrest.2.trans he.2⟩

theorem quiet_take {es : List Event} (h : ∀ e ∈ es, e.quiet = true) (n : Nat) : ∀ e ∈ es.take n, e.quiet = true :=
  fun e he => h e (mem_of_mem_take he)

theorem endsInKey_quiet {es : List Event} (h : ∀ e ∈ es, e.quiet = true) : endsInKey es = false := by
  unfold endsInKey
  cases hlast : es.getLast? with
  | none => rfl
  | some e =>
    have hquiet := h e (mem_of_getLast? hlast)
    cases e with
    | writeKey text | writeMeta text => cases hquiet
    | makeBackup | backupKey | backupMeta | writeProfile => rfl

def Disk.holds (d : Disk) (i : Identity V) : Prop := d.key = some (keyText V i.signingKey) ∧ d.meta = some (metaText i.metadata)

variable (hpkcs8 : ∀ key, V.fromPkcs8 (V.toPkcs8 key) = some key)
include hpkcs8

theorem load_of_texts {d : Disk} {key : Key} {m : IdentityMeta} (hkey : d.key = some (keyText V key))
    (hmeta : d.meta = some (metaText m)) : loadIdentityIn V d =
      if h : m.did = didFromPubkey V (V.verifyingKey key) then .ok (some ⟨m.did, key, m.createdAt, h⟩)
      else .error "identity meta does not match the stored key" := by
  unfold loadIdentityIn
  rw [hkey, hmeta]
  simp only [keyText, String.toList_ofList, trim_encodeStd, Base64.decodeStd_encodeStd, readMeta_metaText]
  change (okOr (V.fromPkcs8 (V.toPkcs8 key)) _ >>= _) = _
  rw [hpkcs8]
  rfl

theorem load_of_holds {d : Disk} {i : Identity V} (h : d.holds i) : loadIdentityIn V d = .ok (some i) := by
  rw [load_of_texts hpkcs8 h.1 h.2]
  exact dif_pos i.derived

omit hpkcs8 in
theorem after_take {pre post : List Event} (hpre : ∀ e ∈ pre, e.quiet = true) (hpost : ∀ e ∈ post, e.quiet = true)
    (i : Identity V) (d : Disk) (n : Nat) :
    ∃ es, (pre ++ (storeEvents i ++ post)).take n = es ∧ ((after d es).key = d.key ∧ (after d es).meta = d.meta ∧ endsInKey es = false ∨
        (after d es).key = some (keyText V i.signingKey) ∧ (after d es).meta = d.meta ∧ endsInKey es = true ∨
        (after d es).holds i ∧ endsInKey es = false ∧ es.any Event.isKey = true) := by
  refine ⟨_, rfl, ?_⟩
  rw [take_append]
  obtain ⟨hkey, hmeta⟩ := @after_quiet (pre.take n) d (quiet_take hpre n)
  obtain hzero | ⟨m, hm⟩ : n - pre.length = 0 ∨ ∃ m, n - pre.length = m + 1 := by
    cases n - pre.length with
    | zero => exact .inl rfl
    | succ m => exact .inr ⟨m, rfl⟩
  · rw [hzero, take_zero, append_nil]
    exact .inl ⟨hkey, hmeta, endsInKey_quiet (quiet_take hpre n)⟩
  · rw [hm, Journal.after_append]
    cases m with
    | zero =>
      refine .inr (.inl ⟨rfl, hmeta, ?_⟩)
      unfold endsInKey
      rw [getLast?_append]
      rfl
    | succ m =>
      have hquiet := quiet_take hpost m
      obtain ⟨hkey', hmeta'⟩ := @after_quiet (post.take m) (after (after d (pre.take n)) (storeEvents i)) hquiet
      refine .inr (.inr ⟨⟨hkey', hmeta'⟩, ?_, by rw [any_append]; exact Bool.or_true _⟩)
      unfold endsInKey
      rw [getLast?_append]
      change ((Event.writeKey (keyText V i.signingKey) :: Event.writeMeta (metaText i.metadata) :: post.take m).getLast?.or
        _).any Event.isKey = false
      rw [getLast?_cons_cons, getLast?_cons, some_or]
      cases hlast : (post.take m).getLast? with
      | none => rfl
      | some e =>
        have hend := endsInKey_quiet hquiet
        rw [endsInKey, hlast] at hend
        exact hend

/-! ## Stored and loaded -/

def World.Stored (x : World V) : Prop := x.disk.meta = none ∨ ∃ i ∈ x.offered, x.disk.holds i

variable {x : World V}

theorem World.Stored.survives (h : x.Stored) : x.Survives := by
  intro hcomplete
  rcases h with hnone | ⟨i, hi, hholds⟩
  · rw [Disk.complete, hnone, isSome_none, Bool.and_false] at hcomplete
    cases hcomplete
  · exact ⟨i, hi, load_of_holds hpkcs8 hholds⟩

omit hpkcs8 in
theorem offered_step (s : Step V) (h : i ∈ x.offered) : i ∈ (x.step s).offered := by
  unfold World.step
  dsimp only
  split
  · exact mem_append_left _ h
  · exact h

omit hpkcs8 in
theorem step_cases (x : World V) (s : Step V) :
    ((x.step s).disk.key = x.disk.key ∧ (x.step s).disk.meta = x.disk.meta ∧ x.whole s = true) ∨
    ((x.step s).disk.key = some (keyText V s.op.identity.signingKey) ∧ (x.step s).disk.meta = x.disk.meta ∧
      x.whole s = !x.disk.complete ∧
      (loadIdentityIn V x.disk = .ok none ∨ ∃ prev, loadIdentityIn V x.disk = .ok (some prev) ∧ prev.did ≠ s.op.identity.did)) ∨
    ((x.step s).disk.holds s.op.identity ∧ x.whole s = true ∧ s.op.identity ∈ (x.step s).offered) := by
  unfold World.step World.whole
  dsimp only
  rcases s.op.events_cases x.disk with hnone | ⟨pre, post, hpre, hpost, hevents, hload⟩
  · rw [hnone, take_nil]
    exact .inl ⟨rfl, rfl, by simp [endsInKey]⟩
  · obtain ⟨es, htake, hcases⟩ := after_take hpre hpost s.op.identity x.disk s.stop
    rw [hevents, htake]
    rcases hcases with ⟨hkey, hmeta, hends⟩ | ⟨hkey, hmeta, hends⟩ | ⟨hholds, hends, hwritten⟩
    · exact .inl ⟨hkey, hmeta, by rw [hends, Bool.and_false]; rfl⟩
    · exact .inr (.inl ⟨hkey, hmeta, by rw [hends, Bool.and_true], hload⟩)
    · refine .inr (.inr ⟨hholds, by rw [hends, Bool.and_false]; rfl, ?_⟩)
      rw [if_pos hwritten]
      exact mem_append_right _ mem_cons_self

omit hpkcs8 in
theorem World.Stored.step {s : Step V} (h : x.Stored) (hwhole : x.whole s = true) : (x.step s).Stored := by
  rcases step_cases x s with ⟨hkey, hmeta, -⟩ | ⟨-, hmeta, htorn, -⟩ | ⟨hholds, -, hoffered⟩
  · rcases h with hnone | ⟨i, hi, hholds⟩
    · exact .inl (hmeta.trans hnone)
    · exact .inr ⟨i, offered_step s hi, hkey.trans hholds.1, hmeta.trans hholds.2⟩
  · rw [htorn] at hwhole
    rcases h with hnone | ⟨i, -, hholds⟩
    · exact .inl (hmeta.trans hnone)
    · rw [Disk.complete, hholds.1, hholds.2] at hwhole
      cases hwhole
  · exact .inr ⟨_, hoffered, hholds⟩

theorem torn_step {s : Step V} (h : x.Stored) (hnot : x.whole s = false) : ¬ (x.step s).Survives := by
  intro hsurvives
  rcases step_cases x s with ⟨-, -, hwhole⟩ | ⟨hkey, hmeta, htorn, hload⟩ | ⟨-, hwhole, -⟩
  · rw [hwhole] at hnot
    cases hnot
  · rw [hnot] at htorn
    have hcomplete : x.disk.complete = true := by simpa using htorn.symm
    obtain ⟨old, hold⟩ : ∃ old : Identity V, x.disk.holds old := by
      rcases h with hnone | ⟨i, -, hholds⟩
      · rw [Disk.complete, hnone, isSome_none, Bool.and_false] at hcomplete
        cases hcomplete
      · exact ⟨i, hholds⟩
    have hne : old.did ≠ s.op.identity.did := by
      rw [load_of_holds hpkcs8 hold] at hload
      rcases hload with hload | ⟨prev, hload, hne⟩
      · cases hload
      · cases hload
        exact hne
    obtain ⟨j, -, hj⟩ := hsurvives (by rw [Disk.complete, hkey, hmeta, hold.2]; rfl)
    rw [load_of_texts hpkcs8 hkey (hmeta.trans hold.2), dif_neg] at hj
    · cases hj
    · intro hdid
      exact hne (hdid.trans s.op.identity.derived.symm)
  · rw [hwhole] at hnot
    cases hnot

theorem survives_iff_whole : ∀ {steps : List (Step V)} {x : World V}, x.Stored →
    ((∀ n, (x.run (steps.take n)).Survives) ↔ Runs.along (fun x s => some (World.step x s)) World.whole x steps = true)
  | [], x, h => ⟨fun _ => rfl, fun _ n => by rw [take_nil]; exact h.survives hpkcs8⟩
  | s :: steps, x, h => by
    rw [Runs.along_cons rfl]
    constructor
    · intro hall
      have hwhole : x.whole s = true := by
        cases hw : x.whole s with
        | true => rfl
        | false => exact absurd (hall 1) (torn_step hpkcs8 h hw)
      exact ⟨hwhole, (survives_iff_whole (h.step hwhole)).1 (fun n => hall (n + 1))⟩
    · rintro ⟨hwhole, halong⟩ n
      cases n with
      | zero => exact h.survives hpkcs8
      | succ n => exact (survives_iff_whole (h.step hwhole)).2 halong n
omit hpkcs8

/-! ## Keys are kept -/

variable (V) in
def readKey (text : String) : Option Key := (Base64.decodeStd (trim text.toList)).bind V.fromPkcs8

variable (V) in
def Disk.KeyKept (d : Disk) (key : Key) : Prop := (∃ text, d.key = some text ∧ readKey V text = some key) ∨
    ∃ name b text, d.backups.get name = some b ∧ b.key = some text ∧ readKey V text = some key

def Disk.Held (d : Disk) (text : String) : Prop :=
  d.key = some text ∧ d.meta ≠ none ∨ ∃ name b, d.backups.get name = some b ∧ b.key = some text

/-- A key that is stored with metadata is written over only when it is backed up; no backup is written over. -/
def Keeps (d : Disk) : Event → Prop
  | .makeBackup name => d.backups.get name = none
  | .backupKey name _ => ∀ b, d.backups.get name = some b → b.key = none
  | .writeKey _ => d.key = none ∨ d.meta = none ∨ ∃ text name b, d.key = some text ∧ d.backups.get name = some b ∧ b.key = some text
  | _ => True

theorem get_fill (d : Disk) (name name' : String) (f : Backup → Backup) :
    (d.fill name f).backups.get name' = if name' = name then (d.backups.get name).map f else d.backups.get name' := by
  unfold Disk.fill
  cases hget : d.backups.get name with
  | none =>
    split
    · rename_i hname
      rw [hname]
      exact hget
    · rfl
  | some b => exact get_insert _ _ _ _

theorem Disk.Held.apply {text : String} {e : Event} (h : d.Held text) (hkeeps : Keeps d e) : (d.apply e).Held text := by
  rcases h with ⟨hkey, hmeta⟩ | ⟨name, b, hget, hb⟩
  · cases e with
    | writeKey new =>
      rcases hkeeps with hnone | hnone | ⟨old, name, b, hold, hget, hb⟩
      · rw [hkey] at hnone
        cases hnone
      · exact absurd hnone hmeta
      · rw [hkey] at hold
        cases hold
        exact .inr ⟨name, b, hget, hb⟩
    | writeMeta new => exact .inl ⟨hkey, by simp [Disk.apply]⟩
    | makeBackup | backupKey | backupMeta | writeProfile => exact .inl ⟨hkey, hmeta⟩
  · refine .inr ?_
    cases e with
    | makeBackup new =>
      refine ⟨name, b, (get_insert_ne ?_ _ _).trans hget, hb⟩
      rintro rfl
      rw [hkeeps] at hget
      cases hget
    | backupKey new _ =>
      refine ⟨name, b, ?_, hb⟩
      refine (get_fill _ _ _ _).trans ?_
      rw [if_neg]
      · exact hget
      · rintro rfl
        rw [hkeeps b hget] at hb
        cases hb
    | backupMeta new t =>
      by_cases hname : name = new
      · refine ⟨name, { b with «meta» := some t }, (get_fill _ _ _ _).trans ?_, hb⟩
        rw [if_pos hname, ← hname, hget]
        rfl
      · exact ⟨name, b, (get_fill _ _ _ _).trans ((if_neg hname).trans hget), hb⟩
    | writeKey | writeMeta | writeProfile => exact ⟨name, b, hget, hb⟩

theorem Op.keeps (op : Op V) (d : Disk) : Journal.Allows Keeps d (op.events d) := by
  have hstore : ∀ {i : Identity V} {post : List Event}, loadIdentityIn V d = .ok none →
      (post = [] ∨ ∃ p, post = [.writeProfile p]) → Journal.Allows Keeps d (storeEvents i ++ post) := by
    intro i post hload hpost
    refine ⟨(load_eq_ok_none hload).imp_right .inl, trivial, ?_⟩
    rcases hpost with rfl | ⟨p, rfl⟩
    · trivial
    · exact ⟨trivial, trivial⟩
  cases op with
  | loadOrCreate key createdAt displayName =>
    rcases @loadOrCreate_events Key V d key createdAt displayName with hnone | ⟨hload, profile, hprofile, hevents⟩
    · rw [Op.events, hnone]
      trivial
    · rw [Op.events, hevents]
      exact hstore hload hprofile
  | importInto identity force dryRun stamp =>
    rcases @importInto_events Key V d identity force dryRun stamp with
      hnone | ⟨hload, hevents⟩ | ⟨prev, key, «meta», -, -, hkey, -, hstamp, hevents⟩
    · rw [Op.events, hnone]
      trivial
    · rw [Op.events, hevents]
      exact hstore hload (.inl rfl)
    · rw [Op.events, hevents]
      have hmade : (d.backups.insert stamp ⟨none, none⟩).get stamp = some ⟨none, none⟩ := by
        rw [get_insert, if_pos rfl]
      have hfirst : ((d.apply (.makeBackup stamp)).apply (.backupKey stamp key)).backups.get stamp = some ⟨some key, none⟩ := by
        refine (get_fill _ _ _ _).trans ?_
        rw [if_pos rfl]
        exact congrArg _ hmade
      have hsecond : (((d.apply (.makeBackup stamp)).apply (.backupKey stamp key)).apply
          (.backupMeta stamp «meta»)).backups.get stamp = some ⟨some key, some «meta»⟩ := by
        refine (get_fill _ _ _ _).trans ?_
        rw [if_pos rfl, hfirst]
        rfl
      refine ⟨hstamp, fun b hb => ?_, trivial, .inr (.inr ⟨key, stamp, _, hkey, hsecond, rfl⟩), trivial, trivial⟩
      change (d.backups.insert stamp ⟨none, none⟩).get stamp = some b at hb
      rw [hmade] at hb
      cases hb
      rfl

theorem held_run {text : String} : ∀ {steps : List (Step V)} {x : World V}, x.disk.Held text → (x.run steps).disk.Held text
  | [], _, h => h
  | s :: steps, x, h => by
    have hstep : (x.step s).disk.Held text :=
      @Journal.Allows.invariant Disk Event _ Keeps (fun d => d.Held text) (fun _ _ h hkeeps => h.apply hkeeps) _ _ h
        ((s.op.keeps x.disk).take s.stop)
    exact held_run (x := x.step s) hstep

theorem readKey_of_load (h : loadIdentityIn V d = .ok (some i)) :
    ∃ text, d.key = some text ∧ d.meta ≠ none ∧ readKey V text = some i.signingKey := by
  unfold loadIdentityIn at h
  split at h
  · rename_i text «meta» hkey hmeta
    simp only [okOr_bind_eq_ok] at h
    obtain ⟨bytes, hbytes, key, hread, m, -, h⟩ := h
    split at h
    · cases h
      exact ⟨text, hkey, by rw [hmeta]; nofun, by rw [readKey, hbytes]; exact hread⟩
    · cases h
  · cases h

/-- **An identity survives exactly where no import is cut between its two files.**  In every run from an empty
directory; and in every run, whatever stops it, a private key that was once loaded is the current one or in a backup
directory. -/
theorem identity_survives {Key : Type} (V : Curve Key) (hpkcs8 : ∀ key, V.fromPkcs8 (V.toPkcs8 key) = some key) :
    (∀ steps : List (Step V), (∀ n, (World.start.run (steps.take n)).Survives) ↔
      Runs.along (fun x s => some (World.step x s)) World.whole World.start steps = true) ∧
    ∀ (steps steps' : List (Step V)) (i : Identity V), loadIdentityIn V (World.start.run steps).disk = .ok (some i) →
      ((World.start.run steps).run steps').disk.KeyKept V i.signingKey := by
  refine ⟨fun steps => survives_iff_whole hpkcs8 (.inl rfl), fun steps steps' i hload => ?_⟩
  obtain ⟨text, hkey, hmeta, hread⟩ := readKey_of_load hload
  rcases @held_run Key V text steps' _ (.inl ⟨hkey, hmeta⟩) with ⟨hkey', -⟩ | ⟨name, b, hget, hb⟩
  · exact .inl ⟨text, hkey', hread⟩
  · exact .inr ⟨name, b, text, hget, hb, hread⟩

end Store

/-! ## Two runs -/

def sampleCurve : Curve (List UInt8) where
  toPkcs8 := fun key => [0x30, 0x2e, 0x02, 0x01, 0x00, 0x30, 0x05, 0x06, 0x03, 0x2b, 0x65, 0x70, 0x04, 0x22, 0x04, 0x20] ++ key
  fromPkcs8 := fun der => some (der.drop 16)
  verifyingKey := fun key => key
  b58Encode := fun bytes => String.ofList (Base64.encode bytes)

theorem sampleCurve_pkcs8 (key : List UInt8) : sampleCurve.fromPkcs8 (sampleCurve.toPkcs8 key) = some key :=
  congrArg some (drop_left' rfl)

def firstIdentity : Step sampleCurve := ⟨.loadOrCreate [1, 2, 3] "2026-01-01T00:00:00+00:00" none, 3⟩

def replacing (stop : Nat) : Step sampleCurve :=
  ⟨.importInto (fresh sampleCurve [4, 5, 6] "2026-02-02T00:00:00+00:00") true false "20260202T000000Z", stop⟩

theorem identity_survives_backup : (World.start.run [firstIdentity, replacing 2]).Survives ∧
    ∀ i, loadIdentityIn sampleCurve (World.start.run [firstIdentity]).disk = .ok (some i) →
      ((World.start.run [firstIdentity]).run [replacing 5]).disk.KeyKept sampleCurve i.signingKey := by
  obtain ⟨hsurvives, hkept⟩ := identity_survives sampleCurve sampleCurve_pkcs8
  exact ⟨(hsurvives [firstIdentity, replacing 2]).2 (by decide +kernel) 2, fun i hload => hkept _ _ i hload⟩

/-- **The process stops between the two files of an import**: an identity was stored, and none is loaded any more. -/
theorem torn_import_loads_none : (World.start.run [firstIdentity]).disk.complete = true ∧
    (loadIdentityIn sampleCurve (World.start.run [firstIdentity, replacing 4]).disk).isOk = false := by
  refine ⟨?_, ?_⟩
  · decide
  · decide +kernel

end Mistl.IdentityStore
