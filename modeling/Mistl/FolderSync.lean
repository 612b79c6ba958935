import Mistl.FolderResync
/-!
# FolderSync — a sync entry and its two tasks

`storage/folder_sync.rs` for one entry: the handler and the retry each take a copy of the entry and go from await to await;
what they find is recorded under its lock.  The network, the content store, the file system and the (verified) envelopes
are the environment's; `announced`, `recorded`, `changes`, `owned` and `applied` are kept for the statements.
-/
namespace Mistl.Folder

/-- A verified `ShareEnvelope`; `sender` is its `from`. -/
structure Envelope where
  kind : String
  sender : String
  roomId : String
  clock : Int
  changeType : Option String
  folderSignature : Option String
  folderId : Option String
  fileId : Option String
  file : Option FileRecord
  cid : Option String
  deriving DecidableEq

inductive Status where
  | connecting
  | synced
  | error
  deriving DecidableEq

/-- `SyncEntry`, and the announcement that its `last_cid` is from -/
structure SyncEntry where
  folderId : String
  ownerNodeId : String
  roomId : String
  folderKey : String
  status : Status
  lastCid : Option String
  lastFolderSignature : Option String
  lastClock : Int
  folders : Table String FolderRecord
  files : List SyncedFile
  announced : Option Envelope

def resyncNeeded (entry : SyncEntry) (newCid : String) (newSignature : Option String) : Bool :=
  if entry.lastCid ≠ some newCid then true
  else match entry.lastFolderSignature, newSignature with
    | some old, some new => old ≠ new
    | _, _ => false

def envelopeFromOwner (entry : SyncEntry) (envelope : Envelope) : Bool :=
  envelope.sender = entry.ownerNodeId && envelope.roomId = entry.roomId

def envelopeClockFresh (entry : SyncEntry) (envelope : Envelope) : Bool := envelope.clock ≤ 0 || entry.lastClock < envelope.clock

def clockedKinds : List String := ["folder-change", "folder-state", "folder-share"]

def Envelope.newCid (envelope : Envelope) : Option String := envelope.cid.filter (· ≠ "")

/-- The resync that is under way: its bundle, what it records, and the key if it was just granted. -/
structure Goal where
  cid : String
  signature : Option String
  granted : Option String
  folderKey : String
  bundle : FolderBundle

/-- What a task is at: a bundle's fetch, its files one by one and then the removals; a file's upsert; a file's delete. -/
inductive Job where
  | bundle (previous : List SyncedFile) (cid : String) (signature : Option String) (granted : Option String)
    (folderKey : String)
  | sync (goal : Goal) (fetch : List FetchItem) (files : List SyncedFile) (removePaths : List String)
  | upsertFetch (snapshot : SyncEntry) (file : FileRecord)
  | upsertRemove (snapshot : SyncEntry) (file : FileRecord) (rel : String) (data : Bytes)
  | upsertWrite (file : FileRecord) (rel : String) (data : Bytes)
  | upsertRecord (file : FileRecord) (rel : String)
  | deleteRemove (fileId : String) (row : SyncedFile)
  | deleteRecord (fileId : String)

inductive Task where
  | idle
  | found (envelope : Envelope) (snapshot : SyncEntry)
  | accepted (envelope : Envelope) (snapshot : SyncEntry)
  | waiting (snapshot : SyncEntry) (granted : Option String)
  | job (announcement : Envelope) (job : Job)
  | failing

inductive Who where
  | handler
  | retry
  deriving DecidableEq

def Who.other : Who → Who
  | .handler => .retry
  | .retry => .handler

theorem Who.eq_or_other (a b : Who) : b = a ∨ b = a.other := by
  cases a <;> cases b <;> decide

theorem Who.other_ne (a : Who) : a.other ≠ a := by cases a <;> decide

inductive Change where
  | upserted (file : FileRecord)
  | deleted (fileId : String)

structure Sync where
  entry : SyncEntry
  disk : Disk
  tasks : Who → Task
  recorded : List FileRecord
  changes : List Change
  owned : List Path
  applied : List (Who × Envelope)

namespace Sync

def setTask (x : Sync) (who : Who) (task : Task) : Sync := { x with tasks := Function.update x.tasks who task }

@[simp] theorem tasks_setTask (x : Sync) (who : Who) (task : Task) : (x.setTask who task).tasks who = task := Function.update_self ..

def initial (folderId ownerNodeId roomId : String) (disk : Disk) : Sync :=
  ⟨⟨folderId, ownerNodeId, roomId, "", .connecting, none, none, 0, ∅, [], none⟩, disk, fun _ => .idle, [], [], [], []⟩

end Sync

/-- `apply_file_delete`, as far as its first await -/
def applyFileDelete (snapshot : SyncEntry) (envelope : Envelope) : Task :=
  match (envelope.fileId.or (envelope.file.map FileRecord.id)).filter (· ≠ "") with
  | none => .idle
  | some fileId =>
    match previousOf snapshot.files fileId with
    | none => .idle
    | some row => .job envelope (.deleteRemove fileId row)

/-- `apply_file_upsert`, as far as its first await -/
def applyFileUpsert (snapshot : SyncEntry) (envelope : Envelope) : Task :=
  match envelope.file with
  | none => .idle
  | some file =>
    if file.id = "" then .idle
    else if fileDeleted file then applyFileDelete snapshot envelope
    else .job envelope (.upsertFetch snapshot file)

/-- `full_resync`, as far as its first await -/
def fullResync (snapshot : SyncEntry) (announcement : Envelope) (cid : String) (signature : Option String) : Task :=
  .job announcement (.bundle snapshot.files cid signature none snapshot.folderKey)

/-- `handle_folder_change`, as far as its first await -/
def handleFolderChange (snapshot : SyncEntry) (envelope : Envelope) : Task :=
  if envelope.changeType = some "file-upserted" then applyFileUpsert snapshot envelope
  else if envelope.changeType = some "file-deleted" then applyFileDelete snapshot envelope
  else if envelope.changeType = some "folder-upserted" ∨ envelope.changeType = some "folder-deleted" then
    match envelope.newCid with
    | some cid => fullResync snapshot envelope cid envelope.folderSignature
    | none => .idle
  else .idle

/-- `handle_folder_state`: the signature that a heartbeat adds, and the task -/
def handleFolderState (snapshot : SyncEntry) (envelope : Envelope) : Option String × Task :=
  match envelope.newCid with
  | none => (none, .idle)
  | some cid =>
    if resyncNeeded snapshot cid envelope.folderSignature then
      (none, fullResync snapshot envelope cid envelope.folderSignature)
    else if snapshot.lastFolderSignature = none then (envelope.folderSignature, .idle)
    else (none, .idle)

/-- The end of `handle_envelope`: the signature that is kept, and the task -/
def handle (snapshot : SyncEntry) (envelope : Envelope) : Option String × Task :=
  if envelope.kind = "folder-change" then (none, handleFolderChange snapshot envelope)
  else if envelope.kind = "folder-state" ∨ envelope.kind = "folder-share" then handleFolderState snapshot envelope
  else (none, .idle)

def Job.opening : Job → Bool
  | .bundle _ _ _ _ _ => true
  | .upsertFetch _ _ => true
  | .deleteRemove _ _ => true
  | _ => false

/-- **What the handler goes on to** is nothing, or the beginning of a job for a kind of envelope whose clock is kept. -/
theorem handle_opening (snapshot : SyncEntry) (envelope : Envelope) : (handle snapshot envelope).2 = .idle ∨
      envelope.kind ∈ clockedKinds ∧ ∃ job, (handle snapshot envelope).2 = .job envelope job ∧ job.opening = true := by
  have hdelete : applyFileDelete snapshot envelope = .idle ∨
      ∃ job, applyFileDelete snapshot envelope = .job envelope job ∧ job.opening = true := by
    unfold applyFileDelete
    split
    · exact .inl rfl
    · split
      · exact .inl rfl
      · exact .inr ⟨_, rfl, rfl⟩
  have hupsert : applyFileUpsert snapshot envelope = .idle ∨
      ∃ job, applyFileUpsert snapshot envelope = .job envelope job ∧ job.opening = true := by
    unfold applyFileUpsert
    split
    · exact .inl rfl
    · split
      · exact .inl rfl
      · split
        · exact hdelete
        · exact .inr ⟨_, rfl, rfl⟩
  unfold handle
  split
  · rename_i hkind
    rw [hkind]
    unfold handleFolderChange
    split
    · exact hupsert.imp_right fun h => ⟨by decide, h⟩
    · split
      · exact hdelete.imp_right fun h => ⟨by decide, h⟩
      · split
        · split
          · exact .inr ⟨by decide, _, rfl, rfl⟩
          · exact .inl rfl
        · exact .inl rfl
  · split
    · rename_i hkind
      have hmem : envelope.kind ∈ clockedKinds := by
        rcases hkind with hkind | hkind <;> rw [hkind] <;> decide
      unfold handleFolderState
      split
      · exact .inl rfl
      · split
        · exact .inr ⟨hmem, _, rfl, rfl⟩
        · split <;> exact .inl rfl
    · exact .inl rfl

def ownedAfter (owned : List Path) (disk disk' : Disk) (name : String) (done : Bool) : List Path :=
  match resolve name with
  | none => owned
  | some path => if done = true ∨ disk'.get path ≠ disk.get path then path :: owned else owned

def upsertedRow (file : FileRecord) (rel : String) : SyncedFile := ⟨file.id, file.folderId, rel, file.checksum⟩

/-- What `apply_file_upsert` removes before it writes: the file's old path, if it has moved. -/
def removeOld (io : Io) (snapshot : SyncEntry) (file : FileRecord) (rel : String) (disk : Disk) : Disk :=
  match previousOf snapshot.files file.id with
  | none => disk
  | some row => if row.relPath ≠ rel then disk.remove io row.relPath else disk

inductive Act where
  | deliver (envelope : Envelope)
  | clock
  | dispatch
  | start
  | grant (envelope : Envelope) (folderKey : String)
  | state (envelope : Envelope)
  | fallback
  | giveUp (who : Who)
  | fail (who : Who)
  | fetched (who : Who) (bundle : FolderBundle)
  | item (who : Who) (io : Io)
  | remove (who : Who) (io : Io)
  | record (who : Who)
  | upsertFetch (io : Io)
  | upsertRemove (io : Io)
  | upsertWrite (io : Io)
  | upsertRecord
  | deleteRemove (io : Io)
  | deleteRecord

/-- Where a task can end in an error of the network, the content store, the jail or the table's file. -/
def Task.canGiveUp : Task → Bool
  | .waiting _ _ => true
  | .job _ (.sync _ (_ :: _) _ _) => false
  | .job _ (.sync _ [] _ (_ :: _)) => false
  | .job _ (.upsertWrite _ _ _) => false
  | .job _ _ => true
  | _ => false

/-- One step of the handler, of the retry, or of the work of either. -/
inductive Step (sha256Hex : Bytes → String) : Sync → Act → Sync → Prop where
  | deliver {x : Sync} {envelope : Envelope} : x.tasks .handler = .idle → envelope.folderId = some x.entry.folderId →
      envelopeFromOwner x.entry envelope = true → envelopeClockFresh x.entry envelope = true →
      Step sha256Hex x (.deliver envelope) (x.setTask .handler (.found envelope x.entry))
  | clock {x : Sync} {envelope : Envelope} {snapshot : SyncEntry} : x.tasks .handler = .found envelope snapshot →
      Step sha256Hex x .clock (({ x with
        entry := if 0 < envelope.clock ∧ envelope.kind ∈ clockedKinds then
            { x.entry with lastClock := max x.entry.lastClock envelope.clock }
          else x.entry } : Sync).setTask .handler (.accepted envelope snapshot))
  | dispatch {x : Sync} {envelope : Envelope} {snapshot : SyncEntry} : x.tasks .handler = .accepted envelope snapshot →
      Step sha256Hex x .dispatch (({ x with
        entry := if (handle snapshot envelope).1.isSome then
            { x.entry with lastFolderSignature := (handle snapshot envelope).1 }
          else x.entry } : Sync).setTask .handler (handle snapshot envelope).2)
  | start {x : Sync} : x.tasks .retry = .idle → x.entry.status ≠ .synced →
      Step sha256Hex x .start (x.setTask .retry (.waiting x.entry none))
  | granted {x : Sync} {snapshot : SyncEntry} {envelope : Envelope} {folderKey cid : String} :
      x.tasks .retry = .waiting snapshot none → snapshot.folderKey = "" → folderKey ≠ "" →
      envelope.kind = "folder-access-grant" → envelope.sender = snapshot.ownerNodeId → envelope.newCid = some cid →
      Step sha256Hex x (.grant envelope folderKey)
        (x.setTask .retry (.job envelope (.bundle [] cid none (some folderKey) folderKey)))
  | grantedAlone {x : Sync} {snapshot : SyncEntry} {envelope : Envelope} {folderKey : String} :
      x.tasks .retry = .waiting snapshot none → snapshot.folderKey = "" → folderKey ≠ "" →
      envelope.kind = "folder-access-grant" → envelope.sender = snapshot.ownerNodeId → envelope.newCid = none →
      Step sha256Hex x (.grant envelope folderKey) (x.setTask .retry (.waiting snapshot (some folderKey)))
  | stateGranted {x : Sync} {snapshot : SyncEntry} {envelope : Envelope} {folderKey cid : String} :
      x.tasks .retry = .waiting snapshot (some folderKey) → envelope.kind = "folder-state" →
      envelope.folderId = some snapshot.folderId → envelope.newCid = some cid →
      Step sha256Hex x (.state envelope)
        (x.setTask .retry (.job envelope (.bundle [] cid none (some folderKey) folderKey)))
  | state {x : Sync} {snapshot : SyncEntry} {envelope : Envelope} {cid : String} :
      x.tasks .retry = .waiting snapshot none → snapshot.folderKey ≠ "" → envelope.kind = "folder-state" →
      envelope.folderId = some snapshot.folderId → envelope.newCid = some cid →
      Step sha256Hex x (.state envelope) (x.setTask .retry (fullResync snapshot envelope cid none))
  | fallback {x : Sync} {snapshot : SyncEntry} {envelope : Envelope} {cid : String} :
      x.tasks .retry = .waiting snapshot none → snapshot.folderKey ≠ "" → snapshot.lastCid = some cid →
      snapshot.announced = some envelope →
      Step sha256Hex x .fallback (x.setTask .retry (fullResync snapshot envelope cid none))
  | giveUp {x : Sync} {who : Who} : (x.tasks who).canGiveUp = true → Step sha256Hex x (.giveUp who) (x.setTask who .failing)
  | fail {x : Sync} {who : Who} : x.tasks who = .failing →
      Step sha256Hex x (.fail who) (({ x with entry := { x.entry with status := .error } } : Sync).setTask who .idle)
  | fetched {x : Sync} {who : Who} {announcement : Envelope} {previous : List SyncedFile} {cid folderKey : String}
      {signature granted : Option String} {bundle : FolderBundle} :
      x.tasks who = .job announcement (.bundle previous cid signature granted folderKey) →
      Step sha256Hex x (.fetched who bundle)
        (let plan := planResync bundle.files (buildFolderMap bundle) previous
        x.setTask who (.job announcement
          (.sync ⟨cid, signature, granted, folderKey, bundle⟩ plan.fetch plan.reuse plan.removePaths)))
  | item {x : Sync} {who : Who} {announcement : Envelope} {goal : Goal} {item : FetchItem} {fetch : List FetchItem}
      {files : List SyncedFile} {removePaths : List String} {io : Io} :
      x.tasks who = .job announcement (.sync goal (item :: fetch) files removePaths) →
      Step sha256Hex x (.item who io)
        (let synced := syncItem io sha256Hex goal.folderKey (x.disk, files) item
        ({ x with
          disk := synced.1
          owned := ownedAfter x.owned x.disk synced.1 item.rel (synced.2 ≠ files) } : Sync).setTask who
            (.job announcement (.sync goal fetch synced.2 removePaths)))
  | remove {x : Sync} {who : Who} {announcement : Envelope} {goal : Goal} {files : List SyncedFile} {rel : String}
      {removePaths : List String} {io : Io} :
      x.tasks who = .job announcement (.sync goal [] files (rel :: removePaths)) →
      Step sha256Hex x (.remove who io)
        (({ x with
          disk := x.disk.remove io rel
          owned := x.owned.filter (fun path => ((x.disk.remove io rel).get path).isSome) } : Sync).setTask who
            (.job announcement (.sync goal [] files removePaths)))
  | record {x : Sync} {who : Who} {announcement : Envelope} {goal : Goal} {files : List SyncedFile} :
      x.tasks who = .job announcement (.sync goal [] files []) →
      Step sha256Hex x (.record who)
        (({ x with
          entry := { x.entry with
            folderKey := goal.granted.getD x.entry.folderKey
            status := .synced
            lastCid := some goal.cid
            lastFolderSignature := goal.signature.or x.entry.lastFolderSignature
            folders := buildFolderMap goal.bundle
            files := files
            announced := some announcement }
          recorded := goal.bundle.files
          changes := []
          applied := x.applied ++ [(who, announcement)] } : Sync).setTask who .idle)
  | upsertFetch {x : Sync} {announcement : Envelope} {snapshot : SyncEntry} {file : FileRecord} {rel cid : String}
      {data : Bytes} {io : Io} : x.tasks .handler = .job announcement (.upsertFetch snapshot file) →
      fileTargetRel snapshot.folders file.folderId file.name = some rel → contentCid file = some cid →
      io.fetch cid snapshot.folderKey = some data → (file.checksum = "" ∨ sha256Hex data = file.checksum) →
      Step sha256Hex x (.upsertFetch io)
        (x.setTask .handler (.job announcement (.upsertRemove snapshot file rel data)))
  | upsertRemove {x : Sync} {announcement : Envelope} {snapshot : SyncEntry} {file : FileRecord} {rel : String}
      {data : Bytes} {io : Io} : x.tasks .handler = .job announcement (.upsertRemove snapshot file rel data) →
      Step sha256Hex x (.upsertRemove io)
        (({ x with
          disk := removeOld io snapshot file rel x.disk
          owned := x.owned.filter (fun path => ((removeOld io snapshot file rel x.disk).get path).isSome) } : Sync).setTask
            .handler (.job announcement (.upsertWrite file rel data)))
  | upsertWrite {x : Sync} {announcement : Envelope} {file : FileRecord} {rel : String} {data : Bytes} {path : Path}
      {io : Io} : x.tasks .handler = .job announcement (.upsertWrite file rel data) → resolve rel = some path →
      Step sha256Hex x (.upsertWrite io)
        (let stored := x.disk.store io path data
        ({ x with
          disk := stored.1
          owned := ownedAfter x.owned x.disk stored.1 rel stored.2 } : Sync).setTask .handler
            (if stored.2 then .job announcement (.upsertRecord file rel) else .failing))
  | upsertRecord {x : Sync} {announcement : Envelope} {file : FileRecord} {rel : String} :
      x.tasks .handler = .job announcement (.upsertRecord file rel) →
      Step sha256Hex x .upsertRecord
        (({ x with
          entry := { x.entry with
            status := .synced
            files := x.entry.files.filter (fun f => f.fileId ≠ file.id) ++ [upsertedRow file rel] }
          changes := x.changes ++ [.upserted file]
          applied := x.applied ++ [(.handler, announcement)] } : Sync).setTask .handler .idle)
  | deleteRemove {x : Sync} {announcement : Envelope} {fileId : String} {row : SyncedFile} {io : Io} :
      x.tasks .handler = .job announcement (.deleteRemove fileId row) →
      Step sha256Hex x (.deleteRemove io)
        (({ x with
          disk := x.disk.remove io row.relPath
          owned := x.owned.filter (fun path => ((x.disk.remove io row.relPath).get path).isSome) } : Sync).setTask .handler
            (.job announcement (.deleteRecord fileId)))
  | deleteRecord {x : Sync} {announcement : Envelope} {fileId : String} : x.tasks .handler = .job announcement (.deleteRecord fileId) →
      Step sha256Hex x .deleteRecord
        (({ x with
          entry := { x.entry with
            status := .synced
            files := x.entry.files.filter (fun f => f.fileId ≠ fileId) }
          changes := x.changes ++ [.deleted fileId]
          applied := x.applied ++ [(.handler, announcement)] } : Sync).setTask .handler .idle)

/-- The states of a run whose steps all meet `ok`. -/
inductive Reach (sha256Hex : Bytes → String) (start : Sync) (ok : Sync → Act → Prop) : Sync → Prop where
  | refl : Reach sha256Hex start ok start
  | tail {x x' : Sync} {act : Act} : Reach sha256Hex start ok x → ok x act → Step sha256Hex x act x' → Reach sha256Hex start ok x'

variable {sha256Hex : Bytes → String}

theorem Reach.mono {start : Sync} {ok ok' : Sync → Act → Prop}
    (hok : ∀ x act, ok x act → ok' x act) {x : Sync} (h : Reach sha256Hex start ok x) : Reach sha256Hex start ok' x := by
  induction h with
  | refl => exact .refl
  | tail _ hact hstep ih => exact ih.tail (hok _ _ hact) hstep

theorem handle_state {snapshot : SyncEntry} {envelope : Envelope} {cid : String} (hkind : envelope.kind = "folder-state")
    (hcid : envelope.newCid = some cid) (hnew : snapshot.lastCid ≠ some cid) :
    handle snapshot envelope = (none, fullResync snapshot envelope cid envelope.folderSignature) := by
  have hneeded : resyncNeeded snapshot cid envelope.folderSignature = true := by
    exact if_pos hnew
  rw [handle, hkind, if_neg (by decide), handleFolderState, hcid]
  exact if_pos hneeded

theorem Reach.announced {start : Sync} {ok : Sync → Act → Prop} {x : Sync} {envelope : Envelope}
    {cid : String} (h : Reach sha256Hex start ok x) (hidle : x.tasks .handler = .idle)
    (hfolder : envelope.folderId = some x.entry.folderId) (howner : envelopeFromOwner x.entry envelope = true)
    (hfresh : envelopeClockFresh x.entry envelope = true) (hkind : envelope.kind = "folder-state")
    (hcid : envelope.newCid = some cid) (hnew : x.entry.lastCid ≠ some cid) (hdeliver : ok x (.deliver envelope))
    (hrest : ∀ y, ok y .clock ∧ ok y .dispatch) :
    ∃ z, Reach sha256Hex start ok z ∧ z.tasks .handler = fullResync x.entry envelope cid envelope.folderSignature ∧
      z.tasks .retry = x.tasks .retry ∧ z.disk = x.disk ∧ z.owned = x.owned ∧ z.applied = x.applied := by
  have h1 := h.tail hdeliver (.deliver hidle hfolder howner hfresh)
  have h2 := h1.tail (hrest _).1 (.clock rfl)
  refine ⟨_, h2.tail (hrest _).2 (.dispatch rfl), ?_, rfl, rfl, rfl, rfl⟩
  rw [handle_state hkind hcid hnew]
  rfl

/-! ## A sample entry -/

def sampleGrant : Envelope := ⟨"folder-access-grant", "did:owner", "room", 0, none, none, some "f", none, none, none⟩

def sampleState (sender : String) (clock : Int) (cid : String) : Envelope :=
  ⟨"folder-state", sender, "room", clock, none, none, some "f", none, none, some cid⟩

abbrev sampleStart : Sync := .initial "f" "did:owner" "room" ∅

end Mistl.Folder
