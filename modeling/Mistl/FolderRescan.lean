import Mistl.FolderWalk
import Mistl.Lib.Records
/-!
# FolderRescan — a shared directory read again

`rescan_local_dir` of `storage/folder_owner.rs`: the tree that was walked is compared with the path index of the
entry, which is brought up to date on the way.
-/
namespace Mistl.Folder

/-! ## The entry -/

/-- `SharedFolder` with its `PathIndex` -/
structure SharedFolder where
  folderId : String
  roomId : String
  folders : List FolderRecord
  files : List FileRecord
  folderIds : Table String String
  fileIds : Table String String
  fileStats : Table String (Int × Nat)
  lastCid : Option String
  lastFolderSignature : Option String

structure RescanResult where
  changed : Bool
  upsertedFileIds : List String
  deletedFileIds : List String
  newFileBytes : Table String Bytes

/-- A rescan under way; `drawn` counts the ids that were generated so far. -/
structure Scan where
  entry : SharedFolder
  result : RescanResult
  drawn : Nat

structure Listing where
  list : Finset String → List String
  mem_list : ∀ (keys : Finset String) (k : String), k ∈ list keys ↔ k ∈ keys

/-- What a rescan finds: the directory, the time, and the orders in which the index is listed. -/
structure Found where
  root : Forest
  now : String
  folderOrder : Listing
  fileOrder : Listing

section
variable (sha256Hex : Bytes → String) (uuid : Nat → String) (now : String)

def rescanDir (s : Scan) (dir : WalkedDir) : Scan :=
  if dir.relPath = "" then s
  else if s.entry.folderIds.contains dir.relPath then s
  else
    let id := uuid s.drawn
    let parentId := s.entry.folderIds.get (dir.parentRelPath.getD "")
    { entry := { s.entry with
        folderIds := s.entry.folderIds.insert dir.relPath id
        folders := s.entry.folders ++ [⟨id, sanitizeName dir.name, parentId, none⟩] }
      result := { s.result with changed := true }
      drawn := s.drawn + 1 }

def vanishFolder (s : Scan) (path : String) : Scan :=
  match s.entry.folderIds.get path with
  | none => s
  | some id =>
    let entry := { s.entry with folderIds := s.entry.folderIds.erase path }
    match Records.find FolderRecord.id id entry.folders with
    | none => { s with entry := entry }
    | some record =>
      if record.deletedAt = none then
        { s with
          entry := { entry with
            folders := Records.update FolderRecord.id id (fun r => { r with deletedAt := some now }) entry.folders }
          result := { s.result with changed := true } }
      else { s with entry := entry }

def vanishedFolderPaths (order : Listing) (entry : SharedFolder) (dirs : List WalkedDir) : List String :=
  (order.list entry.folderIds.keys).filter fun p => p ≠ "" && p ∉ dirs.map WalkedDir.relPath

/-- The folders of `rescan_local_dir`. -/
def rescanFolders (order : Listing) (dirs : List WalkedDir) (s : Scan) : Scan :=
  let s := dirs.foldl (rescanDir uuid) s
  (vanishedFolderPaths order s.entry dirs).foldl (vanishFolder now) s

/-- The `(mtime, size)` of a walked file. -/
def WalkedFile.stat (wf : WalkedFile) : Int × Nat := (wf.mtimeMillis, wf.size)

def fastPath (entry : SharedFolder) (wf : WalkedFile) : Bool :=
  decide (entry.fileStats.get wf.relPath = some wf.stat) && entry.fileIds.contains wf.relPath

def Scan.stamp (s : Scan) (path : String) (stat : Int × Nat) : Scan :=
  { s with entry := { s.entry with fileStats := s.entry.fileStats.insert path stat } }

def Scan.rewrite (s : Scan) (id folderId checksum : String) (data : Bytes) : Scan := { s with
    entry := { s.entry with
      files := Records.update FileRecord.id id
        (fun r => { r with checksum := checksum, deletedAt := none, folderId := folderId }) s.entry.files }
    result := { s.result with
      newFileBytes := s.result.newFileBytes.insert id data
      upsertedFileIds := s.result.upsertedFileIds ++ [id]
      changed := true } }

def Scan.create (s : Scan) (path id folderId name checksum : String) (data : Bytes) : Scan :=
  { entry := { s.entry with
      fileIds := s.entry.fileIds.insert path id
      files := s.entry.files ++ [⟨id, folderId, name, checksum, none, none, none⟩] }
    result := { s.result with
      newFileBytes := s.result.newFileBytes.insert id data
      upsertedFileIds := s.result.upsertedFileIds ++ [id]
      changed := true }
    drawn := s.drawn + 1 }

/-- A walked file; `none` if reading it fails. -/
def rescanFile (s : Scan) (wf : WalkedFile) : Option Scan :=
  let folderId := (s.entry.folderIds.get wf.folderRelPath).getD s.entry.folderId
  if fastPath s.entry wf then some s
  else match wf.data with
    | none => none
    | some data =>
      let checksum := sha256Hex data
      match s.entry.fileIds.get wf.relPath with
      | some existingId =>
        match Records.find FileRecord.id existingId s.entry.files with
        | none => some (s.stamp wf.relPath wf.stat)
        | some record =>
          if record.checksum = checksum ∧ record.deletedAt = none then some (s.stamp wf.relPath wf.stat)
          else some ((s.stamp wf.relPath wf.stat).rewrite existingId folderId checksum data)
      | none => some ((s.stamp wf.relPath wf.stat).create wf.relPath (uuid s.drawn) folderId wf.name checksum data)

def rescanFiles : List WalkedFile → Scan → Scan × Bool
  | [], s => (s, true)
  | wf :: rest, s =>
    match rescanFile sha256Hex uuid s wf with
    | none => (s, false)
    | some s => rescanFiles rest s

def vanishFile (s : Scan) (path : String) : Scan :=
  match s.entry.fileIds.get path with
  | none => s
  | some id =>
    let entry := { s.entry with
      fileIds := s.entry.fileIds.erase path
      fileStats := s.entry.fileStats.erase path }
    match Records.find FileRecord.id id entry.files with
    | none => { s with entry := entry }
    | some record =>
      if record.deletedAt = none then
        { s with
          entry := { entry with
            files := Records.update FileRecord.id id (fun r => { r with deletedAt := some now }) entry.files }
          result := { s.result with
            deletedFileIds := s.result.deletedFileIds ++ [id]
            changed := true } }
      else { s with entry := entry }

def vanishedFilePaths (order : Listing) (entry : SharedFolder) (files : List WalkedFile) : List String :=
  (order.list entry.fileIds.keys).filter fun p => p ∉ files.map WalkedFile.relPath

def RescanResult.default : RescanResult := ⟨false, [], [], ∅⟩

/-- `rescan_local_dir`, and whether it succeeds: if not, the entry is left as far as it got. -/
def rescanLocalDir (entry : SharedFolder) (drawn : Nat) (found : Found) : Scan × Bool :=
  let s : Scan := ⟨entry, RescanResult.default, drawn⟩
  match walkSharedDir found.root with
  | none => (s, false)
  | some w =>
    match rescanFiles sha256Hex uuid w.files (rescanFolders uuid found.now found.folderOrder w.dirs s) with
    | (s, false) => (s, false)
    | (s, true) => ((vanishedFilePaths found.fileOrder s.entry w.files).foldl (vanishFile found.now) s, true)

end

/-! ## What there is to do -/

section
variable (sha256Hex : Bytes → String) (entry : SharedFolder)

def FoldersSame (dirs : List WalkedDir) : Prop := (∀ d ∈ dirs, d.relPath ≠ "" → entry.folderIds.get d.relPath ≠ none) ∧
    ∀ p, entry.folderIds.get p ≠ none → p = "" ∨ p ∈ dirs.map WalkedDir.relPath

def Readable (wf : WalkedFile) : Prop := fastPath entry wf = true ∨ wf.data ≠ none

def kept (wf : WalkedFile) : Bool :=
  match entry.fileIds.get wf.relPath with
  | none => false
  | some id => decide (entry.fileStats.get wf.relPath = some wf.stat) || match wf.data, Records.find FileRecord.id id entry.files with
    | some data, some record => decide (record.checksum = sha256Hex data ∧ record.deletedAt = none)
    | _, _ => false

def Unchanged (w : Walked) : Prop := FoldersSame entry w.dirs ∧ (∀ wf ∈ w.files, kept sha256Hex entry wf = true) ∧
    ∀ p, entry.fileIds.get p ≠ none → p ∈ w.files.map WalkedFile.relPath

end

/-! ## What a file that was read leaves -/

section
variable {sha256Hex : Bytes → String} {uuid : Nat → String} {s s' : Scan} {wf : WalkedFile}

/-- **What a walked file can do**: it is skipped; or it is read, and then found to be as before, to be new content of a known
file, or to be a new file. -/
theorem rescanFile_cases (h : rescanFile sha256Hex uuid s wf = some s') : (fastPath s.entry wf = true ∧ s' = s) ∨
    (fastPath s.entry wf = false ∧ ∃ data, wf.data = some data ∧
      ((∃ id, s.entry.fileIds.get wf.relPath = some id ∧ s' = s.stamp wf.relPath wf.stat ∧
          ∀ record, Records.find FileRecord.id id s.entry.files = some record →
            record.checksum = sha256Hex data ∧ record.deletedAt = none) ∨
        (∃ id record, s.entry.fileIds.get wf.relPath = some id ∧ Records.find FileRecord.id id s.entry.files = some record ∧
          ¬ (record.checksum = sha256Hex data ∧ record.deletedAt = none) ∧
          s' = (s.stamp wf.relPath wf.stat).rewrite id ((s.entry.folderIds.get wf.folderRelPath).getD s.entry.folderId)
            (sha256Hex data) data) ∨
        (s.entry.fileIds.get wf.relPath = none ∧ s' = (s.stamp wf.relPath wf.stat).create wf.relPath (uuid s.drawn)
            ((s.entry.folderIds.get wf.folderRelPath).getD s.entry.folderId) wf.name (sha256Hex data) data))) := by
  unfold rescanFile at h
  dsimp only at h
  split at h
  · rename_i hfast
    exact .inl ⟨hfast, (Option.some.inj h).symm⟩
  · rename_i hfast
    refine .inr ⟨Bool.eq_false_iff.2 hfast, ?_⟩
    split at h
    · cases h
    · rename_i data hdata
      refine ⟨data, hdata, ?_⟩
      split at h
      · rename_i id hid
        split at h
        · rename_i hnone
          exact .inl ⟨id, hid, (Option.some.inj h).symm, fun record hrecord => by rw [hnone] at hrecord; cases hrecord⟩
        · rename_i record hrecord
          split at h
          · rename_i hsame
            refine .inl ⟨id, hid, (Option.some.inj h).symm, fun record' hrecord' => ?_⟩
            cases hrecord.symm.trans hrecord'
            exact hsame
          · exact .inr (.inl ⟨id, record, hid, hrecord, ‹_›, (Option.some.inj h).symm⟩)
      · rename_i hid
        exact .inr (.inr ⟨hid, (Option.some.inj h).symm⟩)

theorem rescanFile_none : rescanFile sha256Hex uuid s wf = none ↔ ¬ Readable s.entry wf := by
  unfold Readable
  constructor
  · intro h
    unfold rescanFile at h
    dsimp only at h
    split at h
    · cases h
    · rename_i hfast
      split at h
      · rename_i hdata
        rintro (hyes | hyes)
        · exact hfast hyes
        · exact hyes hdata
      · split at h
        · split at h
          · cases h
          · split at h <;> cases h
        · cases h
  · intro h
    rw [not_or, not_not] at h
    unfold rescanFile
    rw [if_neg h.1, h.2]

theorem rescanFile_stats (h : rescanFile sha256Hex uuid s wf = some s') :
    s'.entry.fileStats.get wf.relPath = some wf.stat ∧ s'.entry.fileIds.get wf.relPath ≠ none ∧
      (∀ p, p ≠ wf.relPath → s'.entry.fileStats.get p = s.entry.fileStats.get p ∧
        s'.entry.fileIds.get p = s.entry.fileIds.get p) ∧ s'.entry.folderIds = s.entry.folderIds := by
  have hself : (s.entry.fileStats.insert wf.relPath wf.stat).get wf.relPath = some wf.stat := by
    rw [Table.get_insert, if_pos rfl]
  have hother : ∀ p, p ≠ wf.relPath → (s.entry.fileStats.insert wf.relPath wf.stat).get p = s.entry.fileStats.get p :=
    fun p hp => Table.get_insert_ne hp _ _
  rcases rescanFile_cases h with ⟨hfast, rfl⟩ | ⟨-, data, -, ⟨id, hid, rfl, -⟩ | ⟨id, record, hid, -, -, rfl⟩ | ⟨-, rfl⟩⟩
  · obtain ⟨hstat, hknown⟩ := Bool.and_eq_true_iff.1 hfast
    obtain ⟨id, hid⟩ := Table.contains_iff.1 hknown
    exact ⟨of_decide_eq_true hstat, by rw [hid]; nofun, fun _ _ => ⟨rfl, rfl⟩, rfl⟩
  iterate 2 exact ⟨hself, fun hnone => absurd (hid.symm.trans hnone) nofun, fun p hp => ⟨hother p hp, rfl⟩, rfl⟩
  · refine ⟨hself, ?_, fun p hp => ⟨hother p hp, Table.get_insert_ne hp _ _⟩, rfl⟩
    show (s.entry.fileIds.insert wf.relPath _).get wf.relPath ≠ none
    rw [Table.get_insert, if_pos rfl]
    nofun

theorem rescanFile_result (h : rescanFile sha256Hex uuid s wf = some s') :
    (kept sha256Hex s.entry wf = true → s'.result = s.result) ∧
      s'.result.upsertedFileIds.length ≤ s.result.upsertedFileIds.length + if kept sha256Hex s.entry wf then 0 else 1 := by
  rcases rescanFile_cases h with ⟨-, rfl⟩ | ⟨hfast, data, hdata, ⟨id, -, rfl, -⟩ | ⟨id, record, hid, hrecord, hnew, rfl⟩ | ⟨hid, rfl⟩⟩
  · exact ⟨fun _ => rfl, Nat.le_add_right _ _⟩
  · exact ⟨fun _ => rfl, Nat.le_add_right _ _⟩
  · have hknown : s.entry.fileIds.contains wf.relPath = true := Table.contains_iff.2 ⟨id, hid⟩
    have hstat : ¬ s.entry.fileStats.get wf.relPath = some wf.stat := fun he => by
      rw [fastPath, hknown, decide_eq_true he] at hfast
      cases hfast
    have hkept : kept sha256Hex s.entry wf = false := by
      unfold kept
      rw [hid]
      dsimp only
      rw [hdata, hrecord, decide_eq_false hstat]
      exact decide_eq_false hnew
    rw [hkept]
    refine ⟨nofun, ?_⟩
    show (s.result.upsertedFileIds ++ [id]).length ≤ _
    rw [List.length_append]
    exact le_rfl
  · have hkept : kept sha256Hex s.entry wf = false := by
      unfold kept
      rw [hid]
    rw [hkept]
    refine ⟨nofun, ?_⟩
    show (s.result.upsertedFileIds ++ [uuid s.drawn]).length ≤ _
    rw [List.length_append]
    exact le_rfl

end

end Mistl.Folder
