import Mistl.FolderDisk
/-!
# FolderResync — a bundle applied to the local directory

`plan_resync` and `sync_bundle` of `storage/folder_sync.rs`.  The plan is read off the files one by one; what the run leaves on
the disk is read off the plan.
-/
open List Mistl.Table Option

namespace Mistl.Folder

structure SyncedFile where
  fileId : String
  folderId : String
  relPath : String
  checksum : String
  deriving DecidableEq

structure FetchItem where
  file : FileRecord
  rel : String
  cid : String
  deriving DecidableEq

structure ResyncPlan where
  reuse : List SyncedFile
  fetch : List FetchItem
  skipped : List String
  removePaths : List String
  deriving DecidableEq

def contentCid (file : FileRecord) : Option String := (file.lastShareCid.filter (· ≠ "")).or (file.lastCid.filter (· ≠ ""))

def folderMapFromRecords (records : List FolderRecord) : Table String FolderRecord :=
  insertAll FolderRecord.id (records.filter (fun f => !folderDeleted f)) ∅

def buildFolderMap (bundle : FolderBundle) : Table String FolderRecord :=
  let folders := folderMapFromRecords (bundle.folders.getD [])
  if bundle.folder.id ≠ "" ∧ folderDeleted bundle.folder = false ∧ folders.get bundle.folder.id = none then
    folders.insert bundle.folder.id bundle.folder
  else folders

def previousOf (previous : List SyncedFile) (fileId : String) : Option SyncedFile := previous.find? fun f => f.fileId = fileId

/-- One bundle file in `plan_resync`, with the ids seen so far. -/
def planFile (folders : Table String FolderRecord) (previous : List SyncedFile) (state : ResyncPlan × List String)
    (file : FileRecord) : ResyncPlan × List String :=
  if fileDeleted file then state
  else
    let plan := state.1
    let seen := file.id :: state.2
    match fileTargetRel folders file.folderId file.name with
    | none => ({ plan with skipped := plan.skipped ++ [file.name ++ ": unresolved folder " ++ file.folderId] }, seen)
    | some rel =>
      match contentCid file with
      | none => ({ plan with skipped := plan.skipped ++ [file.name ++ ": no content cid"] }, seen)
      | some cid =>
        match previousOf previous file.id with
        | none => ({ plan with fetch := plan.fetch ++ [⟨file, rel, cid⟩] }, seen)
        | some row =>
          if row.checksum = file.checksum ∧ row.relPath = rel then ({ plan with reuse := plan.reuse ++ [row] }, seen)
          else if row.relPath ≠ rel then
            ({ plan with
              removePaths := plan.removePaths ++ [row.relPath]
              fetch := plan.fetch ++ [⟨file, rel, cid⟩] }, seen)
          else ({ plan with fetch := plan.fetch ++ [⟨file, rel, cid⟩] }, seen)

def planResync (bundleFiles : List FileRecord) (folders : Table String FolderRecord) (previous : List SyncedFile) : ResyncPlan :=
  let state := bundleFiles.foldl (planFile folders previous) (⟨[], [], [], []⟩, [])
  { state.1 with
    removePaths := state.1.removePaths ++ (previous.filter (fun row => row.fileId ∉ state.2)).map SyncedFile.relPath }

/-- One item of `sync_bundle`'s fetches. -/
def syncItem (io : Io) (sha256Hex : Bytes → String) (folderKey : String) (state : Disk × List SyncedFile) (item : FetchItem) :
    Disk × List SyncedFile :=
  match io.fetch item.cid folderKey with
  | none => state
  | some data =>
    if item.file.checksum ≠ "" ∧ sha256Hex data ≠ item.file.checksum then state
    else match resolve item.rel with
      | none => state
      | some target =>
        let stored := state.1.store io target data
        if stored.2 then (stored.1, state.2 ++ [⟨item.file.id, item.file.folderId, item.rel, item.file.checksum⟩])
        else (stored.1, state.2)

/-- `sync_bundle`: the disk, the new rows and the folders, in no order. -/
def syncBundle (io : Io) (sha256Hex : Bytes → String) (disk : Disk) (folderKey : String) (bundle : FolderBundle)
    (previous : List SyncedFile) : Disk × List SyncedFile × Table String FolderRecord :=
  let folders := buildFolderMap bundle
  let plan := planResync bundle.files folders previous
  let synced := plan.fetch.foldl (syncItem io sha256Hex folderKey) (disk, plan.reuse)
  (plan.removePaths.foldl (Disk.remove io) synced.1, synced.2, folders)

/-! ## The plan, file by file -/

variable {folders : Table String FolderRecord} {previous : List SyncedFile} {file : FileRecord}

def target (folders : Table String FolderRecord) (file : FileRecord) : Option (String × String) :=
  if fileDeleted file then none
  else (fileTargetRel folders file.folderId file.name).bind fun rel => (contentCid file).map fun cid => (rel, cid)

def reuseOf (folders : Table String FolderRecord) (previous : List SyncedFile) (file : FileRecord) : Option SyncedFile :=
  (target folders file).bind fun t => (previousOf previous file.id).filter fun row => row.checksum = file.checksum ∧ row.relPath = t.1

def fetchOf (folders : Table String FolderRecord) (previous : List SyncedFile) (file : FileRecord) : Option FetchItem :=
  (target folders file).bind fun t => if reuseOf folders previous file = none then some ⟨file, t.1, t.2⟩ else none

def skipOf (folders : Table String FolderRecord) (file : FileRecord) : Option String :=
  if fileDeleted file then none
  else match fileTargetRel folders file.folderId file.name with
    | none => some (file.name ++ ": unresolved folder " ++ file.folderId)
    | some _ => if contentCid file = none then some (file.name ++ ": no content cid") else none

def movedOf (folders : Table String FolderRecord) (previous : List SyncedFile) (file : FileRecord) : Option String :=
  (target folders file).bind fun t => (previousOf previous file.id).bind fun row => if row.relPath ≠ t.1 then some row.relPath else none

theorem planFile_eq (folders : Table String FolderRecord) (previous : List SyncedFile) (state : ResyncPlan × List String)
    (file : FileRecord) :
    planFile folders previous state file =
      (⟨state.1.reuse ++ (reuseOf folders previous file).toList, state.1.fetch ++ (fetchOf folders previous file).toList,
        state.1.skipped ++ (skipOf folders file).toList, state.1.removePaths ++ (movedOf folders previous file).toList⟩,
        if fileDeleted file then state.2 else file.id :: state.2) := by
  unfold planFile fetchOf movedOf reuseOf skipOf target
  split
  · simp
  · cases hrel : fileTargetRel folders file.folderId file.name with
    | none => simp
    | some rel =>
      cases hcid : contentCid file with
      | none => simp
      | some cid =>
        cases hprev : previousOf previous file.id with
        | none => simp
        | some row =>
          by_cases hpath : row.relPath = rel
          · by_cases hsum : row.checksum = file.checksum
            · simp [hpath, hsum, filter_some]
            · simp [hpath, hsum]
          · simp [hpath]

theorem planFile_foldl (folders : Table String FolderRecord) (previous : List SyncedFile) :
    ∀ (files : List FileRecord) (state : ResyncPlan × List String),
    files.foldl (planFile folders previous) state =
      (⟨state.1.reuse ++ files.filterMap (reuseOf folders previous), state.1.fetch ++ files.filterMap (fetchOf folders previous),
        state.1.skipped ++ files.filterMap (skipOf folders),
        state.1.removePaths ++ files.filterMap (movedOf folders previous)⟩,
        ((files.filter (fun f => !fileDeleted f)).map FileRecord.id).reverse ++ state.2)
  | [], state => by simp
  | file :: files, state => by
    rw [foldl_cons, planFile_foldl folders previous files, planFile_eq]
    have hcons : ∀ {β : Type} (f : FileRecord → Option β) (l : List β),
        l ++ (f file).toList ++ files.filterMap f = l ++ (file :: files).filterMap f := fun f l => by
      rw [filterMap_cons]
      cases f file <;> simp
    rw [hcons, hcons, hcons, hcons]
    refine congrArg (Prod.mk _) ?_
    split <;> rename_i hdel
    · simp [hdel]
    · simp [hdel]

def listed (files : List FileRecord) (row : SyncedFile) : Bool := files.any fun f => !fileDeleted f && f.id = row.fileId

theorem planResync_eq (files : List FileRecord) (folders : Table String FolderRecord) (previous : List SyncedFile) :
    planResync files folders previous =
      ⟨files.filterMap (reuseOf folders previous), files.filterMap (fetchOf folders previous), files.filterMap (skipOf folders),
        files.filterMap (movedOf folders previous) ++ (previous.filter (fun row => !listed files row)).map SyncedFile.relPath⟩ := by
  unfold planResync
  rw [planFile_foldl]
  have hseen : (previous.filter fun row =>
      row.fileId ∉ ((files.filter (fun f => !fileDeleted f)).map FileRecord.id).reverse ++ ([] : List String)) =
      previous.filter (fun row => !listed files row) := by
    refine filter_congr (fun row _ => ?_)
    rw [listed, Bool.eq_iff_iff]
    simp
  dsimp only
  rw [hseen]
  simp

/-! ## Targets -/

theorem fileTargetRel_path {folderId fileName rel : String} (h : fileTargetRel folders folderId fileName = some rel) :
    ∃ path, resolve rel = some path ∧ rel = "/".intercalate path := by
  refine ⟨_, resolve_fileTargetRel h, ?_⟩
  unfold fileTargetRel at h
  dsimp only at h
  split at h
  · cases h
  · exact (Option.some.inj h).symm

variable {t : String × String}

theorem target_eq_some (h : target folders file = some t) :
    fileDeleted file = false ∧ fileTargetRel folders file.folderId file.name = some t.1 ∧ contentCid file = some t.2 := by
  unfold target at h
  split at h
  · cases h
  · rename_i hlive
    obtain ⟨rel, hrel, h⟩ := bind_eq_some_iff.1 h
    obtain ⟨cid, hcid, rfl⟩ := map_eq_some_iff.1 h
    exact ⟨by simpa using hlive, hrel, hcid⟩

def liveTargets (folders : Table String FolderRecord) (files : List FileRecord) : List String :=
  files.filterMap fun file => if fileDeleted file then none else fileTargetRel folders file.folderId file.name

theorem eq_of_filterMap_nodup {α β : Type} {f : α → Option β} : ∀ {l : List α}, (l.filterMap f).Nodup →
    ∀ {a b : α} {v : β}, a ∈ l → b ∈ l → f a = some v → f b = some v → a = b
  | x :: l, h, a, b, v, ha, hb, hfa, hfb => by
    rw [filterMap_cons] at h
    rcases mem_cons.1 ha with hax | hal
    · rcases mem_cons.1 hb with hbx | hbl
      · rw [hax, hbx]
      · rw [← hax, hfa, nodup_cons] at h
        exact absurd (mem_filterMap.2 ⟨b, hbl, hfb⟩) h.1
    · rcases mem_cons.1 hb with hbx | hbl
      · rw [← hbx, hfb, nodup_cons] at h
        exact absurd (mem_filterMap.2 ⟨a, hal, hfa⟩) h.1
      · refine eq_of_filterMap_nodup ?_ hal hbl hfa hfb
        split at h
        · exact h
        · exact (nodup_cons.1 h).2

variable {files : List FileRecord} {path : Path}

theorem eq_of_same_path (hnodup : (liveTargets folders files).Nodup) {f g : FileRecord}
    {t u : String × String} (hf : f ∈ files) (hg : g ∈ files) (ht : target folders f = some t)
    (hu : target folders g = some u) (hfp : resolve t.1 = some path) (hgp : resolve u.1 = some path) : f = g := by
  obtain ⟨hflive, hfrel, -⟩ := target_eq_some ht
  obtain ⟨hglive, hgrel, -⟩ := target_eq_some hu
  obtain ⟨p, hp, hpeq⟩ := fileTargetRel_path hfrel
  obtain ⟨q, hq, hqeq⟩ := fileTargetRel_path hgrel
  have hpp := Option.some.inj (hp.symm.trans hfp)
  have hqp := Option.some.inj (hq.symm.trans hgp)
  refine eq_of_filterMap_nodup hnodup (v := "/".intercalate path) hf hg ?_ ?_
  · rw [hflive, if_neg nofun, hfrel, hpeq, hpp]
  · rw [hglive, if_neg nofun, hgrel, hqeq, hqp]

/-! ## The run -/

variable {io : Io} {sha256Hex : Bytes → String} {folderKey : String}

def FetchItem.row (item : FetchItem) : SyncedFile := ⟨item.file.id, item.file.folderId, item.rel, item.file.checksum⟩

def allSynced (io : Io) (sha256Hex : Bytes → String) (folderKey : String) : Disk × List SyncedFile → List FetchItem → Bool
  | _, [] => true
  | state, item :: items =>
    decide ((syncItem io sha256Hex folderKey state item).2 = state.2 ++ [item.row]) &&
      allSynced io sha256Hex folderKey (syncItem io sha256Hex folderKey state item) items

def Verified (sha256Hex : Bytes → String) (checksum : String) (data : Bytes) : Prop := checksum = "" ∨ sha256Hex data = checksum

theorem syncItem_done {state : Disk × List SyncedFile} {item : FetchItem}
    (h : (syncItem io sha256Hex folderKey state item).2 = state.2 ++ [item.row]) :
    ∃ data path, io.fetch item.cid folderKey = some data ∧ Verified sha256Hex item.file.checksum data ∧
      resolve item.rel = some path ∧ (state.1.store io path data).2 = true ∧
      (syncItem io sha256Hex folderKey state item).1 = (state.1.store io path data).1 := by
  have hskip : state.2 ≠ state.2 ++ [item.row] := fun heq => by simp at heq
  unfold syncItem at h ⊢
  cases hfetch : io.fetch item.cid folderKey with
  | none =>
    rw [hfetch] at h
    exact absurd h hskip
  | some data =>
    rw [hfetch] at h
    dsimp only at h ⊢
    split at h
    · exact absurd h hskip
    · rename_i hsum
      rw [if_neg hsum]
      cases hpath : resolve item.rel with
      | none =>
        rw [hpath] at h
        exact absurd h hskip
      | some path =>
        rw [hpath] at h
        dsimp only at h ⊢
        split at h
        · rename_i hstored
          refine ⟨data, path, rfl, ?_, rfl, hstored, by rw [if_pos hstored]⟩
          by_cases hempty : item.file.checksum = ""
          · exact .inl hempty
          · exact .inr (not_not.1 fun hne => hsum ⟨hempty, hne⟩)
        · exact absurd h hskip

theorem syncItems_done : ∀ {items : List FetchItem} {state : Disk × List SyncedFile},
    allSynced io sha256Hex folderKey state items = true →
    (items.Pairwise fun a b => resolve a.rel ≠ resolve b.rel) →
    (items.foldl (syncItem io sha256Hex folderKey) state).2 = state.2 ++ items.map FetchItem.row ∧
    (∀ item ∈ items, ∃ data path, io.fetch item.cid folderKey = some data ∧ Verified sha256Hex item.file.checksum data ∧
      resolve item.rel = some path ∧
      (items.foldl (syncItem io sha256Hex folderKey) state).1.get path = some (.file data)) ∧
    ∀ path node, state.1.get path = some node → (∀ item ∈ items, resolve item.rel ≠ some path) →
      (items.foldl (syncItem io sha256Hex folderKey) state).1.get path = some node
  | [], state, _, _ => ⟨by simp, nofun, fun _ _ hnode _ => hnode⟩
  | item :: items, state, hall, hpair => by
    rw [allSynced, Bool.and_eq_true, decide_eq_true_iff] at hall
    obtain ⟨hrow, hrest⟩ := hall
    obtain ⟨hnew, hpair⟩ := pairwise_cons.1 hpair
    obtain ⟨data, path, hfetch, hsum, hpath, hstored, hdisk⟩ := syncItem_done hrow
    obtain ⟨hdata, -, hkeep⟩ := Disk.store_done hstored
    obtain ⟨hrows, hitems, hothers⟩ := syncItems_done hrest hpair
    rw [foldl_cons]
    refine ⟨by rw [hrows, hrow]; simp, fun i hi => ?_, fun q node hnode hq => ?_⟩
    · rcases mem_cons.1 hi with rfl | hi
      · refine ⟨data, path, hfetch, hsum, hpath, hothers _ _ (by rw [hdisk]; exact hdata) fun j hj hjp => ?_⟩
        exact hnew j hj (hpath.trans hjp.symm)
      · exact hitems i hi
    · refine hothers q node ?_ (fun j hj => hq j (mem_cons_of_mem _ hj))
      rw [hdisk]
      exact hkeep q node (fun heq => hq item mem_cons_self (heq ▸ hpath)) hnode

theorem removes_get (hremove : ∀ path, io.remove path = true) : ∀ {names : List String} {disk : Disk},
    (∀ name ∈ names, ∀ path, resolve name = some path → disk.get path ≠ some .dir) → ∀ q,
    ((∃ name ∈ names, resolve name = some q) → (names.foldl (Disk.remove io) disk).get q = none) ∧
    ((¬ ∃ name ∈ names, resolve name = some q) → (names.foldl (Disk.remove io) disk).get q = disk.get q) := by
  intro names
  induction names with
  | nil =>
    intro disk _ q
    refine ⟨fun hex => ?_, fun _ => rfl⟩
    obtain ⟨_, h, -⟩ := hex
    cases h
  | cons name names ih =>
    intro disk hfiles q
    have hstep : ∀ p, (disk.remove io name).get p = if resolve name = some p then none else disk.get p := fun p => by
      unfold Disk.remove
      cases hpath : resolve name with
      | none => rw [if_neg (some_ne_none p).symm]
      | some path =>
        dsimp only
        rw [if_pos (hremove path), Disk.erasePath_get (hfiles name mem_cons_self path hpath)]
        by_cases hp : p = path
        · rw [if_pos hp, if_pos (by rw [hp])]
        · rw [if_neg hp, if_neg (fun heq => hp (Option.some.inj heq).symm)]
    have hfiles' : ∀ n ∈ names, ∀ path, resolve n = some path → (disk.remove io name).get path ≠ some .dir := by
      intro n hn path hpath hdir
      rw [hstep] at hdir
      split at hdir
      · cases hdir
      · exact hfiles n (mem_cons_of_mem _ hn) path hpath hdir
    obtain ⟨hgone, hkeep⟩ := ih hfiles' q
    rw [foldl_cons]
    refine ⟨fun hex => ?_, fun hno => ?_⟩
    · by_cases hlater : ∃ n ∈ names, resolve n = some q
      · exact hgone hlater
      · obtain ⟨n, hn, hnq⟩ := hex
        rcases mem_cons.1 hn with rfl | hn
        · rw [hkeep hlater, hstep, if_pos hnq]
        · exact absurd ⟨n, hn, hnq⟩ hlater
    · have hlater : ¬ ∃ n ∈ names, resolve n = some q := by
        rintro ⟨n, hn, hnq⟩
        exact hno ⟨n, mem_cons_of_mem _ hn, hnq⟩
      rw [hkeep hlater, hstep, if_neg fun hnq => hno ⟨name, mem_cons_self, hnq⟩]

/-! ## Mirroring a bundle -/

variable {disk : Disk} {bundle : FolderBundle}

/-- A table that tells the truth about the disk: a row for each id, and behind each row a file with its checksum. -/
structure Truthful (sha256Hex : Bytes → String) (disk : Disk) (previous : List SyncedFile) : Prop where
  ids : (previous.map SyncedFile.fileId).Nodup
  held : ∀ row ∈ previous, ∃ path data, resolve row.relPath = some path ∧ disk.get path = some (.file data) ∧
    Verified sha256Hex row.checksum data

def Skipped (folders : Table String FolderRecord) (file : FileRecord) : Prop := fileDeleted file = false ∧ target folders file = none

/-- **The directory mirrors the bundle**: every live file's content is at its target, no other path of the previous table is
left (but for the copies of skipped files), and the rows are those of the live files. -/
structure Mirrors (io : Io) (sha256Hex : Bytes → String) (folderKey : String) (bundle : FolderBundle)
    (previous : List SyncedFile) (result : Disk × List SyncedFile × Table String FolderRecord) : Prop where
  content : ∀ file ∈ bundle.files, ∀ t, target (buildFolderMap bundle) file = some t → ∃ path data,
    resolve t.1 = some path ∧ result.1.get path = some (.file data) ∧ Verified sha256Hex file.checksum data ∧
    ∀ data', io.fetch t.2 folderKey = some data' → Verified sha256Hex file.checksum data' → data' = data
  gone : ∀ row ∈ previous, ∀ path, resolve row.relPath = some path →
    (∀ file ∈ bundle.files, ∀ t, target (buildFolderMap bundle) file = some t → resolve t.1 ≠ some path) →
    (∀ file ∈ bundle.files, file.id = row.fileId → ¬ Skipped (buildFolderMap bundle) file) → result.1.get path = none
  table : (result.2.1.map fun row => (row.fileId, row.relPath, row.checksum)).Perm
    (bundle.files.filterMap fun file => (target (buildFolderMap bundle) file).map fun t => (file.id, t.1, file.checksum))

def Vacated (folders : Table String FolderRecord) (files : List FileRecord) (row : SyncedFile) : Prop := listed files row = false ∨
    ∃ file ∈ files, file.id = row.fileId ∧ ∃ t, target folders file = some t ∧ t.1 ≠ row.relPath

/-- **No path that is removed is a live file's target**, and a file that is kept without a checksum to compare is the one that
its cid names. -/
structure Clear (io : Io) (disk : Disk) (folderKey : String) (bundle : FolderBundle) (previous : List SyncedFile) : Prop where
  removals : ∀ row ∈ previous, Vacated (buildFolderMap bundle) bundle.files row → ∀ file ∈ bundle.files, ∀ t,
    target (buildFolderMap bundle) file = some t → resolve t.1 ≠ resolve row.relPath
  unsummed : ∀ row ∈ previous, ∀ file ∈ bundle.files, ∀ t, file.id = row.fileId → file.checksum = "" → row.checksum = "" →
    target (buildFolderMap bundle) file = some t → t.1 = row.relPath → ∀ path data, resolve t.1 = some path →
    io.fetch t.2 folderKey = some data → disk.get path = some (.file data)

variable {row : SyncedFile}

theorem previousOf_eq_some {fileId : String} (h : previousOf previous fileId = some row) : row ∈ previous ∧ row.fileId = fileId :=
  ⟨mem_of_find?_eq_some h, by simpa using find?_some h⟩

theorem previousOf_of_mem (h : row ∈ previous) (hids : (previous.map SyncedFile.fileId).Nodup) :
    previousOf previous row.fileId = some row := by
  cases hfind : previousOf previous row.fileId with
  | none =>
    have := find?_eq_none.1 hfind row h
    simp at this
  | some found =>
    obtain ⟨hmem, hid⟩ := previousOf_eq_some hfind
    rw [inj_on_of_nodup_map hids hmem h hid]

theorem movedOf_eq_some {rel : String} (h : movedOf folders previous file = some rel) :
    ∃ row ∈ previous, row.relPath = rel ∧ row.fileId = file.id ∧ ∃ t, target folders file = some t ∧ t.1 ≠ row.relPath := by
  obtain ⟨t, ht, h⟩ := bind_eq_some_iff.1 h
  obtain ⟨row, hrow, h⟩ := bind_eq_some_iff.1 h
  split at h
  · rename_i hne
    obtain ⟨hmem, hid⟩ := previousOf_eq_some hrow
    exact ⟨row, hmem, Option.some.inj h, hid, t, ht, hne.symm⟩
  · cases h

theorem mem_removePaths (hids : (previous.map SyncedFile.fileId).Nodup) {rel : String} :
    rel ∈ (planResync files folders previous).removePaths ↔ ∃ row ∈ previous, row.relPath = rel ∧ Vacated folders files row := by
  rw [planResync_eq, mem_append, mem_filterMap, List.mem_map]
  constructor
  · rintro (⟨file, hfile, hmoved⟩ | ⟨row, hrow, rfl⟩)
    · obtain ⟨row, hrow, hrel, hid, t, ht, hne⟩ := movedOf_eq_some hmoved
      exact ⟨row, hrow, hrel, .inr ⟨file, hfile, hid.symm, t, ht, hne⟩⟩
    · obtain ⟨hmem, hunlisted⟩ := mem_filter.1 hrow
      exact ⟨row, hmem, rfl, .inl (by simpa using hunlisted)⟩
  · rintro ⟨row, hrow, rfl, hunlisted | ⟨file, hfile, hid, t, ht, hne⟩⟩
    · exact .inr ⟨row, mem_filter.2 ⟨hrow, by rw [hunlisted]; rfl⟩, rfl⟩
    · refine .inl ⟨file, hfile, ?_⟩
      rw [movedOf, ht, bind_some, hid, previousOf_of_mem hrow hids, bind_some, if_pos hne.symm]

theorem reuseOf_eq_some (h : reuseOf folders previous file = some row) :
    row ∈ previous ∧ row.fileId = file.id ∧ row.checksum = file.checksum ∧ ∃ t, target folders file = some t ∧ row.relPath = t.1 := by
  obtain ⟨t, ht, h⟩ := bind_eq_some_iff.1 h
  obtain ⟨hfind, hsame⟩ := filter_eq_some_iff.1 h
  obtain ⟨hmem, hid⟩ := previousOf_eq_some hfind
  obtain ⟨hsum, hrel⟩ := of_decide_eq_true hsame
  exact ⟨hmem, hid, hsum, t, ht, hrel⟩

theorem fetchOf_eq_some {item : FetchItem} (h : fetchOf folders previous file = some item) :
    item.file = file ∧ target folders file = some (item.rel, item.cid) ∧ reuseOf folders previous file = none := by
  obtain ⟨t, ht, h⟩ := bind_eq_some_iff.1 h
  split at h
  · rename_i hnone
    cases h
    exact ⟨rfl, ht, hnone⟩
  · cases h

theorem reuse_or_fetch (ht : target folders file = some t) :
    (∃ row, reuseOf folders previous file = some row ∧ fetchOf folders previous file = none) ∨
      (reuseOf folders previous file = none ∧ fetchOf folders previous file = some ⟨file, t.1, t.2⟩) := by
  cases hreuse : reuseOf folders previous file with
  | none => exact .inr ⟨rfl, by rw [fetchOf, ht, bind_some, if_pos hreuse]⟩
  | some row => exact .inl ⟨row, rfl, by rw [fetchOf, ht, bind_some, if_neg (by rw [hreuse]; nofun)]⟩

theorem fetch_pairwise (h : (liveTargets folders files).Nodup) :
    (files.filterMap (fetchOf folders previous)).Pairwise fun a b => resolve a.rel ≠ resolve b.rel := by
  rw [pairwise_filterMap]
  refine (pairwise_filterMap.1 h).imp (fun {a b} hab i hi j hj heq => ?_)
  obtain ⟨-, hti, -⟩ := fetchOf_eq_some hi
  obtain ⟨-, htj, -⟩ := fetchOf_eq_some hj
  obtain ⟨hilive, hirel, -⟩ := target_eq_some hti
  obtain ⟨hjlive, hjrel, -⟩ := target_eq_some htj
  obtain ⟨p, hp, hpeq⟩ := fileTargetRel_path hirel
  obtain ⟨q, hq, hqeq⟩ := fileTargetRel_path hjrel
  have hpq : p = q := Option.some.inj (hp.symm.trans (heq.trans hq))
  refine hab i.rel (by rw [hilive, if_neg nofun, hirel]) j.rel (by rw [hjlive, if_neg nofun, hjrel]) ?_
  calc i.rel = "/".intercalate p := hpeq
    _ = "/".intercalate q := by rw [hpq]
    _ = j.rel := hqeq.symm

theorem rows_perm (folders : Table String FolderRecord) (previous : List SyncedFile) : ∀ files : List FileRecord,
    ((files.filterMap (reuseOf folders previous) ++ (files.filterMap (fetchOf folders previous)).map FetchItem.row).map
      fun row => (row.fileId, row.relPath, row.checksum)).Perm
    (files.filterMap fun file => (target folders file).map fun t => (file.id, t.1, file.checksum))
  | [] => .refl _
  | file :: files => by
    have ih := rows_perm folders previous files
    rw [filterMap_cons, filterMap_cons, filterMap_cons]
    cases ht : target folders file with
    | none =>
      rw [show reuseOf folders previous file = none by rw [reuseOf, ht, bind_none],
        show fetchOf folders previous file = none by rw [fetchOf, ht, bind_none]]
      exact ih
    | some t =>
      rcases @reuse_or_fetch _ previous _ _ ht with ⟨row, hreuse, hfetch⟩ | ⟨hreuse, hfetch⟩
      · rw [hreuse, hfetch]
        obtain ⟨-, hid, hsum, u, hu, hrel⟩ := reuseOf_eq_some hreuse
        obtain rfl := Option.some.inj (ht.symm.trans hu)
        refine .trans ?_ (ih.cons _)
        simp [hid, hsum, hrel]
      · rw [hreuse, hfetch]
        refine .trans ?_ (ih.cons _)
        simp only [map_append]
        exact perm_middle

section Resync

variable (hprev : Truthful sha256Hex disk previous) (htargets : (liveTargets (buildFolderMap bundle) bundle.files).Nodup)
  (hsynced : allSynced io sha256Hex folderKey (disk, (planResync bundle.files (buildFolderMap bundle) previous).reuse)
    (planResync bundle.files (buildFolderMap bundle) previous).fetch = true)
  (hremove : ∀ path, io.remove path = true)

def written (io : Io) (sha256Hex : Bytes → String) (disk : Disk) (folderKey : String) (bundle : FolderBundle)
    (previous : List SyncedFile) : Disk × List SyncedFile :=
  let plan := planResync bundle.files (buildFolderMap bundle) previous
  plan.fetch.foldl (syncItem io sha256Hex folderKey) (disk, plan.reuse)

include htargets hsynced in
theorem written_rows : (written io sha256Hex disk folderKey bundle previous).2 =
    bundle.files.filterMap (reuseOf (buildFolderMap bundle) previous) ++
      (bundle.files.filterMap (fetchOf (buildFolderMap bundle) previous)).map FetchItem.row := by
  rw [planResync_eq] at hsynced
  rw [written, planResync_eq]
  exact (syncItems_done hsynced (fetch_pairwise htargets)).1

include htargets hsynced in
theorem written_fetched (hfile : file ∈ bundle.files)
    (hfetch : fetchOf (buildFolderMap bundle) previous file = some ⟨file, t.1, t.2⟩) : ∃ data path,
    io.fetch t.2 folderKey = some data ∧ Verified sha256Hex file.checksum data ∧ resolve t.1 = some path ∧
    (written io sha256Hex disk folderKey bundle previous).1.get path = some (.file data) := by
  rw [planResync_eq] at hsynced
  rw [written, planResync_eq]
  exact (syncItems_done hsynced (fetch_pairwise htargets)).2.1 _ (mem_filterMap.2 ⟨file, hfile, hfetch⟩)

include htargets hsynced in
theorem written_kept {node : Node} (hnode : disk.get path = some node)
    (hno : ∀ file ∈ bundle.files, ∀ item, fetchOf (buildFolderMap bundle) previous file = some item →
      resolve item.rel ≠ some path) : (written io sha256Hex disk folderKey bundle previous).1.get path = some node := by
  rw [planResync_eq] at hsynced
  rw [written, planResync_eq]
  refine (syncItems_done hsynced (fetch_pairwise htargets)).2.2 path node hnode (fun item hitem => ?_)
  obtain ⟨file, hfile, hitem⟩ := mem_filterMap.1 hitem
  exact hno file hfile item hitem

include htargets hsynced in
theorem written_file {data : Bytes} (hdata : disk.get path = some (.file data)) :
    (written io sha256Hex disk folderKey bundle previous).1.get path ≠ some .dir := by
  by_cases hno : ∀ file ∈ bundle.files, ∀ item, fetchOf (buildFolderMap bundle) previous file = some item → resolve item.rel ≠ some path
  · rw [written_kept htargets hsynced hdata hno]
    nofun
  · simp only [not_forall, not_not] at hno
    obtain ⟨file, hfile, item, hitem, hpath⟩ := hno
    obtain ⟨rfl, ht, -⟩ := fetchOf_eq_some hitem
    obtain ⟨new, p, -, -, hp, hget⟩ := written_fetched htargets hsynced (t := (item.rel, item.cid)) hfile hitem
    obtain rfl := Option.some.inj (hp.symm.trans hpath)
    rw [hget]
    nofun

include hprev htargets hsynced hremove in
theorem syncBundle_get (q : Path) :
    ((∃ row ∈ previous, resolve row.relPath = some q ∧ Vacated (buildFolderMap bundle) bundle.files row) →
      (syncBundle io sha256Hex disk folderKey bundle previous).1.get q = none) ∧
    ((¬ ∃ row ∈ previous, resolve row.relPath = some q ∧ Vacated (buildFolderMap bundle) bundle.files row) →
      (syncBundle io sha256Hex disk folderKey bundle previous).1.get q =
        (written io sha256Hex disk folderKey bundle previous).1.get q) := by
  have hfiles : ∀ name ∈ (planResync bundle.files (buildFolderMap bundle) previous).removePaths, ∀ path,
      resolve name = some path → (written io sha256Hex disk folderKey bundle previous).1.get path ≠ some .dir := by
    intro name hname path hpath
    obtain ⟨row, hrow, rfl, -⟩ := (mem_removePaths hprev.ids).1 hname
    obtain ⟨p, data, hp, hdata, -⟩ := hprev.held row hrow
    obtain rfl := Option.some.inj (hp.symm.trans hpath)
    exact written_file htargets hsynced hdata
  have hiff : (∃ name ∈ (planResync bundle.files (buildFolderMap bundle) previous).removePaths, resolve name = some q) ↔
      ∃ row ∈ previous, resolve row.relPath = some q ∧ Vacated (buildFolderMap bundle) bundle.files row := by
    constructor
    · rintro ⟨name, hname, hq⟩
      obtain ⟨row, hrow, rfl, hvac⟩ := (mem_removePaths hprev.ids).1 hname
      exact ⟨row, hrow, hq, hvac⟩
    · rintro ⟨row, hrow, hq, hvac⟩
      exact ⟨row.relPath, (mem_removePaths hprev.ids).2 ⟨row, hrow, rfl, hvac⟩, hq⟩
  rw [← hiff]
  exact removes_get hremove hfiles q

include hprev htargets hsynced hremove in
theorem syncBundle_reused (hclear : ∀ row ∈ previous, Vacated (buildFolderMap bundle) bundle.files row → ∀ file ∈ bundle.files,
      ∀ t, target (buildFolderMap bundle) file = some t → resolve t.1 ≠ resolve row.relPath)
    (hfile : file ∈ bundle.files) (ht : target (buildFolderMap bundle) file = some t)
    (hnone : fetchOf (buildFolderMap bundle) previous file = none) (hpath : resolve t.1 = some path)
    {node : Node} (hnode : disk.get path = some node) :
    (syncBundle io sha256Hex disk folderKey bundle previous).1.get path = some node := by
  rw [(syncBundle_get hprev htargets hsynced hremove path).2 ?_]
  · refine written_kept htargets hsynced hnode (fun other hother item hitem heq => ?_)
    obtain ⟨hsame, hother', -⟩ := fetchOf_eq_some hitem
    obtain rfl := eq_of_same_path htargets hfile hother ht hother' hpath heq
    rw [hnone] at hitem
    cases hitem
  · rintro ⟨row, hrow, hq, hvac⟩
    exact hclear row hrow hvac file hfile t ht (hpath.trans hq.symm)

include hprev htargets hsynced hremove in
/-- **A resync mirrors the bundle exactly if no path that it removes is a live file's target** (and what it keeps without a
checksum is what the cid names). -/
theorem resync_mirrors_iff
    (hsha : ∀ row ∈ previous, ∀ path data cid data', resolve row.relPath = some path → disk.get path = some (.file data) →
      io.fetch cid folderKey = some data' → sha256Hex data = sha256Hex data' → data = data') :
    Mirrors io sha256Hex folderKey bundle previous (syncBundle io sha256Hex disk folderKey bundle previous) ↔
      Clear io disk folderKey bundle previous := by
  constructor
  · intro h
    have hclear : ∀ row ∈ previous, Vacated (buildFolderMap bundle) bundle.files row → ∀ file ∈ bundle.files, ∀ t,
        target (buildFolderMap bundle) file = some t → resolve t.1 ≠ resolve row.relPath := by
      intro row hrow hvac file hfile t ht heq
      obtain ⟨path, data, hpath, hget, -⟩ := h.content file hfile t ht
      rw [(syncBundle_get hprev htargets hsynced hremove path).1 ⟨row, hrow, heq ▸ hpath, hvac⟩] at hget
      cases hget
    refine ⟨hclear, fun row hrow file hfile t hid hfsum hrsum ht hrel path data hpath hfetch => ?_⟩
    obtain ⟨p, old, hp, hold, -⟩ := hprev.held row hrow
    obtain rfl := Option.some.inj (hp.symm.trans (hrel ▸ hpath))
    obtain ⟨p', new, hp', hnew, -, hsame⟩ := h.content file hfile t ht
    obtain rfl := Option.some.inj (hp'.symm.trans hpath)
    have hreuse : reuseOf (buildFolderMap bundle) previous file = some row := by
      rw [reuseOf, ht, bind_some, hid, previousOf_of_mem hrow hprev.ids, filter_some, if_pos]
      exact decide_eq_true ⟨hrsum.trans hfsum.symm, hrel.symm⟩
    have hnone : fetchOf (buildFolderMap bundle) previous file = none := by
      rw [fetchOf, ht, bind_some, if_neg (by rw [hreuse]; nofun)]
    rw [syncBundle_reused hprev htargets hsynced hremove hclear hfile ht hnone hpath hold] at hnew
    rw [hold, hsame data hfetch (.inl hfsum)]
    exact hnew
  · intro h
    refine ⟨fun file hfile t ht => ?_, fun row hrow path hpath hno hkept => ?_, ?_⟩
    · obtain ⟨path, hpath, -⟩ := fileTargetRel_path (target_eq_some ht).2.1
      rcases @reuse_or_fetch _ previous _ _ ht with ⟨row, hreuse, hnone⟩ | ⟨-, hfetch⟩
      · obtain ⟨hrow, hid, hsum, u, hu, hrel⟩ := reuseOf_eq_some hreuse
        obtain rfl := Option.some.inj (ht.symm.trans hu)
        obtain ⟨p, data, hp, hdata, hver⟩ := hprev.held row hrow
        obtain rfl := Option.some.inj (hp.symm.trans (hrel ▸ hpath))
        refine ⟨p, data, hpath, syncBundle_reused hprev htargets hsynced hremove h.removals hfile ht hnone hpath hdata,
          hsum ▸ hver, fun data' hfetch hver' => ?_⟩
        by_cases hempty : file.checksum = ""
        · have hkept := h.unsummed row hrow file hfile t hid.symm hempty (hsum.trans hempty) ht hrel.symm p data' hpath hfetch
          rw [hdata] at hkept
          exact (Node.file.inj (Option.some.inj hkept)).symm
        · have hold := hver.resolve_left (by rw [hsum]; exact hempty)
          exact (hsha row hrow p data t.2 data' hp hdata hfetch
            (hold.trans (hsum.trans (hver'.resolve_left hempty).symm))).symm
      · obtain ⟨data, p, hdata, hver, hp, hget⟩ := written_fetched htargets hsynced hfile hfetch
        refine ⟨p, data, hp, ?_, hver, fun data' hdata' _ => Option.some.inj (hdata'.symm.trans hdata)⟩
        rw [(syncBundle_get hprev htargets hsynced hremove p).2 ?_, hget]
        rintro ⟨row, hrow, hq, hvac⟩
        exact h.removals row hrow hvac file hfile t ht (hp.trans hq.symm)
    · refine (syncBundle_get hprev htargets hsynced hremove path).1 ⟨row, hrow, hpath, ?_⟩
      by_cases hlisted : listed bundle.files row = false
      · exact .inl hlisted
      · rw [Bool.not_eq_false, listed, List.any_eq_true] at hlisted
        obtain ⟨file, hfile, hboth⟩ := hlisted
        obtain ⟨hlive, hid⟩ := Bool.and_eq_true_iff.1 hboth
        have hid' : file.id = row.fileId := of_decide_eq_true hid
        cases ht : target (buildFolderMap bundle) file with
        | none => exact absurd ⟨by simpa using hlive, ht⟩ (hkept file hfile hid')
        | some t =>
          refine .inr ⟨file, hfile, hid', t, ht, fun heq => ?_⟩
          exact hno file hfile t ht (heq ▸ hpath)
    · have hrows : (syncBundle io sha256Hex disk folderKey bundle previous).2.1 =
          (written io sha256Hex disk folderKey bundle previous).2 := rfl
      rw [hrows, written_rows htargets hsynced]
      exact rows_perm _ _ _

end Resync

/-! ## Two files that swap their names -/

/-- SHA-256 of `a`. -/
def sumA : String := "ca978112ca1bbdcafac231b39a23dc4da786eff8147c4e72b9807785afee48bb"

/-- SHA-256 of `b`. -/
def sumB : String := "3e23e8160039594a33894f6564e1b1348bbd7a0088d42c4acb73eeaed59c009d"

def sampleSha (data : Bytes) : String := if data = [97] then sumA else if data = [98] then sumB else ""

def sampleIo : Io where
  fetch cid _ := if cid = "cid-a" then some [97] else if cid = "cid-b" then some [98] else none
  mkdir _ := true
  write _ := .done
  remove _ := true

def sampleFile (id name checksum cid : String) : FileRecord := ⟨id, "root", name, checksum, some cid, none, none⟩

def sampleBundle (files : List FileRecord) : FolderBundle := ⟨⟨"root", "Shared", none, none⟩, none, files⟩

def sampleDisk : Disk := (insert ∅ ["a.txt"] (.file [97])).insert ["b.txt"] (.file [98])

def sampleRows : List SyncedFile := [⟨"f1", "root", "a.txt", sumA⟩, ⟨"f2", "root", "b.txt", sumB⟩]

theorem sample_truthful : Truthful sampleSha sampleDisk sampleRows := by
  refine ⟨by decide, fun row hrow => ?_⟩
  rcases mem_cons.1 hrow with rfl | hrow
  · exact ⟨["a.txt"], [97], by decide, by decide, .inr rfl⟩
  · rw [mem_singleton.1 hrow]
    exact ⟨["b.txt"], [98], by decide, by decide, .inr rfl⟩

theorem sample_noCollision : ∀ row ∈ sampleRows, ∀ path data cid data', resolve row.relPath = some path →
    sampleDisk.get path = some (.file data) → sampleIo.fetch cid "key" = some data' → sampleSha data = sampleSha data' →
    data = data' := by
  have hfetch : ∀ cid data, sampleIo.fetch cid "key" = some data → data = [97] ∨ data = [98] := by
    intro cid data h
    simp only [sampleIo] at h
    split at h
    · exact .inl (Option.some.inj h).symm
    · split at h
      · exact .inr (Option.some.inj h).symm
      · cases h
  have hheld : ∀ row ∈ sampleRows, ∀ path data, resolve row.relPath = some path → sampleDisk.get path = some (.file data) →
      data = [97] ∨ data = [98] := by
    intro row hrow path data hpath hdata
    rcases mem_cons.1 hrow with rfl | hrow
    · rw [show resolve "a.txt" = some ["a.txt"] by decide] at hpath
      rw [← Option.some.inj hpath] at hdata
      exact .inl (Node.file.inj (Option.some.inj hdata)).symm
    · rw [mem_singleton.1 hrow, show resolve "b.txt" = some ["b.txt"] by decide] at hpath
      rw [← Option.some.inj hpath] at hdata
      exact .inr (Node.file.inj (Option.some.inj hdata)).symm
  intro row hrow path data cid data' hpath hdata hcid hsum
  rcases hheld row hrow path data hpath hdata with rfl | rfl <;> rcases hfetch cid data' hcid with rfl | rfl
  · rfl
  · exact absurd hsum (by decide)
  · exact absurd hsum (by decide)
  · rfl

theorem resync_mirrors_renamed : Mirrors sampleIo sampleSha "key" (sampleBundle [sampleFile "f1" "c.txt" sumA "cid-a"]) sampleRows
      (syncBundle sampleIo sampleSha sampleDisk "key" (sampleBundle [sampleFile "f1" "c.txt" sumA "cid-a"]) sampleRows) := by
  refine (resync_mirrors_iff sample_truthful (by decide) (by decide) (fun _ => rfl) sample_noCollision).2
    ⟨fun row hrow _ file hfile t ht => ?_, fun row hrow file hfile t _ hfsum _ _ _ => ?_⟩
  · rw [mem_singleton.1 hfile] at ht
    rw [← Option.some.inj ht]
    rcases mem_cons.1 hrow with rfl | hrow
    · decide
    · rw [mem_singleton.1 hrow]
      decide
  · rw [mem_singleton.1 hfile] at hfsum
    exact absurd hfsum (by decide)

/-- Two files that swap their names are both gone after the resync. -/
theorem swapped_not_mirrored : ¬ ∀ io sha256Hex disk folderKey bundle previous,
    Truthful sha256Hex disk previous → (liveTargets (buildFolderMap bundle) bundle.files).Nodup →
    allSynced io sha256Hex folderKey (disk, (planResync bundle.files (buildFolderMap bundle) previous).reuse)
      (planResync bundle.files (buildFolderMap bundle) previous).fetch = true →
    (∀ path, io.remove path = true) →
    (∀ row ∈ previous, ∀ path data cid data', resolve row.relPath = some path → disk.get path = some (.file data) →
      io.fetch cid folderKey = some data' → sha256Hex data = sha256Hex data' → data = data') →
    Mirrors io sha256Hex folderKey bundle previous (syncBundle io sha256Hex disk folderKey bundle previous) := by
  intro h
  have hmirrors := h sampleIo sampleSha sampleDisk "key"
    (sampleBundle [sampleFile "f1" "b.txt" sumA "cid-a", sampleFile "f2" "a.txt" sumB "cid-b"]) sampleRows sample_truthful
    (by decide) (by decide) (fun _ => rfl) sample_noCollision
  obtain ⟨path, data, hpath, hget, -⟩ := hmirrors.content _ mem_cons_self ("b.txt", "cid-a") (by decide)
  rw [show resolve "b.txt" = some ["b.txt"] by decide] at hpath
  rw [← Option.some.inj hpath] at hget
  cases hget

end Mistl.Folder
