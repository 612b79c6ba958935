import Mistl.FolderSync
/-!
# FolderTable — the table, the disk and the recorded bundle

Between two updates the table tells the truth about the disk.  A run keeps that as long as no fetch, write or removal fails
and no update is made from a table that another one has replaced.
-/
open List

namespace Mistl.Folder

variable {sha256Hex : Bytes → String} {x x' : Sync} {act : Act}

/-! ## What is recorded -/

def amend (files : List FileRecord) : Change → List FileRecord
  | .upserted file => files.filter (fun f => f.id ≠ file.id) ++ [file]
  | .deleted fileId => files.filter fun f => f.id ≠ fileId

def Sync.bundleFiles (x : Sync) : List FileRecord := x.changes.foldl amend x.recorded

def Job.working : Job → Bool
  | .sync _ _ _ _ => true
  | .upsertWrite _ _ _ => true
  | .upsertRecord _ _ => true
  | .deleteRecord _ => true
  | _ => false

def Task.working : Task → Bool
  | .job _ work => work.working
  | _ => false

def Task.rows : Task → List SyncedFile
  | .job _ (.sync _ _ files _) => files
  | .job _ (.upsertWrite file rel _) => [upsertedRow file rel]
  | .job _ (.upsertRecord file rel) => [upsertedRow file rel]
  | _ => []

def Held (sha256Hex : Bytes → String) (disk : Disk) (rel checksum : String) : Prop :=
  ∃ path data, resolve rel = some path ∧ disk.get path = some (.file data) ∧ Verified sha256Hex checksum data

/-- Between two updates a synced entry has every live file of its bundle on the disk. -/
def Sync.Materialized (sha256Hex : Bytes → String) (x : Sync) : Prop :=
  (∀ who, (x.tasks who).working = false) → x.entry.status = .synced → ∀ file ∈ x.bundleFiles, ∀ t,
    target x.entry.folders file = some t → Held sha256Hex x.disk t.1 file.checksum

/-- Each path that the sync wrote and did not remove is listed, or an update under way is about to list it. -/
def Sync.Listed (x : Sync) : Prop := ∀ path ∈ x.owned, (∃ row ∈ x.entry.files, resolve row.relPath = some path) ∨
    ∃ who, ∃ row ∈ (x.tasks who).rows, resolve row.relPath = some path

/-- **Synced means synced, and no file is forgotten.** -/
structure Sync.Kept (sha256Hex : Bytes → String) (x : Sync) : Prop where
  materialized : x.Materialized sha256Hex
  listed : x.Listed

/-- A bundle whose live files have ids and paths of their own, none of them the path of a row that is removed, and whose skipped
files have no rows. -/
structure Regular (bundle : FolderBundle) (previous : List SyncedFile) : Prop where
  ids : ((bundle.files.filter (fun f => !fileDeleted f)).map FileRecord.id).Nodup
  targets : (liveTargets (buildFolderMap bundle) bundle.files).Nodup
  clear : ∀ row ∈ previous, Vacated (buildFolderMap bundle) bundle.files row → ∀ file ∈ bundle.files, ∀ t,
    target (buildFolderMap bundle) file = some t → resolve t.1 ≠ resolve row.relPath
  skipped : ∀ file ∈ bundle.files, Skipped (buildFolderMap bundle) file → ∀ row ∈ previous, row.fileId ≠ file.id

def Lands (io : Io) (sha256Hex : Bytes → String) (folderKey : String) (disk : Disk) (item : FetchItem) : Prop :=
  ∃ data path, io.fetch item.cid folderKey = some data ∧ Verified sha256Hex item.file.checksum data ∧
    resolve item.rel = some path ∧ (disk.store io path data).2 = true

def Removes (io : Io) (rel : String) : Prop := ∀ path, resolve rel = some path → io.remove path = true

/-- **Every update succeeds, and is made from the table as it is.** -/
def Orderly (sha256Hex : Bytes → String) (x : Sync) : Act → Prop
  | .giveUp who => (x.tasks who).working = false
  | .fetched who bundle => ∀ announcement previous cid signature granted folderKey,
      x.tasks who = .job announcement (.bundle previous cid signature granted folderKey) →
      previous = x.entry.files ∧ (x.tasks who.other).working = false ∧ Regular bundle previous
  | .item who io => ∀ announcement goal item fetch files removePaths,
      x.tasks who = .job announcement (.sync goal (item :: fetch) files removePaths) →
      Lands io sha256Hex goal.folderKey x.disk item
  | .remove who io => ∀ announcement goal files rel removePaths,
      x.tasks who = .job announcement (.sync goal [] files (rel :: removePaths)) → Removes io rel
  | .upsertRemove io => ∀ announcement snapshot file rel data,
      x.tasks .handler = .job announcement (.upsertRemove snapshot file rel data) →
      snapshot.files = x.entry.files ∧ snapshot.folders = x.entry.folders ∧ (x.tasks .retry).working = false ∧
      (∀ row ∈ x.entry.files, row.fileId ≠ file.id → resolve row.relPath ≠ resolve rel) ∧
      ∀ row ∈ x.entry.files, row.fileId = file.id → row.relPath ≠ rel → Removes io row.relPath
  | .upsertWrite io => ∀ announcement file rel data path,
      x.tasks .handler = .job announcement (.upsertWrite file rel data) → resolve rel = some path →
      (x.disk.store io path data).2 = true ∨ (x.disk.store io path data).1.get path = x.disk.get path ∧
        ∀ row ∈ x.entry.files, row.fileId = file.id → row.relPath = rel
  | .deleteRemove io => ∀ announcement fileId row, x.tasks .handler = .job announcement (.deleteRemove fileId row) →
      previousOf x.entry.files fileId = some row ∧ (x.tasks .retry).working = false ∧ Removes io row.relPath
  | _ => True

/-! ## The table, the disk and the bundle -/

structure Mirror where
  files : List SyncedFile
  folders : Table String FolderRecord
  disk : Disk
  owned : List Path
  bundleFiles : List FileRecord

def Sync.mirror (x : Sync) : Mirror := ⟨x.entry.files, x.entry.folders, x.disk, x.owned, x.bundleFiles⟩

variable {job : Job}

namespace Mirror

variable {m : Mirror} {io : Io} {goal : Goal} {fetch : List FetchItem} {files : List SyncedFile} {removePaths : List String}

/-- A table with ids and paths of its own, and a row for every live file. -/
structure Tidy (m : Mirror) : Prop where
  ids : (m.files.map SyncedFile.fileId).Nodup
  paths : m.files.Pairwise fun a b => resolve a.relPath ≠ resolve b.relPath
  rows : ∀ file ∈ m.bundleFiles, ∀ t, target m.folders file = some t →
    ∃ row ∈ m.files, row.fileId = file.id ∧ row.relPath = t.1 ∧ row.checksum = file.checksum

/-- **Between two updates.** -/
structure Rest (sha256Hex : Bytes → String) (m : Mirror) : Prop extends Tidy m where
  held : ∀ row ∈ m.files, Held sha256Hex m.disk row.relPath row.checksum
  owned : ∀ path ∈ m.owned, ∃ row ∈ m.files, resolve row.relPath = some path

/-- A bundle's resync, after some of its fetches and removals. -/
structure Syncing (sha256Hex : Bytes → String) (m : Mirror) (goal : Goal) (fetch : List FetchItem) (files : List SyncedFile)
    (removePaths : List String) : Prop where
  ids : ((goal.bundle.files.filter (fun f => !fileDeleted f)).map FileRecord.id).Nodup
  targets : (liveTargets (buildFolderMap goal.bundle) goal.bundle.files).Nodup
  plan : ∃ done, goal.bundle.files.filterMap (fetchOf (buildFolderMap goal.bundle) m.files) = done ++ fetch ∧
    files = goal.bundle.files.filterMap (reuseOf (buildFolderMap goal.bundle) m.files) ++ done.map FetchItem.row
  held : ∀ row ∈ files, Held sha256Hex m.disk row.relPath row.checksum
  clear : ∀ rel ∈ removePaths, ∀ file ∈ goal.bundle.files, ∀ t, target (buildFolderMap goal.bundle) file = some t →
    resolve t.1 ≠ resolve rel
  stale : ∀ rel ∈ removePaths, ∃ path, resolve rel = some path ∧
    ((∃ data, m.disk.get path = some (.file data)) ∨ fetch = [] ∧ m.disk.get path = none)
  left : ∀ path ∈ m.owned, (∃ row ∈ files, resolve row.relPath = some path) ∨
    (∃ item ∈ fetch, resolve item.rel = some path) ∨ ∃ rel ∈ removePaths, resolve rel = some path
  listed : ∀ path ∈ m.owned, (∃ row ∈ m.files, resolve row.relPath = some path) ∨ ∃ row ∈ files, resolve row.relPath = some path

/-- One file's update, after its old path was removed; `spot` is where its new copy goes. -/
structure Cleared (sha256Hex : Bytes → String) (m : Mirror) (fileId : String) (spot : Option Path) : Prop extends Tidy m where
  held : ∀ row ∈ m.files, row.fileId ≠ fileId → Held sha256Hex m.disk row.relPath row.checksum
  apart : ∀ row ∈ m.files, row.fileId ≠ fileId → resolve row.relPath ≠ spot
  owned : ∀ path ∈ m.owned, (∃ row ∈ m.files, row.fileId ≠ fileId ∧ resolve row.relPath = some path) ∨ spot = some path

def At (sha256Hex : Bytes → String) (m : Mirror) : Job → Prop
  | .sync goal fetch files removePaths => m.Syncing sha256Hex goal fetch files removePaths
  | .upsertRemove snapshot file rel data =>
      fileTargetRel snapshot.folders file.folderId file.name = some rel ∧ Verified sha256Hex file.checksum data
  | .upsertWrite file rel data =>
      fileTargetRel m.folders file.folderId file.name = some rel ∧ Verified sha256Hex file.checksum data ∧
      m.Cleared sha256Hex file.id (resolve rel) ∧
      ((∀ row ∈ m.files, row.fileId = file.id → row.relPath = rel) → m.Rest sha256Hex)
  | .upsertRecord file rel =>
      fileTargetRel m.folders file.folderId file.name = some rel ∧ m.Cleared sha256Hex file.id (resolve rel) ∧
      Held sha256Hex m.disk rel file.checksum
  | .deleteRecord fileId => m.Cleared sha256Hex fileId none
  | _ => True

/-! ## A bundle's resync -/

variable {path : Path}

theorem mem_ownedAfter {owned : List Path} {disk disk' : Disk} {name : String} {done : Bool}
    (h : path ∈ ownedAfter owned disk disk' name done) : path ∈ owned ∨ resolve name = some path := by
  unfold ownedAfter at h
  split at h
  · exact .inl h
  · rename_i p hp
    split at h
    · exact (mem_cons.1 h).symm.imp_right fun heq => by rw [hp, heq]
    · exact .inl h

variable {disk : Disk}

theorem mem_filter_owned {owned : List Path}
    (h : path ∈ owned.filter (fun path => (disk.get path).isSome)) : path ∈ owned ∧ disk.get path ≠ none := by
  obtain ⟨hmem, hsome⟩ := mem_filter.1 h
  exact ⟨hmem, Option.isSome_iff_ne_none.1 hsome⟩

theorem Tidy.eq_of_id (h : m.Tidy) {row row' : SyncedFile} (hrow : row ∈ m.files) (hrow' : row' ∈ m.files)
    (hid : row.fileId = row'.fileId) : row = row' :=
  inj_on_of_nodup_map h.ids hrow hrow' hid

theorem Tidy.eq_of_path (h : m.Tidy) {row row' : SyncedFile} (hrow : row ∈ m.files) (hrow' : row' ∈ m.files)
    (hpath : resolve row.relPath = resolve row'.relPath) : row = row' := by
  have hsymm : Std.Symm fun a b : SyncedFile => resolve a.relPath ≠ resolve b.relPath := ⟨fun _ _ hab => hab.symm⟩
  by_contra hne
  exact h.paths.forall hrow hrow' hne hpath

theorem Rest.syncing (h : m.Rest sha256Hex) (hregular : Regular goal.bundle m.files) :
    let plan := planResync goal.bundle.files (buildFolderMap goal.bundle) m.files
    m.Syncing sha256Hex goal plan.fetch plan.reuse plan.removePaths := by
  intro plan
  have hplan : plan = _ := planResync_eq goal.bundle.files (buildFolderMap goal.bundle) m.files
  have hremoves : ∀ rel ∈ plan.removePaths, ∃ row ∈ m.files, row.relPath = rel ∧
      Vacated (buildFolderMap goal.bundle) goal.bundle.files row := fun rel hrel => (mem_removePaths h.ids).1 hrel
  refine ⟨hregular.ids, hregular.targets, ⟨[], by rw [hplan]; rfl, by rw [hplan]; simp⟩, fun row hrow => ?_, fun rel hrel => ?_,
    fun rel hrel => ?_, fun path hpath => ?_, fun path hpath => .inl (h.owned path hpath)⟩
  · rw [hplan] at hrow
    obtain ⟨file, -, hreuse⟩ := mem_filterMap.1 hrow
    exact h.held row (reuseOf_eq_some hreuse).1
  · obtain ⟨row, hrow, rfl, hvac⟩ := hremoves rel hrel
    exact hregular.clear row hrow hvac
  · obtain ⟨row, hrow, rfl, -⟩ := hremoves rel hrel
    obtain ⟨path, data, hpath, hdata, -⟩ := h.held row hrow
    exact ⟨path, hpath, .inl ⟨data, hdata⟩⟩
  · obtain ⟨row, hrow, hrel⟩ := h.owned path hpath
    by_cases hvac : Vacated (buildFolderMap goal.bundle) goal.bundle.files row
    · exact .inr (.inr ⟨row.relPath, (mem_removePaths h.ids).2 ⟨row, hrow, rfl, hvac⟩, hrel⟩)
    rw [Vacated, not_or, Bool.not_eq_false, listed, any_eq_true] at hvac
    obtain ⟨⟨file, hfile, hboth⟩, hunmoved⟩ := hvac
    obtain ⟨hlive, hid⟩ := Bool.and_eq_true_iff.1 hboth
    have hid' : file.id = row.fileId := of_decide_eq_true hid
    cases ht : target (buildFolderMap goal.bundle) file with
    | none => exact absurd hid'.symm (hregular.skipped file hfile ⟨by simpa using hlive, ht⟩ row hrow)
    | some t =>
      have hsame : t.1 = row.relPath := by
        by_contra hne
        exact hunmoved ⟨file, hfile, hid', t, ht, hne⟩
      rcases @reuse_or_fetch _ m.files _ _ ht with ⟨row', hreuse, -⟩ | ⟨-, hfetch⟩
      · obtain ⟨hrow', hid'', -⟩ := reuseOf_eq_some hreuse
        obtain rfl := h.eq_of_id hrow hrow' (hid'.symm.trans hid''.symm)
        exact .inl ⟨row, by rw [hplan]; exact mem_filterMap.2 ⟨file, hfile, hreuse⟩, hrel⟩
      · refine .inr (.inl ⟨⟨file, t.1, t.2⟩, by rw [hplan]; exact mem_filterMap.2 ⟨file, hfile, hfetch⟩, ?_⟩)
        exact (congrArg resolve hsame).trans hrel

variable {row : SyncedFile}

theorem Syncing.planned (h : m.Syncing sha256Hex goal fetch files removePaths) (hrow : row ∈ files) :
    ∃ file ∈ goal.bundle.files, ∃ t, target (buildFolderMap goal.bundle) file = some t ∧ row.relPath = t.1 ∧
      row.fileId = file.id ∧ (fetchOf (buildFolderMap goal.bundle) m.files file = none ∨ ∃ done, ⟨file, t.1, t.2⟩ ∈ done ∧
          goal.bundle.files.filterMap (fetchOf (buildFolderMap goal.bundle) m.files) = done ++ fetch) := by
  obtain ⟨done, hfetch, rfl⟩ := h.plan
  rcases mem_append.1 hrow with hrow | hrow
  · obtain ⟨file, hfile, hreuse⟩ := mem_filterMap.1 hrow
    obtain ⟨-, hid, -, t, ht, hrel⟩ := reuseOf_eq_some hreuse
    refine ⟨file, hfile, t, ht, hrel, hid, .inl ?_⟩
    rw [fetchOf, ht, Option.bind_some, if_neg (by rw [hreuse]; exact Option.some_ne_none _)]
  · obtain ⟨item, hitem, rfl⟩ := mem_map.1 hrow
    obtain ⟨file, hfile, hof⟩ := mem_filterMap.1 (hfetch ▸ mem_append_left _ hitem)
    obtain ⟨rfl, ht, -⟩ := fetchOf_eq_some hof
    exact ⟨item.file, hfile, _, ht, rfl, rfl, .inr ⟨done, hitem, hfetch⟩⟩

theorem Syncing.fresh {item : FetchItem} (h : m.Syncing sha256Hex goal (item :: fetch) files removePaths)
    (hrow : row ∈ files) (hpath : resolve item.rel = some path) : resolve row.relPath ≠ some path := by
  intro heq
  obtain ⟨file, hfile, t, ht, hrel, -, hor⟩ := h.planned hrow
  obtain ⟨done', hplan, -⟩ := h.plan
  obtain ⟨file', hfile', hof⟩ := mem_filterMap.1 (hplan ▸ mem_append_right done' mem_cons_self)
  obtain ⟨rfl, ht', -⟩ := fetchOf_eq_some hof
  obtain rfl := eq_of_same_path h.targets hfile hfile' ht ht' (hrel ▸ heq) hpath
  rcases hor with hnone | ⟨done, hdone, hsplit⟩
  · rw [hnone] at hof
    cases hof
  · have hpair := hsplit ▸ @fetch_pairwise _ m.files _ h.targets
    refine (pairwise_append.1 hpair).2.2 _ hdone item mem_cons_self ?_
    exact (congrArg resolve hrel.symm).trans (heq.trans hpath.symm)

theorem Syncing.item {item : FetchItem} (h : m.Syncing sha256Hex goal (item :: fetch) files removePaths)
    (hlands : Lands io sha256Hex goal.folderKey m.disk item) :
    let synced := syncItem io sha256Hex goal.folderKey (m.disk, files) item
    ({ m with disk := synced.1, owned := ownedAfter m.owned m.disk synced.1 item.rel (synced.2 ≠ files) } : Mirror).Syncing
      sha256Hex goal fetch synced.2 removePaths := by
  intro synced
  obtain ⟨data, path, hdata, hverified, hpath, hstored⟩ := hlands
  obtain ⟨hnew, -, hkeep⟩ := Disk.store_done hstored
  have hsynced : synced = ((m.disk.store io path data).1, files ++ [item.row]) := by
    have hsum : ¬ (item.file.checksum ≠ "" ∧ sha256Hex data ≠ item.file.checksum) := fun ⟨hne, hbad⟩ => hverified.elim hne hbad
    simp only [synced, syncItem, hdata, if_neg hsum, hpath, if_pos hstored, FetchItem.row]
  have hrow : ∀ p, resolve item.rel = some p → ∃ row ∈ files ++ [item.row], resolve row.relPath = some p := fun p hp =>
    ⟨item.row, mem_append_right _ (mem_singleton_self _), hp⟩
  have hold : ∀ p, (∃ row ∈ files, resolve row.relPath = some p) → ∃ row ∈ files ++ [item.row], resolve row.relPath = some p :=
    fun p ⟨row, hmem, hp⟩ => ⟨row, mem_append_left _ hmem, hp⟩
  rw [hsynced]
  refine ⟨h.ids, h.targets, ?_, fun row hmem => ?_, h.clear, fun rel hrel => ?_, fun p hp => ?_, fun p hp => ?_⟩
  · obtain ⟨done, hfetch, hfiles⟩ := h.plan
    exact ⟨done ++ [item], by rw [hfetch]; simp, by rw [hfiles]; simp⟩
  · rcases mem_append.1 hmem with hmem | hmem
    · obtain ⟨p, old, hp, hget, hver⟩ := h.held row hmem
      exact ⟨p, old, hp, hkeep p _ (fun heq => h.fresh hmem hpath (heq ▸ hp)) hget, hver⟩
    · rw [mem_singleton.1 hmem]
      exact ⟨path, data, hpath, hnew, hverified⟩
  · obtain ⟨p, hp, ⟨old, hget⟩ | ⟨hnil, -⟩⟩ := h.stale rel hrel
    · refine ⟨p, hp, .inl ⟨old, hkeep p _ (fun heq => ?_) hget⟩⟩
      obtain ⟨done, hplan, -⟩ := h.plan
      obtain ⟨file, hfile, hof⟩ := mem_filterMap.1 (hplan ▸ mem_append_right done mem_cons_self)
      obtain ⟨rfl, ht, -⟩ := fetchOf_eq_some hof
      exact h.clear rel hrel _ hfile _ ht (hpath.trans (heq ▸ hp.symm))
    · cases hnil
  · rcases mem_ownedAfter hp with hp | hp
    · rcases h.left p hp with hrows | ⟨i, hi, hip⟩ | hremoved
      · exact .inl (hold p hrows)
      · rcases mem_cons.1 hi with rfl | hi
        · exact .inl (hrow p hip)
        · exact .inr (.inl ⟨i, hi, hip⟩)
      · exact .inr (.inr hremoved)
    · exact .inl (hrow p hp)
  · rcases mem_ownedAfter hp with hp | hp
    · exact (h.listed p hp).imp_right (hold p)
    · exact .inr (hrow p hp)

variable {rel : String}

theorem remove_get (hpath : resolve rel = some path) (hremoves : Removes io rel)
    (hdir : disk.get path ≠ some .dir) (q : Path) : (disk.remove io rel).get q = if q = path then none else disk.get q := by
  unfold Disk.remove
  rw [hpath]
  dsimp only
  rw [if_pos (hremoves path hpath), Disk.erasePath_get hdir]

theorem Syncing.remove (h : m.Syncing sha256Hex goal [] files (rel :: removePaths)) (hremoves : Removes io rel) : ({ m with
      disk := m.disk.remove io rel
      owned := m.owned.filter (fun path => ((m.disk.remove io rel).get path).isSome) } : Mirror).Syncing
        sha256Hex goal [] files removePaths := by
  obtain ⟨path, hpath, hnode⟩ := h.stale rel mem_cons_self
  have hdir : m.disk.get path ≠ some .dir := by
    rcases hnode with ⟨data, hdata⟩ | ⟨-, hnone⟩
    · rw [hdata]
      nofun
    · rw [hnone]
      nofun
  have hget := remove_get hpath hremoves hdir
  refine ⟨h.ids, h.targets, h.plan, fun row hmem => ?_, fun r hr => h.clear r (mem_cons_of_mem _ hr), fun r hr => ?_,
    fun p hp => ?_, fun p hp => h.listed p (mem_filter_owned hp).1⟩
  · obtain ⟨p, data, hp, hdata, hver⟩ := h.held row hmem
    obtain ⟨file, hfile, t, ht, hrel, -⟩ := h.planned hmem
    refine ⟨p, data, hp, ?_, hver⟩
    rw [hget, if_neg fun heq => ?_, hdata]
    exact h.clear rel mem_cons_self file hfile t ht (hrel ▸ hp.trans (heq ▸ hpath.symm))
  · obtain ⟨p, hp, hor⟩ := h.stale r (mem_cons_of_mem _ hr)
    refine ⟨p, hp, ?_⟩
    rw [hget]
    split
    · exact .inr ⟨rfl, rfl⟩
    · exact hor
  · obtain ⟨hp, hsome⟩ := mem_filter_owned hp
    rw [hget] at hsome
    rcases h.left p hp with hrows | ⟨_, hi, -⟩ | ⟨r, hr, hrp⟩
    · exact .inl hrows
    · cases hi
    · rcases mem_cons.1 hr with rfl | hr
      · exact absurd (if_pos (Option.some.inj (hrp.symm.trans hpath))) hsome
      · exact .inr (.inr ⟨r, hr, hrp⟩)

theorem target_paths {folders : Table String FolderRecord} {bundleFiles : List FileRecord}
    (h : (liveTargets folders bundleFiles).Nodup) :
    (bundleFiles.filterMap fun file => (target folders file).map fun t => (file.id, t.1, file.checksum)).Pairwise
      fun a b => resolve a.2.1 ≠ resolve b.2.1 := by
  rw [pairwise_filterMap]
  refine (pairwise_filterMap.1 h).imp fun {f g} hfg a ha b hb heq => ?_
  obtain ⟨t, ht, rfl⟩ := Option.map_eq_some_iff.1 ha
  obtain ⟨u, hu, rfl⟩ := Option.map_eq_some_iff.1 hb
  obtain ⟨hflive, hfrel, -⟩ := target_eq_some ht
  obtain ⟨hglive, hgrel, -⟩ := target_eq_some hu
  obtain ⟨p, hp, hpeq⟩ := fileTargetRel_path hfrel
  obtain ⟨q, hq, hqeq⟩ := fileTargetRel_path hgrel
  have hpq : p = q := Option.some.inj (hp.symm.trans (heq.trans hq))
  refine hfg t.1 (by rw [hflive, if_neg nofun, hfrel]) u.1 (by rw [hglive, if_neg nofun, hgrel]) ?_
  rw [hpeq, hqeq, hpq]

theorem target_ids (folders : Table String FolderRecord) : ∀ bundleFiles : List FileRecord,
    ((bundleFiles.filterMap fun file => (target folders file).map fun t => (file.id, t.1, file.checksum)).map Prod.fst).Sublist
      ((bundleFiles.filter (fun f => !fileDeleted f)).map FileRecord.id)
  | [] => .slnil
  | file :: bundleFiles => by
    rw [filterMap_cons]
    cases ht : target folders file with
    | none =>
      refine (target_ids folders bundleFiles).trans (List.Sublist.map _ ?_)
      exact List.Sublist.filter _ (sublist_cons_self ..)
    | some t =>
      rw [filter_cons_of_pos (by rw [(target_eq_some ht).1]; rfl)]
      exact (target_ids folders bundleFiles).cons_cons _

theorem Syncing.record (h : m.Syncing sha256Hex goal [] files []) :
    (⟨files, buildFolderMap goal.bundle, m.disk, m.owned, goal.bundle.files⟩ : Mirror).Rest sha256Hex := by
  obtain ⟨done, hfetch, hfiles⟩ := h.plan
  rw [append_nil] at hfetch
  rw [← hfetch] at hfiles
  have hperm := rows_perm (buildFolderMap goal.bundle) m.files goal.bundle.files
  rw [← hfiles] at hperm
  refine ⟨⟨?_, ?_, fun file hfile t ht => ?_⟩, h.held, fun path hpath => ?_⟩
  · have hids := hperm.map Prod.fst
    rw [map_map] at hids
    exact hids.nodup_iff.2 (h.ids.sublist (target_ids _ _))
  · have hpaths := (hperm.pairwise_iff fun {a b} hab => Ne.symm hab).2 (target_paths h.targets)
    exact (pairwise_map (f := fun row : SyncedFile => (row.fileId, row.relPath, row.checksum))).1 hpaths
  · obtain ⟨row, hrow, heq⟩ := mem_map.1 (hperm.mem_iff.2 (mem_filterMap.2 ⟨file, hfile, by rw [ht]; rfl⟩))
    obtain ⟨hid, hrest⟩ := Prod.mk.inj heq
    exact ⟨row, hrow, hid, Prod.mk.inj hrest⟩
  · rcases h.left path hpath with hrows | ⟨_, hi, -⟩ | ⟨_, hr, -⟩
    · exact hrows
    · cases hi
    · cases hr

/-! ## One file's update -/

variable {fileId : String}

section

variable (h : m.Rest sha256Hex)

include h

theorem Rest.cleared {spot : Option Path}
    (hkept : ∀ row ∈ m.files, row.fileId ≠ fileId → ∀ path, resolve row.relPath = some path → disk.get path = m.disk.get path)
    (hgone : ∀ row ∈ m.files, row.fileId = fileId → ∀ path, resolve row.relPath = some path → spot = some path ∨ disk.get path = none)
    (hapart : ∀ row ∈ m.files, row.fileId ≠ fileId → resolve row.relPath ≠ spot) :
    ({ m with disk := disk, owned := m.owned.filter (fun path => (disk.get path).isSome) } : Mirror).Cleared sha256Hex fileId
      spot := by
  refine ⟨⟨h.ids, h.paths, h.rows⟩, fun row hrow hne => ?_, hapart, fun path hpath => ?_⟩
  · obtain ⟨path, data, hpath, hdata, hver⟩ := h.held row hrow
    exact ⟨path, data, hpath, (hkept row hrow hne path hpath).trans hdata, hver⟩
  · obtain ⟨hpath, hsome⟩ := mem_filter_owned hpath
    obtain ⟨row, hrow, hrel⟩ := h.owned path hpath
    by_cases hid : row.fileId = fileId
    · exact .inr ((hgone row hrow hid path hrel).resolve_right hsome)
    · exact .inl ⟨row, hrow, hid, hrel⟩

theorem Rest.remove_get (hrow : row ∈ m.files) (hremoves : Removes io row.relPath)
    (q : Path) : (m.disk.remove io row.relPath).get q = if resolve row.relPath = some q then none else m.disk.get q := by
  obtain ⟨path, data, hpath, hdata, -⟩ := h.held row hrow
  rw [Mirror.remove_get hpath hremoves (by rw [hdata]; nofun), hpath]
  by_cases hq : q = path
  · rw [if_pos hq, if_pos (by rw [hq])]
  · rw [if_neg hq, if_neg fun heq => hq (Option.some.inj heq).symm]

theorem Rest.remove_kept {row other : SyncedFile} (hrow : row ∈ m.files) (hother : other ∈ m.files)
    (hremoves : Removes io row.relPath) (hne : other.fileId ≠ row.fileId)
    (hpath : resolve other.relPath = some path) : (m.disk.remove io row.relPath).get path = m.disk.get path := by
  rw [h.remove_get hrow hremoves, if_neg fun heq => ?_]
  exact hne (congrArg SyncedFile.fileId (h.eq_of_path hother hrow (hpath.trans heq.symm)))

theorem Rest.upsertRemove {snapshot : SyncEntry} {file : FileRecord} (hfiles : snapshot.files = m.files)
    (hapart : ∀ row ∈ m.files, row.fileId ≠ file.id → resolve row.relPath ≠ resolve rel)
    (hremoves : ∀ row ∈ m.files, row.fileId = file.id → row.relPath ≠ rel → Removes io row.relPath) :
    let disk := removeOld io snapshot file rel m.disk
    let cleared : Mirror := { m with disk := disk, owned := m.owned.filter (fun path => (disk.get path).isSome) }
    cleared.Cleared sha256Hex file.id (resolve rel) ∧
      ((∀ row ∈ m.files, row.fileId = file.id → row.relPath = rel) → cleared.Rest sha256Hex) := by
  have hkeep : (∀ row ∈ m.files, row.fileId = file.id → row.relPath = rel) → removeOld io snapshot file rel m.disk = m.disk := by
    intro hsame
    unfold removeOld
    rw [hfiles]
    split
    · rfl
    · rename_i row hrow
      obtain ⟨hmem, hid⟩ := previousOf_eq_some hrow
      rw [if_neg (not_not.2 (hsame row hmem hid))]
  intro disk cleared
  constructor
  · by_cases hsame : ∀ row ∈ m.files, row.fileId = file.id → row.relPath = rel
    · refine h.cleared (fun row _ _ path _ => ?_) (fun row hrow hid path hpath => .inl (hsame row hrow hid ▸ hpath)) hapart
      exact congrArg (fun d : Disk => d.get path) (hkeep hsame)
    · simp only [not_forall] at hsame
      obtain ⟨row, hrow, hid, hmoved⟩ := hsame
      have hdisk : disk = m.disk.remove io row.relPath := by
        have hprevious : previousOf m.files file.id = some row := hid ▸ previousOf_of_mem hrow h.ids
        show removeOld io snapshot file rel m.disk = _
        rw [removeOld, hfiles, hprevious]
        exact if_pos hmoved
      have hremove := hremoves row hrow hid hmoved
      refine h.cleared (fun other hother hne path hpath => ?_) (fun other hother hid' path hpath => .inr ?_) hapart
      · rw [hdisk]
        exact h.remove_kept hrow hother hremove (hid ▸ hne) hpath
      · obtain rfl := h.eq_of_id hother hrow (hid'.trans hid.symm)
        rw [hdisk, h.remove_get hrow hremove, if_pos hpath]
  · intro hsame
    refine ⟨⟨h.ids, h.paths, h.rows⟩, fun row hrow => ?_, fun path hpath => h.owned path (mem_filter_owned hpath).1⟩
    show Held sha256Hex (removeOld io snapshot file rel m.disk) row.relPath row.checksum
    rw [hkeep hsame]
    exact h.held row hrow

theorem Rest.deleteRemove 
    (hrow : previousOf m.files fileId = some row) (hremoves : Removes io row.relPath) :
    let disk := m.disk.remove io row.relPath
    ({ m with disk := disk, owned := m.owned.filter (fun path => (disk.get path).isSome) } : Mirror).Cleared sha256Hex fileId
      none := by
  obtain ⟨hmem, hid⟩ := previousOf_eq_some hrow
  refine h.cleared (fun other hother hne path hpath => ?_) (fun other hother hid' path hpath => .inr ?_) (fun other hother _ => ?_)
  · exact h.remove_kept hmem hother hremoves (hid ▸ hne) hpath
  · obtain rfl := h.eq_of_id hother hmem (hid'.trans hid.symm)
    rw [h.remove_get hmem hremoves, if_pos hpath]
  · obtain ⟨path, -, hpath, -⟩ := h.held other hother
    rw [hpath]
    nofun

end

theorem Cleared.write {fileId rel : String} {data : Bytes}
    (h : m.Cleared sha256Hex fileId (resolve rel)) (hpath : resolve rel = some path) :
    let stored := m.disk.store io path data
    ({ m with disk := stored.1, owned := ownedAfter m.owned m.disk stored.1 rel stored.2 } : Mirror).Cleared sha256Hex fileId
      (resolve rel) := by
  intro stored
  refine ⟨⟨h.ids, h.paths, h.rows⟩, fun row hrow hne => ?_, h.apart, fun p hp => ?_⟩
  · obtain ⟨p, old, hp, hold, hver⟩ := h.held row hrow hne
    refine ⟨p, old, hp, Disk.store_keeps io m.disk path data (fun heq => ?_) hold, hver⟩
    exact h.apart row hrow hne (hp.trans (heq ▸ hpath.symm))
  · exact (mem_ownedAfter hp).elim (h.owned p) .inr

theorem Rest.unwritten {data : Bytes} (h : m.Rest sha256Hex) (hpath : resolve rel = some path)
    (hfailed : (m.disk.store io path data).2 = false)
    (hsame : (m.disk.store io path data).1.get path = m.disk.get path) :
    let stored := m.disk.store io path data
    ({ m with disk := stored.1, owned := ownedAfter m.owned m.disk stored.1 rel stored.2 } : Mirror).Rest sha256Hex := by
  intro stored
  refine ⟨⟨h.ids, h.paths, h.rows⟩, fun row hrow => ?_, fun p hp => ?_⟩
  · obtain ⟨p, old, hp, hold, hver⟩ := h.held row hrow
    refine ⟨p, old, hp, ?_, hver⟩
    by_cases heq : p = path
    · exact heq ▸ hsame.trans (heq ▸ hold)
    · exact Disk.store_keeps io m.disk path data heq hold
  · have howned : ownedAfter m.owned m.disk stored.1 rel stored.2 = m.owned := by
      unfold ownedAfter
      rw [hpath]
      dsimp only
      rw [if_neg]
      rintro (hdone | hchanged)
      · exact absurd (hfailed.symm.trans hdone) nofun
      · exact hchanged hsame
    exact h.owned p (howned ▸ hp)

theorem Cleared.others {spot : Option Path} (h : m.Cleared sha256Hex fileId spot) : ({ m with
      files := m.files.filter (fun f => f.fileId ≠ fileId)
      bundleFiles := m.bundleFiles.filter (fun f => f.id ≠ fileId) } : Mirror).Tidy := by
  refine ⟨h.ids.sublist (List.Sublist.map _ filter_sublist), h.paths.sublist filter_sublist, fun file hfile t ht => ?_⟩
  obtain ⟨hfile, hne⟩ := mem_filter.1 hfile
  obtain ⟨row, hrow, hid, hrest⟩ := h.rows file hfile t ht
  refine ⟨row, mem_filter.2 ⟨hrow, ?_⟩, hid, hrest⟩
  rw [hid]
  exact hne

theorem Cleared.deleted (h : m.Cleared sha256Hex fileId none) :
    (⟨m.files.filter (fun f => f.fileId ≠ fileId), m.folders, m.disk, m.owned, amend m.bundleFiles (.deleted fileId)⟩ :
      Mirror).Rest sha256Hex := by
  refine ⟨h.others, fun row hrow => ?_, fun path hpath => ?_⟩
  · obtain ⟨hrow, hne⟩ := mem_filter.1 hrow
    exact h.held row hrow (of_decide_eq_true hne)
  · rcases h.owned path hpath with ⟨row, hrow, hne, hrel⟩ | hspot
    · exact ⟨row, mem_filter.2 ⟨hrow, decide_eq_true hne⟩, hrel⟩
    · cases hspot

theorem Cleared.upserted {file : FileRecord} (h : m.Cleared sha256Hex file.id (resolve rel))
    (htarget : fileTargetRel m.folders file.folderId file.name = some rel) (hheld : Held sha256Hex m.disk rel file.checksum) :
    (⟨m.files.filter (fun f => f.fileId ≠ file.id) ++ [upsertedRow file rel], m.folders, m.disk, m.owned,
      amend m.bundleFiles (.upserted file)⟩ : Mirror).Rest sha256Hex := by
  have hothers := h.others
  have hnew : upsertedRow file rel ∈ m.files.filter (fun f => f.fileId ≠ file.id) ++ [upsertedRow file rel] :=
    mem_append_right _ (mem_singleton_self _)
  refine ⟨⟨?_, ?_, fun f hf t ht => ?_⟩, fun row hrow => ?_, fun path hpath => ?_⟩
  · rw [map_append, nodup_append]
    refine ⟨hothers.ids, nodup_singleton _, fun a ha b hb heq => ?_⟩
    obtain ⟨row, hrow, rfl⟩ := mem_map.1 ha
    rw [map_singleton, mem_singleton] at hb
    exact of_decide_eq_true (mem_filter.1 hrow).2 (heq.trans hb)
  · rw [pairwise_append]
    refine ⟨hothers.paths, pairwise_singleton _ _, fun row hrow new hmem => ?_⟩
    obtain ⟨hrow, hne⟩ := mem_filter.1 hrow
    rw [mem_singleton.1 hmem]
    exact h.apart row hrow (of_decide_eq_true hne)
  · rcases mem_append.1 hf with hf | hf
    · obtain ⟨row, hrow, hrest⟩ := hothers.rows f hf t ht
      exact ⟨row, mem_append_left _ hrow, hrest⟩
    · rw [mem_singleton.1 hf] at ht ⊢
      exact ⟨_, hnew, rfl, Option.some.inj (htarget.symm.trans (target_eq_some ht).2.1), rfl⟩
  · rcases mem_append.1 hrow with hrow | hrow
    · obtain ⟨hrow, hne⟩ := mem_filter.1 hrow
      exact h.held row hrow (of_decide_eq_true hne)
    · rw [mem_singleton.1 hrow]
      exact hheld
  · rcases h.owned path hpath with ⟨row, hrow, hne, hrel⟩ | hspot
    · exact ⟨row, mem_append_left _ (mem_filter.2 ⟨hrow, decide_eq_true hne⟩), hrel⟩
    · exact ⟨_, hnew, hspot⟩

theorem At.of_not_working {m' : Mirror} (hjob : job.working = false) (h : m.At sha256Hex job) : m'.At sha256Hex job := by
  cases job with
  | upsertRemove => exact h
  | sync | upsertWrite | upsertRecord | deleteRecord => cases hjob
  | bundle | upsertFetch | deleteRemove => trivial

theorem At.of_opening (h : job.opening = true) : m.At sha256Hex job := by
  cases job with
  | bundle | upsertFetch | deleteRemove => trivial
  | sync | upsertRemove | upsertWrite | upsertRecord | deleteRecord => cases h

theorem not_working_of_opening (h : job.opening = true) : job.working = false := by
  cases job <;> first | rfl | cases h

end Mirror

/-! ## The run -/

variable {who : Who} {announcement : Envelope}

namespace Sync

/-- **The state of an orderly run.** -/
structure Sound (sha256Hex : Bytes → String) (x : Sync) : Prop where
  rest : (∀ who, (x.tasks who).working = false) → x.mirror.Rest sha256Hex
  job : ∀ who announcement job, x.tasks who = .job announcement job → x.mirror.At sha256Hex job
  alone : ∀ who, (x.tasks who).working = true → (x.tasks who.other).working = false

/-- **A task goes on**, while the other is not changing the disk, or without changing it itself. -/
theorem Sound.go {task : Task} (h : x.Sound sha256Hex) (htasks : x'.tasks = Function.update x.tasks who task)
    (hother : (x.tasks who.other).working = false ∨ task.working = false ∧ x'.mirror = x.mirror)
    (hjob : ∀ announcement job, task = .job announcement job → x'.mirror.At sha256Hex job)
    (hrest : task.working = false → (x.tasks who.other).working = false → x'.mirror.Rest sha256Hex) : x'.Sound sha256Hex := by
  have hself : x'.tasks who = task := by rw [htasks, Function.update_self]
  have hsame : x'.tasks who.other = x.tasks who.other := by rw [htasks, Function.update_of_ne who.other_ne]
  refine ⟨fun hidle => ?_, fun w announcement job hw => ?_, fun w hw => ?_⟩
  · exact hrest (hself ▸ hidle who) (hsame ▸ hidle who.other)
  · rcases who.eq_or_other w with rfl | rfl
    · exact hjob announcement job (hself.symm.trans hw)
    · have hold := h.job who.other announcement job (hsame.symm.trans hw)
      rcases hother with hnone | ⟨-, hmirror⟩
      · rw [← hsame, hw] at hnone
        exact hold.of_not_working hnone
      · rwa [hmirror]
  · rcases who.eq_or_other w with rfl | rfl
    · rw [hsame]
      rcases hother with hnone | ⟨hidle, -⟩
      · exact hnone
      · exact absurd ((hself ▸ hw).symm.trans hidle) nofun
    · rw [hsame] at hw
      rcases hother with hnone | ⟨hidle, -⟩
      · exact absurd (hw.symm.trans hnone) nofun
      · have hback : who.other.other = who := by cases who <;> rfl
        rw [hback, hself, hidle]

theorem Sound.work (h : x.Sound sha256Hex)
    (htasks : x'.tasks = Function.update x.tasks who (.job announcement job)) (hworks : job.working = true)
    (hother : (x.tasks who.other).working = false) (hjob : x'.mirror.At sha256Hex job) : x'.Sound sha256Hex := by
  refine h.go htasks (.inl hother) (fun a j hj => ?_) (fun hnot => absurd (hworks.symm.trans hnot) nofun)
  obtain ⟨-, rfl⟩ := Task.job.inj hj
  exact hjob

theorem Sound.move {task : Task} (h : x.Sound sha256Hex) (htasks : x'.tasks = Function.update x.tasks who task)
    (hmirror : x'.mirror = x.mirror) (hold : (x.tasks who).working = false) (hnew : task.working = false)
    (hjob : ∀ announcement job, task = .job announcement job → x'.mirror.At sha256Hex job) : x'.Sound sha256Hex := by
  refine h.go htasks (.inr ⟨hnew, hmirror⟩) hjob fun _ hother => ?_
  rw [hmirror]
  refine h.rest fun w => ?_
  rcases who.eq_or_other w with rfl | rfl
  · exact hold
  · exact hother

theorem sound_initial (folderId ownerNodeId roomId : String) (disk : Disk) :
    (initial folderId ownerNodeId roomId disk).Sound sha256Hex where
  rest _ := ⟨⟨.nil, .nil, nofun⟩, nofun, nofun⟩
  job _ _ _ h := Task.noConfusion h
  alone _ h := Bool.noConfusion h

section

variable (h : x.Sound sha256Hex)

include h

theorem Sound.begin (hold : (x.tasks who).working = false) (hopening : job.opening = true) :
    (x.setTask who (.job announcement job)).Sound sha256Hex := by
  refine h.move rfl rfl hold (Mirror.not_working_of_opening hopening) fun a j hj => ?_
  obtain ⟨-, rfl⟩ := Task.job.inj hj
  exact .of_opening hopening

theorem Sound.kept : x.Kept sha256Hex := by
  refine ⟨fun hidle _ file hfile t ht => ?_, fun path hpath => ?_⟩
  · have hrest := h.rest hidle
    obtain ⟨row, hrow, -, hrel, hsum⟩ := hrest.rows file hfile t ht
    exact hrel ▸ hsum ▸ hrest.held row hrow
  · by_cases hidle : ∀ who, (x.tasks who).working = false
    · exact .inl ((h.rest hidle).owned path hpath)
    · simp only [not_forall, Bool.not_eq_false] at hidle
      obtain ⟨who, hwho⟩ := hidle
      cases htask : x.tasks who with
      | job announcement job =>
        have hat := h.job who announcement job htask
        rw [htask] at hwho
        cases job with
        | sync goal fetch files removePaths =>
          exact (hat.listed path hpath).imp_right fun ⟨row, hrow, hrel⟩ => ⟨who, row, by rw [htask]; exact hrow, hrel⟩
        | upsertWrite file rel data =>
          refine (hat.2.2.1.owned path hpath).imp (fun ⟨row, hrow, _, hrel⟩ => ⟨row, hrow, hrel⟩) fun hrel => ?_
          exact ⟨who, upsertedRow file rel, by rw [htask]; exact mem_singleton_self _, hrel⟩
        | upsertRecord file rel =>
          refine (hat.2.1.owned path hpath).imp (fun ⟨row, hrow, _, hrel⟩ => ⟨row, hrow, hrel⟩) fun hrel => ?_
          exact ⟨who, upsertedRow file rel, by rw [htask]; exact mem_singleton_self _, hrel⟩
        | deleteRecord fileId =>
          rcases hat.owned path hpath with ⟨row, hrow, -, hrel⟩ | hnone
          · exact .inl ⟨row, hrow, hrel⟩
          · cases hnone
        | bundle => cases hwho
        | upsertFetch => cases hwho
        | upsertRemove => cases hwho
        | deleteRemove => cases hwho
      | idle | found | accepted | waiting | failing => rw [htask] at hwho; cases hwho

theorem Sound.resting (hold : (x.tasks who).working = false)
    (hother : (x.tasks who.other).working = false) : x.mirror.Rest sha256Hex := by
  refine h.rest fun w => ?_
  rcases who.eq_or_other w with rfl | rfl
  · exact hold
  · exact hother

theorem Sound.step (hok : Orderly sha256Hex x act) (hstep : Step sha256Hex x act x') : x'.Sound sha256Hex := by
  have hidle : ∀ {who : Who} {task : Task}, x.tasks who = task → task.working = false → (x.tasks who).working = false :=
    fun htask hnot => htask ▸ hnot
  have hbusy : ∀ {who : Who} {task : Task}, x.tasks who = task → task.working = true → (x.tasks who.other).working = false :=
    fun htask hworks => h.alone _ (htask ▸ hworks)
  cases hstep with
  | deliver htask | start htask _ | grantedAlone htask | fail htask =>
    exact h.move rfl rfl (hidle htask rfl) rfl fun _ _ hj => Task.noConfusion hj
  | clock htask =>
    refine h.move rfl ?_ (hidle htask rfl) rfl fun _ _ hj => Task.noConfusion hj
    split <;> rfl
  | @dispatch envelope snapshot htask =>
    have hmirror : ∀ task : Task, ((({ x with
        entry := if (handle snapshot envelope).1.isSome then
            { x.entry with lastFolderSignature := (handle snapshot envelope).1 }
          else x.entry } : Sync).setTask .handler task)).mirror = x.mirror := by
      intro task
      split <;> rfl
    rcases handle_opening snapshot envelope with hnone | ⟨-, job, hjob, hopening⟩
    · rw [hnone]
      exact h.move rfl (hmirror _) (hidle htask rfl) rfl fun _ _ hj => Task.noConfusion hj
    · rw [hjob]
      refine h.move rfl (hmirror _) (hidle htask rfl) (Mirror.not_working_of_opening hopening) fun a j hj => ?_
      obtain ⟨-, rfl⟩ := Task.job.inj hj
      exact .of_opening hopening
  | granted htask | stateGranted htask | state htask | fallback htask => exact h.begin (hidle htask rfl) rfl
  | giveUp _ => exact h.move rfl rfl hok rfl fun _ _ hj => Task.noConfusion hj
  | fetched htask =>
    obtain ⟨rfl, hother, hregular⟩ := hok _ _ _ _ _ _ htask
    exact h.work rfl rfl hother ((h.resting (hidle htask rfl) hother).syncing hregular)
  | item htask => exact h.work rfl rfl (hbusy htask rfl) ((h.job _ _ _ htask).item (hok _ _ _ _ _ _ htask))
  | remove htask => exact h.work rfl rfl (hbusy htask rfl) ((h.job _ _ _ htask).remove (hok _ _ _ _ _ htask))
  | record htask => exact h.go rfl (.inl (hbusy htask rfl)) (fun _ _ hj => Task.noConfusion hj) fun _ _ => (h.job _ _ _ htask).record
  | upsertFetch htask hrel _ hdata hsum =>
    refine h.move rfl rfl (hidle htask rfl) rfl fun a j hj => ?_
    obtain ⟨-, rfl⟩ := Task.job.inj hj
    exact ⟨hrel, hsum⟩
  | upsertRemove htask =>
    obtain ⟨hfiles, hfolders, hother, hapart, hremoves⟩ := hok _ _ _ _ _ htask
    obtain ⟨htarget, hverified⟩ := h.job _ _ _ htask
    obtain ⟨hcleared, hsame⟩ := (h.resting (hidle htask rfl) hother).upsertRemove hfiles hapart hremoves
    rw [hfolders] at htarget
    exact h.work rfl rfl hother ⟨htarget, hverified, hcleared, hsame⟩
  | @upsertWrite announcement file rel data path io htask hpath =>
    obtain ⟨htarget, hverified, hcleared, hsame⟩ := h.job _ _ _ htask
    have hwritten := @Mirror.Cleared.write _ _ io _ _ _ data hcleared hpath
    cases hstored : (x.disk.store io path data).2 with
    | true =>
      dsimp only
      rw [if_pos hstored]
      exact h.work rfl rfl (hbusy htask rfl) ⟨htarget, hwritten, path, data, hpath, (Disk.store_done hstored).1, hverified⟩
    | false =>
      obtain ⟨hget, hunmoved⟩ := (hok _ _ _ _ _ htask hpath).resolve_left (by rw [hstored]; nofun)
      dsimp only
      rw [if_neg (by rw [hstored]; nofun)]
      refine h.go rfl (.inl (hbusy htask rfl)) (fun _ _ hj => Task.noConfusion hj) fun _ _ => ?_
      exact (hsame hunmoved).unwritten hpath hstored hget
  | upsertRecord htask =>
    obtain ⟨htarget, hcleared, hheld⟩ := h.job _ _ _ htask
    refine h.go rfl (.inl (hbusy htask rfl)) (fun _ _ hj => Task.noConfusion hj) fun _ _ => ?_
    have hrest := hcleared.upserted htarget hheld
    unfold mirror bundleFiles setTask
    rw [foldl_append]
    exact hrest
  | deleteRemove htask =>
    obtain ⟨hrow, hother, hremoves⟩ := hok _ _ _ htask
    exact h.work rfl rfl hother ((h.resting (hidle htask rfl) hother).deleteRemove hrow hremoves)
  | deleteRecord htask =>
    have hcleared := h.job _ _ _ htask
    refine h.go rfl (.inl (hbusy htask rfl)) (fun _ _ hj => Task.noConfusion hj) fun _ _ => ?_
    have hrest := hcleared.deleted
    unfold mirror bundleFiles setTask
    rw [foldl_append]
    exact hrest

end

end Sync

/-- **In an orderly run synced means synced, and no file is forgotten.** -/
theorem synced_kept (sha256Hex : Bytes → String) (folderId ownerNodeId roomId : String) (disk : Disk) (x : Sync)
    (h : Reach sha256Hex (Sync.initial folderId ownerNodeId roomId disk) (Orderly sha256Hex) x) : x.Kept sha256Hex := by
  have hsound : x.Sound sha256Hex := by
    induction h with
    | refl => exact Sync.sound_initial folderId ownerNodeId roomId disk
    | tail _ hok hstep ih => exact ih.step hok hstep
  exact hsound.kept

/-! ## A file that does not come -/

abbrev sampleFirst : FolderBundle := sampleBundle [sampleFile "f1" "a.txt" sumA "cid-a"]

theorem sampleFirst_regular : Regular sampleFirst [] := ⟨by decide, by decide, nofun, nofun⟩

theorem sampleFirst_plan : planResync sampleFirst.files (buildFolderMap sampleFirst) [] =
    ⟨[], [⟨sampleFile "f1" "a.txt" sumA "cid-a", "a.txt", "cid-a"⟩], [], []⟩ := by
  decide

theorem reach_synced : ∃ x, Reach sampleSha sampleStart (Orderly sampleSha) x ∧ (∀ who, x.tasks who = .idle) ∧
    x.entry = { sampleStart.entry with
      folderKey := "key", status := .synced, lastCid := some "cid-1"
      folders := buildFolderMap (sampleBundle []), files := [⟨"f1", "root", "a.txt", sumA⟩]
      announced := some (sampleState "did:owner" 5 "cid-1") } ∧
    x.bundleFiles = [sampleFile "f1" "a.txt" sumA "cid-a"] ∧ x.owned = [["a.txt"]] ∧
    x.disk = Table.insert ∅ ["a.txt"] (.file [97]) := by
  have h0 : Reach sampleSha sampleStart (Orderly sampleSha) sampleStart := .refl
  have h1 := h0.tail (show Orderly _ _ .start from trivial) (.start rfl (by decide))
  have h2 := h1.tail (show Orderly _ _ (.grant sampleGrant "key") from trivial)
    (.grantedAlone rfl rfl (show ¬ "key" = "" by decide) rfl rfl rfl)
  have h3 := h2.tail (show Orderly _ _ (.state (sampleState "did:owner" 5 "cid-1")) from trivial)
    (.stateGranted rfl rfl rfl (show Envelope.newCid _ = some "cid-1" from rfl))
  have h4 := h3.tail (show Orderly _ _ (.fetched .retry sampleFirst) from ?_) (.fetched rfl)
  have h5 := h4.tail (show Orderly _ _ (.item .retry sampleIo) from ?_) (.item rfl)
  have h6 := h5.tail (show Orderly _ _ (.record .retry) from trivial) (.record rfl)
  · refine ⟨_, h6, fun who => ?_, rfl, rfl, ?_, ?_⟩
    · cases who <;> rfl
    · decide
    · decide
  · intro announcement goal item fetch files removePaths htask
    obtain ⟨-, hjob⟩ := Task.job.inj htask
    obtain ⟨rfl, hfetch, -⟩ := Job.sync.inj hjob
    obtain ⟨rfl, -⟩ := cons.inj hfetch
    exact ⟨[97], ["a.txt"], by decide, .inr rfl, by decide, by decide⟩
  · intro announcement previous cid signature granted folderKey htask
    obtain ⟨-, hjob⟩ := Task.job.inj htask
    obtain ⟨rfl, -⟩ := Job.bundle.inj hjob
    exact ⟨rfl, rfl, sampleFirst_regular⟩

theorem synced_kept_first : ∃ x, Reach sampleSha sampleStart (Orderly sampleSha) x ∧ x.entry.status = .synced ∧
    x.owned ≠ [] ∧ x.Kept sampleSha := by
  obtain ⟨x, hx, -, hentry, -, howned, -⟩ := reach_synced
  refine ⟨x, hx, by rw [hentry], by rw [howned]; nofun, ?_⟩
  exact synced_kept sampleSha "f" "did:owner" "room" ∅ x hx

theorem Step.skip {goal : Goal} {item : FetchItem} {fetch : List FetchItem}
    {files : List SyncedFile} {removePaths : List String} {io : Io}
    (htask : x.tasks who = .job announcement (.sync goal (item :: fetch) files removePaths))
    (hnone : io.fetch item.cid goal.folderKey = none) :
    Step sha256Hex x (.item who io) (x.setTask who (.job announcement (.sync goal fetch files removePaths))) := by
  have hitem : syncItem io sha256Hex goal.folderKey (x.disk, files) item = (x.disk, files) := by
    unfold syncItem
    rw [hnone]
  have howned : ownedAfter x.owned x.disk x.disk item.rel (decide (files ≠ files)) = x.owned := by
    unfold ownedAfter
    split
    · rfl
    · exact if_neg (by simp)
  have hstep : Step sha256Hex x (.item who io) _ := .item htask
  dsimp only at hstep
  rwa [hitem, howned] at hstep

abbrev sampleSecond : FolderBundle := sampleBundle [sampleFile "f1" "a.txt" sumB "cid-gone"]

/-- The file's next content does not come: the bundle is recorded as synced without it, and its old copy is in no row. -/
theorem synced_not_kept : ∃ x, Reach sampleSha sampleStart (fun _ _ => True) x ∧ ¬ x.Materialized sampleSha ∧ ¬ x.Listed := by
  obtain ⟨x, hx, hidle, hentry, -, howned, hdisk⟩ := reach_synced
  have hnew : (sampleState "did:owner" 7 "cid-2").newCid = some "cid-2" := rfl
  obtain ⟨z, h1, htask, hretry, hdisk', howned', -⟩ := (hx.mono fun _ _ _ => trivial).announced (hidle .handler)
    (by rw [hentry]; rfl) (by rw [hentry]; decide) (by rw [hentry]; decide) rfl hnew (by rw [hentry]; decide) trivial
    fun _ => ⟨trivial, trivial⟩
  rw [hentry] at htask
  have hplan : planResync sampleSecond.files (buildFolderMap sampleSecond) [⟨"f1", "root", "a.txt", sumA⟩] =
      ⟨[], [⟨sampleFile "f1" "a.txt" sumB "cid-gone", "a.txt", "cid-gone"⟩], [], []⟩ := by decide
  have hsecond : Step sampleSha z (.fetched .handler sampleSecond) _ := .fetched htask
  have h2 := h1.tail trivial hsecond
  have h3 := h2.tail trivial (Step.skip (Sync.tasks_setTask ..) (show sampleIo.fetch "cid-gone" "key" = none from rfl))
  obtain ⟨y, hy, hhandler, hretry, hstatus, hfiles, hfolders, hbundle, hdata, howned⟩ :
      ∃ y, Reach sampleSha sampleStart (fun _ _ => True) y ∧ y.tasks .handler = .idle ∧ y.tasks .retry = .idle ∧
        y.entry.status = .synced ∧ y.entry.files = [] ∧ y.entry.folders = buildFolderMap sampleSecond ∧
        y.bundleFiles = sampleSecond.files ∧ y.disk.get ["a.txt"] = some (.file [97]) ∧ ["a.txt"] ∈ y.owned := by
    refine ⟨_, h3.tail trivial (.record (Sync.tasks_setTask ..)), rfl, hretry.trans (hidle .retry), rfl, rfl, rfl, rfl, ?_, ?_⟩
    · exact (congrArg (Table.get · ["a.txt"]) (hdisk'.trans hdisk)).trans (by decide)
    · exact (howned'.trans howned).symm ▸ mem_singleton_self _
  refine ⟨y, hy, fun hmaterialized => ?_, fun hlisted => ?_⟩
  · have hresting : ∀ who, (y.tasks who).working = false := by
      intro who
      cases who with
      | handler => rw [hhandler]; rfl
      | retry => rw [hretry]; rfl
    have hfile : sampleFile "f1" "a.txt" sumB "cid-gone" ∈ y.bundleFiles := by
      rw [hbundle]
      exact mem_singleton_self _
    obtain ⟨path, data, hpath, hget, hsum⟩ := hmaterialized hresting hstatus _ hfile ("a.txt", "cid-gone")
      (by rw [hfolders]; decide)
    rw [show resolve "a.txt" = some ["a.txt"] by decide] at hpath
    rw [← Option.some.inj hpath, hdata] at hget
    rw [← Node.file.inj (Option.some.inj hget)] at hsum
    exact hsum.elim (by decide) (by decide)
  · rcases hlisted ["a.txt"] howned with ⟨row, hrow, -⟩ | ⟨who, row, hrow, -⟩
    · rw [hfiles] at hrow
      cases hrow
    · cases who with
      | handler => rw [hhandler] at hrow; cases hrow
      | retry => rw [hretry] at hrow; cases hrow

end Mistl.Folder
