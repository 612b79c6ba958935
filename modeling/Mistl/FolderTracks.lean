import Mistl.FolderRescan
/-!
# FolderTracks — what a rescan keeps

The invariant of a rescan: the records of the files are those of the path index, each with the checksum of what was hashed, and
with a cid that its content was published under, unless the rescan still has that in its hands.
-/
open List Mistl.Table

namespace Mistl.Folder

/-! ## What a rescan keeps -/

/-- The record is of the file at `path`, in the folder that the index has for its directory. -/
def Names (folderIds : Table String String) (path : String) (r : FileRecord) : Prop :=
  ∃ dir, '/' ∉ r.name.toList ∧ path = relPath dir r.name ∧ folderIds.get dir = some r.folderId

def Collisionless (sha256Hex : Bytes → String) (hashed : String → Int × Nat → Bytes → Prop) : Prop :=
  ∀ p stat data p' stat' data', hashed p stat data → hashed p' stat' data' → sha256Hex data = sha256Hex data' → data = data'

/-- The file records of a scan are those of its path index, and each has the checksum of what was `hashed` at its path with the
time and size that the index has.  Its content cid was `published` from that, or the scan has it in its hands. -/
structure Scan.Tracks (sha256Hex : Bytes → String) (uuid : Nat → String) (hashed : String → Int × Nat → Bytes → Prop)
    (published : String → Option String → Bytes → Prop) (here : String → Prop) (s : Scan) : Prop where
  nodup : (s.entry.files.map FileRecord.id).Nodup
  drawn : ∀ r ∈ s.entry.files, ∃ i < s.drawn, r.id = uuid i
  indexed : ∀ p id, s.entry.fileIds.get p = some id → ∃ r, Records.find FileRecord.id id s.entry.files = some r ∧ r.deletedAt = none
  names : ∀ p id r, here p → s.entry.fileIds.get p = some id → Records.find FileRecord.id id s.entry.files = some r →
    Names s.entry.folderIds p r
  apart : ∀ p q id, s.entry.fileIds.get p = some id → s.entry.fileIds.get q = some id → p = q
  listed : ∀ r ∈ s.entry.files, r.deletedAt = none → ∃ p, s.entry.fileIds.get p = some r.id
  content : ∀ p id r, s.entry.fileIds.get p = some id → Records.find FileRecord.id id s.entry.files = some r →
    ∃ stat data, s.entry.fileStats.get p = some stat ∧ hashed p stat data ∧ r.checksum = sha256Hex data ∧
      (s.result.newFileBytes.get id).elim (published id r.lastCid data) (· = data)
  queued : ∀ id, s.result.newFileBytes.get id ≠ none → id ∈ s.result.upsertedFileIds
  root : s.entry.folderIds.get "" = some s.entry.folderId
  rootRecord : ∃ f ∈ s.entry.folders, f.id = s.entry.folderId

/-- A scan that has changed nothing has the records of the entry it began with. -/
structure Scan.From (entry : SharedFolder) (s : Scan) : Prop where
  folderId : s.entry.folderId = entry.folderId
  roomId : s.entry.roomId = entry.roomId
  lastCid : s.entry.lastCid = entry.lastCid
  files : s.result.changed = false → s.entry.files = entry.files
  folders : s.result.changed = false → s.entry.folders = entry.folders
  upserted : s.result.changed = false → s.result.upsertedFileIds = []

section
variable {sha256Hex : Bytes → String} {uuid : Nat → String} {now : String} {hashed : String → Int × Nat → Bytes → Prop}
  {published : String → Option String → Bytes → Prop} {here : String → Prop} {s s' : Scan} {entry : SharedFolder}

namespace Scan

theorem Tracks.of_here {here' : String → Prop} (h : s.Tracks sha256Hex uuid hashed published here)
    (hsub : ∀ p, here' p → s.entry.fileIds.get p ≠ none → here p) :
    s.Tracks sha256Hex uuid hashed published here' :=
  { h with names := fun p id r hp hget => h.names p id r (hsub p hp (by rw [hget]; nofun)) hget }

/-! ### Folders -/

theorem Tracks.rescanDir (h : s.Tracks sha256Hex uuid hashed published here) (dir : WalkedDir) :
    (rescanDir uuid s dir).Tracks sha256Hex uuid hashed published here := by
  unfold Folder.rescanDir
  split
  · exact h
  · split
    · exact h
    · rename_i hroot hnew
      have hnone : s.entry.folderIds.get dir.relPath = none := contains_eq_false.1 (Bool.eq_false_iff.2 hnew)
      refine ⟨h.nodup, fun r hr => ?_, h.indexed, fun p id r hp hget hfind => ?_, h.apart, h.listed, h.content, h.queued, ?_, ?_⟩
      · obtain ⟨i, hi, hid⟩ := h.drawn r hr
        exact ⟨i, Nat.lt_succ_of_lt hi, hid⟩
      · obtain ⟨d, hslash, hpath, hd⟩ := h.names p id r hp hget hfind
        refine ⟨d, hslash, hpath, ?_⟩
        have hne : d ≠ dir.relPath := fun he => by
          rw [he, hnone] at hd
          cases hd
        exact (get_insert_ne hne _ _).trans hd
      · exact (get_insert_ne (Ne.symm hroot) _ _).trans h.root
      · obtain ⟨f, hf, hid⟩ := h.rootRecord
        exact ⟨f, mem_append_left _ hf, hid⟩

theorem mem_update_id {id : String} {g : FolderRecord → FolderRecord} (hg : ∀ f, (g f).id = f.id) {root : String}
    {folders : List FolderRecord} (h : ∃ f ∈ folders, f.id = root) :
    ∃ f ∈ Records.update FolderRecord.id id g folders, f.id = root := by
  obtain ⟨f, hf, hid⟩ := h
  have hmem : root ∈ (Records.update FolderRecord.id id g folders).map FolderRecord.id := by
    rw [Records.map_key_update hg, ← hid]
    exact mem_map_of_mem hf
  exact mem_map.1 hmem

theorem Tracks.vanishFolder (h : s.Tracks sha256Hex uuid hashed published here) {path : String} (hroot : path ≠ "")
    (hno : ∀ dir name, '/' ∉ name.toList → here (relPath dir name) → dir ≠ path) :
    (vanishFolder now s path).Tracks sha256Hex uuid hashed published here := by
  have hnames : ∀ p id r, here p → s.entry.fileIds.get p = some id →
      Records.find FileRecord.id id s.entry.files = some r → Names (s.entry.folderIds.erase path) p r :=
    fun p id r hp hget hfind => by
      obtain ⟨d, hslash, hpath, hd⟩ := h.names p id r hp hget hfind
      refine ⟨d, hslash, hpath, ?_⟩
      rw [get_erase_ne (hno d r.name hslash (hpath ▸ hp))]
      exact hd
  have hget : (s.entry.folderIds.erase path).get "" = some s.entry.folderId := by
    rw [get_erase_ne (Ne.symm hroot)]
    exact h.root
  unfold Folder.vanishFolder
  split
  · exact h
  · dsimp only
    split
    · exact ⟨h.nodup, h.drawn, h.indexed, hnames, h.apart, h.listed, h.content, h.queued, hget, h.rootRecord⟩
    · split
      · refine ⟨h.nodup, h.drawn, h.indexed, hnames, h.apart, h.listed, h.content, h.queued, hget, ?_⟩
        refine mem_update_id ?_ h.rootRecord
        exact fun _ => rfl
      · exact ⟨h.nodup, h.drawn, h.indexed, hnames, h.apart, h.listed, h.content, h.queued, hget, h.rootRecord⟩

/-- A scan that has noted a change -/
theorem From.altered (h : s.From entry) (hfolder : s'.entry.folderId = s.entry.folderId)
    (hroom : s'.entry.roomId = s.entry.roomId) (hcid : s'.entry.lastCid = s.entry.lastCid)
    (hchanged : s'.result.changed = true) : s'.From entry := by
  have hno : s'.result.changed ≠ false := by
    rw [hchanged]
    exact Bool.false_ne_true.symm
  exact ⟨hfolder.trans h.folderId, hroom.trans h.roomId, hcid.trans h.lastCid, fun h => absurd h hno,
    fun h => absurd h hno, fun h => absurd h hno⟩

theorem From.rescanDir (h : s.From entry) (dir : WalkedDir) : (rescanDir uuid s dir).From entry := by
  unfold Folder.rescanDir
  split
  · exact h
  · split
    · exact h
    · exact h.altered rfl rfl rfl rfl

theorem From.vanishFolder (h : s.From entry) (path : String) : (vanishFolder now s path).From entry := by
  unfold Folder.vanishFolder
  split
  · exact h
  · dsimp only
    split
    · exact ⟨h.folderId, h.roomId, h.lastCid, h.files, h.folders, h.upserted⟩
    · split
      · exact h.altered rfl rfl rfl rfl
      · exact ⟨h.folderId, h.roomId, h.lastCid, h.files, h.folders, h.upserted⟩

theorem foldl_keeps {α : Type} (P : Scan → Prop) {step : Scan → α → Scan} : ∀ (l : List α) (s : Scan),
    (∀ s a, a ∈ l → P s → P (step s a)) → P s → P (l.foldl step s)
  | [], _, _, h => h
  | a :: l, s, hstep, h => by
    exact foldl_keeps P l _ (fun s b hb => hstep s b (mem_cons_of_mem _ hb)) (hstep s a mem_cons_self h)

theorem mem_vanished {order : Listing} {entry : SharedFolder} {dirs : List WalkedDir} {path : String}
    (h : path ∈ vanishedFolderPaths order entry dirs) : path ≠ "" ∧ path ∉ dirs.map WalkedDir.relPath := by
  simpa using (mem_filter.1 h).2

/-- **The folders of a rescan** leave the files alone, and those that are here in their folders. -/
theorem Tracks.rescanFolders {w : Walked} (hw : w.Placed) (order : Listing)
    (h : s.Tracks sha256Hex uuid hashed published (· ∈ w.files.map WalkedFile.relPath)) :
    (rescanFolders uuid now order w.dirs s).Tracks sha256Hex uuid hashed published
      (· ∈ w.files.map WalkedFile.relPath) := by
  have hdirs : (w.dirs.foldl (Folder.rescanDir uuid) s).Tracks sha256Hex uuid hashed published
      (· ∈ w.files.map WalkedFile.relPath) :=
    foldl_keeps (Tracks sha256Hex uuid hashed published _) w.dirs s (fun _ dir _ hs => Tracks.rescanDir hs dir) h
  refine foldl_keeps (Tracks sha256Hex uuid hashed published _) _ _
    (fun _ path hpath hs => hs.vanishFolder ?_ fun dir name hname hmem => ?_) hdirs
  · exact (mem_vanished hpath).1
  · obtain ⟨f, hf, hrel⟩ := mem_map.1 hmem
    rw [hw.path f hf] at hrel
    obtain ⟨hdir, -⟩ := relPath_inj (hw.name f hf).2 hname hrel
    obtain ⟨d, hd, hd'⟩ := hw.folder f hf
    exact fun he => (mem_vanished hpath).2 (mem_map.2 ⟨d, hd, by rw [hd', hdir, he]⟩)

theorem From.rescanFolders (h : s.From entry) (order : Listing) (dirs : List WalkedDir) :
    (rescanFolders uuid now order dirs s).From entry := by
  have hdirs : (dirs.foldl (Folder.rescanDir uuid) s).From entry :=
    foldl_keeps (From entry) dirs s (fun _ dir _ hs => From.rescanDir hs dir) h
  exact foldl_keeps (From entry) _ _ (fun _ path _ hs => From.vanishFolder hs path) hdirs

theorem rescanDir_known (s : Scan) (dir : WalkedDir) {p : String} (h : s.entry.folderIds.get p ≠ none ∨ p = dir.relPath)
    (hroot : s.entry.folderIds.get "" ≠ none) : (Folder.rescanDir uuid s dir).entry.folderIds.get p ≠ none := by
  unfold Folder.rescanDir
  split
  · rename_i hdir
    rcases h with h | rfl
    · exact h
    · rwa [hdir]
  · split
    · rename_i hknown
      rcases h with h | rfl
      · exact h
      · obtain ⟨id, hid⟩ := Table.contains_iff.1 hknown
        rw [hid]
        exact Option.some_ne_none _
    · rw [get_insert]
      split
      · exact Option.some_ne_none _
      · rename_i hne
        exact h.resolve_right hne

theorem vanishFolder_known (s : Scan) {path p : String} (hne : p ≠ path) :
    (Folder.vanishFolder now s path).entry.folderIds.get p = s.entry.folderIds.get p := by
  unfold Folder.vanishFolder
  split
  · rfl
  · dsimp only
    split
    · exact get_erase_ne hne _
    · split
      · exact get_erase_ne hne _
      · exact get_erase_ne hne _

theorem foldl_rescanDir_known : ∀ (dirs : List WalkedDir) (s : Scan) {p : String},
    s.entry.folderIds.get p ≠ none ∨ p ∈ dirs.map WalkedDir.relPath → s.entry.folderIds.get "" ≠ none →
    (dirs.foldl (Folder.rescanDir uuid) s).entry.folderIds.get p ≠ none
  | [], s, p, h, _ => h.resolve_right not_mem_nil
  | dir :: dirs, s, p, h, hroot => by
    refine foldl_rescanDir_known dirs _ ?_ (rescanDir_known s dir (.inl hroot) hroot)
    rw [map_cons, mem_cons] at h
    rcases h with h | rfl | h
    · exact .inl (rescanDir_known s dir (.inl h) hroot)
    · exact .inl (rescanDir_known s dir (.inr rfl) hroot)
    · exact .inr h

theorem rescanFolders_known (order : Listing) {dirs : List WalkedDir} (hroot : s.entry.folderIds.get "" ≠ none) {p : String}
    (hp : p ∈ dirs.map WalkedDir.relPath) : (Folder.rescanFolders uuid now order dirs s).entry.folderIds.get p ≠ none := by
  refine foldl_keeps (fun s => s.entry.folderIds.get p ≠ none) _ _ (fun s path hpath hs => ?_)
    (foldl_rescanDir_known dirs s (.inr hp) hroot)
  rw [vanishFolder_known]
  · exact hs
  · rintro rfl
    exact (mem_vanished hpath).2 hp

/-! ### Files -/

variable {stat : Int × Nat}

variable {data : Bytes}

section

variable (h : s.Tracks sha256Hex uuid hashed published here)

include h

theorem Tracks.confirm (hsha : Collisionless sha256Hex hashed)
    {path id : String} {record : FileRecord} (hid : s.entry.fileIds.get path = some id)
    (hrecord : Records.find FileRecord.id id s.entry.files = some record) (hdata : hashed path stat data)
    (hsum : record.checksum = sha256Hex data) :
    (s.stamp path stat).Tracks sha256Hex uuid hashed published here := by
  refine ⟨h.nodup, h.drawn, h.indexed, h.names, h.apart, h.listed, fun p id' r hget hfind => ?_, h.queued, h.root, h.rootRecord⟩
  obtain ⟨stat', data', hstat, hhashed, hr, hpub⟩ := h.content p id' r hget hfind
  by_cases hp : p = path
  · subst hp
    obtain rfl : id = id' := Option.some.inj (hid.symm.trans hget)
    obtain rfl : record = r := Option.some.inj (hrecord.symm.trans hfind)
    obtain rfl : data = data' := hsha _ _ _ _ _ _ hdata hhashed (hsum.symm.trans hr)
    exact ⟨stat, data, (get_insert ..).trans (if_pos rfl), hdata, hr, hpub⟩
  · exact ⟨stat', data', (get_insert_ne hp _ _).trans hstat, hhashed, hr, hpub⟩

theorem Tracks.rewrite {path id folderId : String} {record : FileRecord} (hid : s.entry.fileIds.get path = some id)
    (hrecord : Records.find FileRecord.id id s.entry.files = some record) (hdata : hashed path stat data)
    (hnames : here path → Names s.entry.folderIds path { record with folderId := folderId }) :
    ((s.stamp path stat).rewrite id folderId (sha256Hex data) data).Tracks sha256Hex uuid hashed published here := by
  unfold Scan.rewrite Scan.stamp
  have hkey : ∀ r : FileRecord, ({ r with checksum := sha256Hex data, deletedAt := none, folderId := folderId } : FileRecord).id
      = r.id := fun _ => rfl
  have hfind := fun k => @Records.find_update _ _ _ FileRecord.id id _ s.entry.files hkey k
  have hids := @Records.map_key_update _ _ _ FileRecord.id id _ s.entry.files hkey
  have hself : ∀ p, s.entry.fileIds.get p = some id → p = path := fun p hp => h.apart p path id hp hid
  refine ⟨hids ▸ h.nodup, fun r hr => ?_, fun p k hget => ?_, fun p k r hp hget hr => ?_, h.apart, fun r hr hlive => ?_,
    fun p k r hget hr => ?_, fun k hk => ?_, h.root, h.rootRecord⟩
  · obtain ⟨r₀, hr₀, hrid⟩ := mem_map.1 (hids ▸ mem_map_of_mem hr)
    obtain ⟨i, hi, hi'⟩ := h.drawn r₀ hr₀
    exact ⟨i, hi, hrid ▸ hi'⟩
  · obtain ⟨r, hr, hlive⟩ := h.indexed p k hget
    simp only [hfind]
    split
    · rw [hrecord]
      exact ⟨_, rfl, rfl⟩
    · exact ⟨r, hr, hlive⟩
  · simp only [hfind] at hr
    split at hr
    · rename_i hk
      subst hk
      obtain rfl := hself p hget
      rw [hrecord] at hr
      cases hr
      exact hnames hp
    · exact h.names p k r hp hget hr
  · have hr' := (Records.mem_iff_find (hids ▸ h.nodup)).1 hr
    rw [hfind] at hr'
    split at hr'
    · rename_i hk
      exact ⟨path, hk ▸ hid⟩
    · exact h.listed r (Records.mem_of_find hr') hlive
  · simp only [hfind] at hr
    by_cases hk : k = id
    · subst hk
      obtain rfl := hself p hget
      rw [if_pos rfl, hrecord] at hr
      cases hr
      refine ⟨stat, data, (get_insert ..).trans (if_pos rfl), hdata, rfl, ?_⟩
      rw [get_insert, if_pos rfl]
      rfl
    · rw [if_neg hk] at hr
      have hne : p ≠ path := fun he => hk (Option.some.inj ((he ▸ hget).symm.trans hid))
      obtain ⟨stat', data', hstat, hhashed, hsum, hpub⟩ := h.content p k r hget hr
      refine ⟨stat', data', (get_insert_ne hne _ _).trans hstat, hhashed, hsum, ?_⟩
      rw [get_insert_ne hk]
      exact hpub
  · rw [get_insert] at hk
    rw [mem_append, mem_singleton]
    split at hk
    · exact .inr ‹_›
    · exact .inl (h.queued k hk)

theorem Tracks.fresh (huuid : Function.Injective uuid) : Records.find FileRecord.id (uuid s.drawn) s.entry.files = none := by
  rw [Records.find_eq_none]
  intro hmem
  obtain ⟨r, hr, hid⟩ := mem_map.1 hmem
  obtain ⟨i, hi, hi'⟩ := h.drawn r hr
  exact absurd (huuid (hi'.symm.trans hid)) (Nat.ne_of_lt hi)

theorem Tracks.create (huuid : Function.Injective uuid)
    {path folderId name : String} (hnone : s.entry.fileIds.get path = none)
    (hdata : hashed path stat data)
    (hnames : Names s.entry.folderIds path ⟨uuid s.drawn, folderId, name, sha256Hex data, none, none, none⟩) :
    ((s.stamp path stat).create path (uuid s.drawn) folderId name (sha256Hex data) data).Tracks sha256Hex uuid hashed
      published here := by
  unfold Scan.create Scan.stamp
  have hfresh := h.fresh huuid
  have hknown : ∀ p id, s.entry.fileIds.get p = some id → id ≠ uuid s.drawn := fun p id hget he => by
    obtain ⟨r, hr, -⟩ := h.indexed p id hget
    rw [he, hfresh] at hr
    cases hr
  -- a record that the index has was there before, or it is the new one
  have hold : ∀ p id r, s.entry.fileIds.get p = some id → Records.find FileRecord.id id (s.entry.files ++
      [⟨uuid s.drawn, folderId, name, sha256Hex data, none, none, none⟩]) = some r →
      Records.find FileRecord.id id s.entry.files = some r := fun p id r hget hr => by
    obtain ⟨r₀, hr₀, -⟩ := h.indexed p id hget
    rw [Records.find_append, hr₀] at hr
    rw [hr₀]
    exact hr
  have hnew : Records.find FileRecord.id (uuid s.drawn) (s.entry.files ++
      [⟨uuid s.drawn, folderId, name, sha256Hex data, none, none, none⟩]) =
      some ⟨uuid s.drawn, folderId, name, sha256Hex data, none, none, none⟩ := by
    rw [Records.find_append, hfresh]
    simp [Records.find]
  refine ⟨?_, fun r hr => ?_, fun p id hget => ?_, fun p id r hp hget hr => ?_, fun p q id hp hq => ?_,
    fun r hr hlive => ?_, fun p id r hget hr => ?_, fun id hid => ?_, h.root, h.rootRecord⟩
  · rw [map_append, nodup_append]
    refine ⟨h.nodup, nodup_singleton _, fun a ha b hb he => ?_⟩
    rw [map_singleton, mem_singleton] at hb
    exact Records.find_eq_none.1 hfresh ((he.trans hb : a = uuid s.drawn) ▸ ha)
  · rcases mem_append.1 hr with hr | hr
    · obtain ⟨i, hi, hid⟩ := h.drawn r hr
      exact ⟨i, Nat.lt_succ_of_lt hi, hid⟩
    · rw [mem_singleton.1 hr]
      exact ⟨s.drawn, Nat.lt_succ_self _, rfl⟩
  · rcases of_get_insert hget with ⟨-, rfl⟩ | ⟨-, hget⟩
    · exact ⟨_, hnew, rfl⟩
    · obtain ⟨r, hr, hlive⟩ := h.indexed p id hget
      exact ⟨r, by rw [Records.find_append, hr]; rfl, hlive⟩
  · rcases of_get_insert hget with ⟨hpath, rfl⟩ | ⟨-, hget⟩
    · cases hnew.symm.trans hr
      exact hpath ▸ hnames
    · exact h.names p id r hp hget (hold p id r hget hr)
  · rw [get_insert] at hp hq
    split at hp <;> split at hq
    · rename_i h1 h2
      exact h1.trans h2.symm
    · cases hp
      exact absurd rfl (hknown q _ hq)
    · cases hq
      exact absurd rfl (hknown p _ hp)
    · exact h.apart p q id hp hq
  · rcases mem_append.1 hr with hr | hr
    · obtain ⟨p, hp⟩ := h.listed r hr hlive
      have hne : p ≠ path := fun he => by
        rw [he, hnone] at hp
        cases hp
      exact ⟨p, (get_insert_ne hne _ _).trans hp⟩
    · rw [mem_singleton.1 hr]
      exact ⟨path, (get_insert ..).trans (if_pos rfl)⟩
  · rcases of_get_insert hget with ⟨hpath, rfl⟩ | ⟨hne, hget⟩
    · cases hnew.symm.trans hr
      subst hpath
      refine ⟨stat, data, (get_insert ..).trans (if_pos rfl), hdata, rfl, ?_⟩
      rw [get_insert, if_pos rfl]
      rfl
    · obtain ⟨stat', data', hstat, hhashed, hsum, hpub⟩ := h.content p id r hget (hold p id r hget hr)
      refine ⟨stat', data', (get_insert_ne hne _ _).trans hstat, hhashed, hsum, ?_⟩
      rw [get_insert_ne (hknown p id hget)]
      exact hpub
  · rw [get_insert] at hid
    rw [mem_append, mem_singleton]
    split at hid
    · exact .inr ‹_›
    · exact .inl (h.queued id hid)

end

variable {wf : WalkedFile}

theorem Tracks.rescanFile (h : s.Tracks sha256Hex uuid hashed published here) (huuid : Function.Injective uuid)
    (hsha : Collisionless sha256Hex hashed)
    (hpath : wf.relPath = relPath wf.folderRelPath wf.name) (hname : '/' ∉ wf.name.toList)
    (hfolder : s.entry.folderIds.get wf.folderRelPath ≠ none)
    (hread : ∀ data, wf.data = some data → hashed wf.relPath wf.stat data)
    (hstep : rescanFile sha256Hex uuid s wf = some s') : s'.Tracks sha256Hex uuid hashed published here := by
  obtain ⟨folderId, hfolderId⟩ := Option.ne_none_iff_exists'.1 hfolder
  rcases rescanFile_cases hstep with ⟨-, rfl⟩ | ⟨-, data, hdata, ⟨id, hid, rfl, hsame⟩ | ⟨id, record, hid, hrecord, -, rfl⟩ |
    ⟨hid, rfl⟩⟩
  · exact h
  · obtain ⟨record, hrecord, -⟩ := h.indexed _ _ hid
    exact h.confirm hsha hid hrecord (hread data hdata) (hsame record hrecord).1
  · refine h.rewrite hid hrecord (hread data hdata) fun hp => ?_
    obtain ⟨dir, hslash, hrel, -⟩ := h.names _ _ _ hp hid hrecord
    obtain ⟨rfl, -⟩ := relPath_inj hname hslash (hpath.symm.trans hrel)
    exact ⟨_, hslash, hrel, by rw [hfolderId]; rfl⟩
  · exact h.create huuid hid (hread data hdata) ⟨_, hname, hpath, by rw [hfolderId]; rfl⟩

/-- **The walked files one by one**: the records stay in order, and where all could be read each file's own time and size are in
the index. -/
theorem Tracks.rescanFiles (huuid : Function.Injective uuid)
    (hsha : Collisionless sha256Hex hashed) : ∀ (files : List WalkedFile) {s : Scan},
    s.Tracks sha256Hex uuid hashed published here →
    (∀ wf ∈ files, wf.relPath = relPath wf.folderRelPath wf.name ∧ '/' ∉ wf.name.toList ∧
      s.entry.folderIds.get wf.folderRelPath ≠ none ∧ ∀ data, wf.data = some data → hashed wf.relPath wf.stat data) →
    (Folder.rescanFiles sha256Hex uuid files s).1.Tracks sha256Hex uuid hashed published here
  | [], _, h, _ => h
  | wf :: files, s, h, hall => by
    unfold Folder.rescanFiles
    split
    · exact h
    · rename_i s₁ hstep
      obtain ⟨hpath, hname, hfolder, hread⟩ := hall wf mem_cons_self
      have hdirs := (rescanFile_stats hstep).2.2.2
      refine Tracks.rescanFiles huuid hsha files (h.rescanFile huuid hsha hpath hname hfolder hread hstep) fun wf' hwf' => ?_
      rw [hdirs]
      exact hall wf' (mem_cons_of_mem _ hwf')

theorem rescanFiles_known : ∀ (files : List WalkedFile) {s : Scan}, (Folder.rescanFiles sha256Hex uuid files s).2 = true →
    (∀ p, s.entry.fileIds.get p ≠ none → (Folder.rescanFiles sha256Hex uuid files s).1.entry.fileIds.get p ≠ none) ∧
      ∀ wf ∈ files, (Folder.rescanFiles sha256Hex uuid files s).1.entry.fileIds.get wf.relPath ≠ none
  | [], _, _ => ⟨fun _ hp => hp, nofun⟩
  | wf :: files, s, h => by
    unfold Folder.rescanFiles at h ⊢
    split at h
    · cases h
    · rename_i s₁ hstep
      obtain ⟨-, hself, hother, -⟩ := rescanFile_stats hstep
      obtain ⟨hkeep, hall⟩ := rescanFiles_known files h
      refine ⟨fun p hp => hkeep p ?_, fun wf' hwf' => ?_⟩
      · by_cases hpath : p = wf.relPath
        · rw [hpath]
          exact hself
        · rw [(hother p hpath).2]
          exact hp
      · rcases mem_cons.1 hwf' with rfl | hwf'
        · exact hkeep _ hself
        · exact hall wf' hwf'

theorem rescanFiles_other : ∀ (files : List WalkedFile) {s : Scan} {p : String}, p ∉ files.map WalkedFile.relPath →
    (Folder.rescanFiles sha256Hex uuid files s).1.entry.fileStats.get p = s.entry.fileStats.get p ∧
      (Folder.rescanFiles sha256Hex uuid files s).1.entry.fileIds.get p = s.entry.fileIds.get p
  | [], _, _, _ => ⟨rfl, rfl⟩
  | wf :: files, s, p, hp => by
    rw [map_cons, mem_cons, not_or] at hp
    unfold Folder.rescanFiles
    split
    · exact ⟨rfl, rfl⟩
    · rename_i s₁ hstep
      obtain ⟨hstat, hid⟩ := (rescanFile_stats hstep).2.2.1 p hp.1
      obtain ⟨hstat', hid'⟩ := @rescanFiles_other files s₁ p hp.2
      exact ⟨hstat'.trans hstat, hid'.trans hid⟩

theorem rescanFiles_stats : ∀ (files : List WalkedFile) {s : Scan}, (Folder.rescanFiles sha256Hex uuid files s).2 = true →
    (files.map WalkedFile.relPath).Nodup →
    ∀ wf ∈ files, (Folder.rescanFiles sha256Hex uuid files s).1.entry.fileStats.get wf.relPath = some wf.stat
  | [], _, _, _ => nofun
  | wf :: files, s, h, hnd => by
    rw [map_cons, nodup_cons] at hnd
    unfold Folder.rescanFiles at h ⊢
    split at h
    · cases h
    · rename_i s₁ hstep
      intro wf' hwf'
      rcases mem_cons.1 hwf' with rfl | hwf'
      · exact (rescanFiles_other files hnd.1).1.trans (rescanFile_stats hstep).1
      · exact rescanFiles_stats files h hnd.2 wf' hwf'

theorem From.rescanFile (h : s.From entry) (hstep : rescanFile sha256Hex uuid s wf = some s') : s'.From entry := by
  rcases rescanFile_cases hstep with ⟨-, rfl⟩ | ⟨-, data, -, ⟨id, -, rfl, -⟩ | ⟨id, record, -, -, -, rfl⟩ | ⟨-, rfl⟩⟩
  · exact h
  · exact ⟨h.folderId, h.roomId, h.lastCid, h.files, h.folders, h.upserted⟩
  · exact h.altered rfl rfl rfl rfl
  · exact h.altered rfl rfl rfl rfl

theorem From.rescanFiles : ∀ (files : List WalkedFile) {s : Scan}, s.From entry →
    (Folder.rescanFiles sha256Hex uuid files s).1.From entry
  | [], _, h => h
  | wf :: files, s, h => by
    unfold Folder.rescanFiles
    split
    · exact h
    · rename_i hstep
      exact From.rescanFiles files (h.rescanFile hstep)

/-! ### Files that vanished -/

theorem From.vanishFile (h : s.From entry) (path : String) : (vanishFile now s path).From entry := by
  unfold Folder.vanishFile
  split
  · exact h
  · dsimp only
    split
    · exact ⟨h.folderId, h.roomId, h.lastCid, h.files, h.folders, h.upserted⟩
    · split
      · exact h.altered rfl rfl rfl rfl
      · exact ⟨h.folderId, h.roomId, h.lastCid, h.files, h.folders, h.upserted⟩

theorem vanishFile_index (s : Scan) (path : String) : (Folder.vanishFile now s path).entry.fileIds = s.entry.fileIds.erase path ∧
      (∀ p, p ≠ path → (Folder.vanishFile now s path).entry.fileStats.get p = s.entry.fileStats.get p) := by
  unfold Folder.vanishFile
  split
  · rename_i hnone
    exact ⟨(erase_of_get_none hnone).symm, fun _ _ => rfl⟩
  · dsimp only
    split
    · exact ⟨rfl, fun p hp => get_erase_ne hp _⟩
    · split
      · exact ⟨rfl, fun p hp => get_erase_ne hp _⟩
      · exact ⟨rfl, fun p hp => get_erase_ne hp _⟩

theorem Tracks.vanishFile (h : s.Tracks sha256Hex uuid hashed published here) (path : String) :
    (vanishFile now s path).Tracks sha256Hex uuid hashed published here := by
  unfold Folder.vanishFile
  split
  · exact h
  · rename_i id hid
    obtain ⟨record, hrecord, hlive⟩ := h.indexed path id hid
    dsimp only
    rw [hrecord]
    dsimp only
    rw [if_pos hlive]
    have hkey : ∀ r : FileRecord, ({ r with deletedAt := some now } : FileRecord).id = r.id := fun _ => rfl
    have hfind := fun k => @Records.find_update _ _ _ FileRecord.id id _ s.entry.files hkey k
    have hids := @Records.map_key_update _ _ _ FileRecord.id id _ s.entry.files hkey
    -- what the index still has is another file
    have hrest : ∀ p k, (s.entry.fileIds.erase path).get p = some k → p ≠ path ∧ s.entry.fileIds.get p = some k ∧ k ≠ id :=
      fun p k hget => by
        obtain ⟨hne, hget⟩ := of_get_erase hget
        exact ⟨hne, hget, fun he => hne (h.apart p path id (he ▸ hget) hid)⟩
    refine ⟨hids ▸ h.nodup, fun r hr => ?_, fun p k hget => ?_, fun p k r hp hget hr => ?_, fun p q k hp hq => ?_,
      fun r hr hr' => ?_, fun p k r hget hr => ?_, h.queued, h.root, h.rootRecord⟩
    · obtain ⟨r₀, hr₀, hrid⟩ := mem_map.1 (hids ▸ mem_map_of_mem hr)
      obtain ⟨i, hi, hi'⟩ := h.drawn r₀ hr₀
      exact ⟨i, hi, hrid ▸ hi'⟩
    · obtain ⟨-, hget, hne⟩ := hrest p k hget
      simp only [hfind, if_neg hne]
      exact h.indexed p k hget
    · obtain ⟨-, hget, hne⟩ := hrest p k hget
      simp only [hfind, if_neg hne] at hr
      exact h.names p k r hp hget hr
    · exact h.apart p q k (hrest p k hp).2.1 (hrest q k hq).2.1
    · have hr₁ := (Records.mem_iff_find (hids ▸ h.nodup)).1 hr
      rw [hfind] at hr₁
      split at hr₁
      · rw [hrecord] at hr₁
        cases hr₁
        cases hr'
      · rename_i hne
        obtain ⟨p, hp⟩ := h.listed r (Records.mem_of_find hr₁) hr'
        refine ⟨p, (get_erase_ne (fun he => ?_) _).trans hp⟩
        rw [he, hid] at hp
        exact hne (Option.some.inj hp).symm
    · obtain ⟨hpath, hget, hne⟩ := hrest p k hget
      simp only [hfind, if_neg hne] at hr
      obtain ⟨stat, data, hstat, hhashed, hsum, hpub⟩ := h.content p k r hget hr
      exact ⟨stat, data, (get_erase_ne hpath _).trans hstat, hhashed, hsum, hpub⟩

theorem foldl_vanishFile_get : ∀ (paths : List String) (s : Scan) (p : String),
    (paths.foldl (Folder.vanishFile now) s).entry.fileIds.get p = (if p ∈ paths then none else s.entry.fileIds.get p) ∧
      (p ∉ paths → (paths.foldl (Folder.vanishFile now) s).entry.fileStats.get p = s.entry.fileStats.get p)
  | [], _, _ => ⟨rfl, fun _ => rfl⟩
  | path :: paths, s, p => by
    rw [foldl_cons]
    obtain ⟨hid, hstat⟩ := foldl_vanishFile_get paths (Folder.vanishFile now s path) p
    obtain ⟨hid', hstat'⟩ := @vanishFile_index now s path
    constructor
    · rw [hid, hid', get_erase]
      by_cases hp : p = path
      · simp [hp]
      · simp [hp]
    · intro hp
      rw [mem_cons, not_or] at hp
      exact (hstat hp.2).trans (hstat' p hp.1)

/-! ### What there is to do, and what is done -/

theorem rescanFolders_same {order : Listing} {dirs : List WalkedDir} (h : FoldersSame s.entry dirs) :
    Folder.rescanFolders uuid now order dirs s = s := by
  have hdirs : ∀ l : List WalkedDir, (∀ d ∈ l, d.relPath ≠ "" → s.entry.folderIds.get d.relPath ≠ none) →
      l.foldl (Folder.rescanDir uuid) s = s := by
    intro l
    induction l with
    | nil => exact fun _ => rfl
    | cons d l ih =>
      intro hl
      have hstep : Folder.rescanDir uuid s d = s := by
        unfold Folder.rescanDir
        split
        · rfl
        · rename_i hroot
          obtain ⟨id, hid⟩ := Option.ne_none_iff_exists'.1 (hl d mem_cons_self hroot)
          rw [if_pos (Table.contains_iff.2 ⟨id, hid⟩)]
      rw [foldl_cons, hstep]
      exact ih fun d' hd' => hl d' (mem_cons_of_mem _ hd')
  have hnone : vanishedFolderPaths order s.entry dirs = [] := by
    refine filter_eq_nil_iff.2 fun p hp => ?_
    rcases h.2 p (Table.mem_keys.1 ((order.mem_list _ _).1 hp)) with rfl | hp
    · simp
    · simp [hp]
  unfold Folder.rescanFolders
  dsimp only
  rw [hdirs dirs h.1, hnone]
  rfl

/-- The scan has of the file at `p` what the entry has of it. -/
def Agrees (entry : SharedFolder) (s : Scan) (p : String) : Prop :=
  s.entry.fileIds.get p = entry.fileIds.get p ∧ s.entry.fileStats.get p = entry.fileStats.get p ∧ ∀ id, entry.fileIds.get p = some id →
      Records.find FileRecord.id id s.entry.files = Records.find FileRecord.id id entry.files

theorem Agrees.fastPath (h : s.Agrees entry wf.relPath) : fastPath s.entry wf = Folder.fastPath entry wf := by
  unfold Folder.fastPath Table.contains
  rw [h.1, h.2.1]

theorem Agrees.kept (h : s.Agrees entry wf.relPath) : kept sha256Hex s.entry wf = Folder.kept sha256Hex entry wf := by
  unfold Folder.kept
  rw [h.1, h.2.1]
  cases hid : entry.fileIds.get wf.relPath with
  | none => rfl
  | some id =>
    dsimp only
    rw [h.2.2 id hid]

theorem Agrees.rescanFile (htracks : s.Tracks sha256Hex uuid hashed published here) {p : String} (hne : p ≠ wf.relPath) (h : s.Agrees entry p)
    (hstep : rescanFile sha256Hex uuid s wf = some s') : s'.Agrees entry p := by
  obtain ⟨hstat, hget⟩ := (rescanFile_stats hstep).2.2.1 p hne
  refine ⟨hget.trans h.1, hstat.trans h.2.1, fun id hid => (?_ : _ = _).trans (h.2.2 id hid)⟩
  have hid' : s.entry.fileIds.get p = some id := h.1.trans hid
  rcases rescanFile_cases hstep with ⟨-, rfl⟩ | ⟨-, data, -, ⟨id', -, rfl, -⟩ | ⟨id', record, hpath, -, -, rfl⟩ | ⟨-, rfl⟩⟩
  · rfl
  · rfl
  · refine (Records.find_update ?_ id).trans (if_neg fun he => hne ?_)
    · exact fun _ => rfl
    · exact htracks.apart p wf.relPath id' (he ▸ hid') hpath
  · obtain ⟨r, hr, -⟩ := htracks.indexed p id hid'
    refine Records.find_append.trans ?_
    show (Records.find FileRecord.id id s.entry.files).or _ = _
    rw [hr]
    rfl

/-- **What the walked files have to do with what is done**, given the entry that the scan began with. -/
theorem rescanFiles_input (huuid : Function.Injective uuid)
    (hsha : Collisionless sha256Hex hashed) : ∀ (files : List WalkedFile) {s : Scan},
    s.Tracks sha256Hex uuid hashed published here →
    (∀ wf ∈ files, wf.relPath = relPath wf.folderRelPath wf.name ∧ '/' ∉ wf.name.toList ∧
      s.entry.folderIds.get wf.folderRelPath ≠ none ∧ ∀ data, wf.data = some data → hashed wf.relPath wf.stat data) →
    (files.map WalkedFile.relPath).Nodup → (∀ wf ∈ files, s.Agrees entry wf.relPath) →
    ((Folder.rescanFiles sha256Hex uuid files s).2 = true → ∀ wf ∈ files, Readable entry wf) ∧
    ((Folder.rescanFiles sha256Hex uuid files s).2 = false → ∃ pre wf post, files = pre ++ wf :: post ∧
      (∀ g ∈ pre, Readable entry g) ∧ ¬ Readable entry wf ∧
      ((∀ g ∈ pre, kept sha256Hex entry g = true) → (Folder.rescanFiles sha256Hex uuid files s).1.result = s.result)) ∧
    ((∀ wf ∈ files, kept sha256Hex entry wf = true) → (Folder.rescanFiles sha256Hex uuid files s).1.result = s.result) ∧
    (Folder.rescanFiles sha256Hex uuid files s).1.result.upsertedFileIds.length ≤
      s.result.upsertedFileIds.length + files.countP (fun wf => !kept sha256Hex entry wf)
  | [], s, _, _, _, _ => ⟨fun _ _ h => (not_mem_nil h).elim, nofun, fun _ => rfl, Nat.le_add_right _ _⟩
  | wf :: files, s, h, hall, hnd, hagrees => by
    rw [map_cons, nodup_cons] at hnd
    obtain ⟨hpath, hname, hfolder, hread⟩ := hall wf mem_cons_self
    have hwf := hagrees wf mem_cons_self
    have hreadable : Readable s.entry wf ↔ Readable entry wf := by
      unfold Readable
      rw [hwf.fastPath]
    have hkept : kept sha256Hex s.entry wf = kept sha256Hex entry wf := hwf.kept
    unfold Folder.rescanFiles
    split
    · rename_i hfail
      rw [rescanFile_none, hreadable] at hfail
      exact ⟨nofun, fun _ => ⟨[], wf, files, rfl, fun _ hg => (not_mem_nil hg).elim, hfail, fun _ => rfl⟩,
        fun _ => rfl, Nat.le_add_right _ _⟩
    · rename_i s₁ hstep
      have hok : Readable entry wf := by
        by_contra hno
        rw [← hreadable, ← @rescanFile_none sha256Hex uuid, hstep] at hno
        cases hno
      obtain ⟨hsame, hlen⟩ := rescanFile_result hstep
      rw [hkept] at hsame hlen
      have hdirs := (rescanFile_stats hstep).2.2.2
      obtain ⟨h1, h2, h3, h4⟩ := @rescanFiles_input huuid hsha files s₁
        (h.rescanFile huuid hsha hpath hname hfolder hread hstep)
        (fun wf' hwf' => by
          rw [hdirs]
          exact hall wf' (mem_cons_of_mem _ hwf'))
        hnd.2
        (fun wf' hwf' => Agrees.rescanFile h
          (fun he => hnd.1 (he ▸ mem_map_of_mem hwf')) (hagrees wf' (mem_cons_of_mem _ hwf')) hstep)
      refine ⟨fun hall' wf' hwf' => ?_, fun hfail => ?_, fun hall' => ?_, ?_⟩
      · rcases mem_cons.1 hwf' with rfl | hwf'
        · exact hok
        · exact h1 hall' wf' hwf'
      · obtain ⟨pre, g, post, rfl, hpre, hg, hres⟩ := h2 hfail
        refine ⟨wf :: pre, g, post, rfl, fun g' hg' => ?_, hg, fun hall' => ?_⟩
        · rcases mem_cons.1 hg' with rfl | hg'
          · exact hok
          · exact hpre g' hg'
        · exact (hres fun g' hg' => hall' g' (mem_cons_of_mem _ hg')).trans (hsame (hall' wf mem_cons_self))
      · exact (h3 fun wf' hwf' => hall' wf' (mem_cons_of_mem _ hwf')).trans (hsame (hall' wf mem_cons_self))
      · rw [countP_cons]
        cases hk : kept sha256Hex entry wf <;> simp only [hk] at hlen ⊢ <;> simp at hlen ⊢ <;> omega

/-! ### The rescan -/

theorem rescanFolders_files (order : Listing) (dirs : List WalkedDir) (s : Scan) :
    (Folder.rescanFolders uuid now order dirs s).entry.files = s.entry.files ∧
      (Folder.rescanFolders uuid now order dirs s).entry.fileIds = s.entry.fileIds ∧
      (Folder.rescanFolders uuid now order dirs s).entry.fileStats = s.entry.fileStats ∧
      (Folder.rescanFolders uuid now order dirs s).result.upsertedFileIds = s.result.upsertedFileIds := by
  have hdir : ∀ (t : Scan) (d : WalkedDir), (Folder.rescanDir uuid t d).entry.files = t.entry.files ∧
      (Folder.rescanDir uuid t d).entry.fileIds = t.entry.fileIds ∧
      (Folder.rescanDir uuid t d).entry.fileStats = t.entry.fileStats ∧
      (Folder.rescanDir uuid t d).result.upsertedFileIds = t.result.upsertedFileIds := fun t d => by
    unfold Folder.rescanDir
    split
    · exact ⟨rfl, rfl, rfl, rfl⟩
    · split <;> exact ⟨rfl, rfl, rfl, rfl⟩
  have hvanish : ∀ (t : Scan) (path : String), (Folder.vanishFolder now t path).entry.files = t.entry.files ∧
      (Folder.vanishFolder now t path).entry.fileIds = t.entry.fileIds ∧
      (Folder.vanishFolder now t path).entry.fileStats = t.entry.fileStats ∧
      (Folder.vanishFolder now t path).result.upsertedFileIds = t.result.upsertedFileIds := fun t path => by
    unfold Folder.vanishFolder
    split
    · exact ⟨rfl, rfl, rfl, rfl⟩
    · dsimp only
      split
      · exact ⟨rfl, rfl, rfl, rfl⟩
      · split <;> exact ⟨rfl, rfl, rfl, rfl⟩
  refine foldl_keeps (fun t => t.entry.files = s.entry.files ∧ t.entry.fileIds = s.entry.fileIds ∧
    t.entry.fileStats = s.entry.fileStats ∧ t.result.upsertedFileIds = s.result.upsertedFileIds) _ _
    (fun t path _ ht => ?_) (foldl_keeps (fun t => t.entry.files = s.entry.files ∧ t.entry.fileIds = s.entry.fileIds ∧
      t.entry.fileStats = s.entry.fileStats ∧ t.result.upsertedFileIds = s.result.upsertedFileIds) dirs s
      (fun t d _ ht => ?_) ⟨rfl, rfl, rfl, rfl⟩)
  · obtain ⟨h1, h2, h3, h4⟩ := hvanish t path
    exact ⟨h1.trans ht.1, h2.trans ht.2.1, h3.trans ht.2.2.1, h4.trans ht.2.2.2⟩
  · obtain ⟨h1, h2, h3, h4⟩ := hdir t d
    exact ⟨h1.trans ht.1, h2.trans ht.2.1, h3.trans ht.2.2.1, h4.trans ht.2.2.2⟩

end Scan

/-- The scan of an entry as a tick finds it. -/
abbrev SharedFolder.scan (entry : SharedFolder) (drawn : Nat) : Scan := ⟨entry, RescanResult.default, drawn⟩

section Rescan

variable {drawn : Nat} {found : Found} {w : Walked}

def scanned (sha256Hex : Bytes → String) (uuid : Nat → String) (entry : SharedFolder) (drawn : Nat) (found : Found)
    (w : Walked) : Scan × Bool :=
  rescanFiles sha256Hex uuid w.files (rescanFolders uuid found.now found.folderOrder w.dirs (entry.scan drawn))

theorem rescanLocalDir_walked (hw : walkSharedDir found.root = some w) :
    (rescanLocalDir sha256Hex uuid entry drawn found).2 = (scanned sha256Hex uuid entry drawn found w).2 ∧
      (rescanLocalDir sha256Hex uuid entry drawn found).1 = if (scanned sha256Hex uuid entry drawn found w).2 = true then
          (vanishedFilePaths found.fileOrder (scanned sha256Hex uuid entry drawn found w).1.entry w.files).foldl
            (vanishFile found.now) (scanned sha256Hex uuid entry drawn found w).1
        else (scanned sha256Hex uuid entry drawn found w).1 := by
  unfold rescanLocalDir scanned SharedFolder.scan
  rw [hw]
  dsimp only
  split
  · rename_i hscan
    rw [hscan]
    exact ⟨rfl, rfl⟩
  · rename_i hscan
    rw [hscan]
    exact ⟨rfl, rfl⟩

theorem rescanLocalDir_unwalked (hw : walkSharedDir found.root = none) :
    rescanLocalDir sha256Hex uuid entry drawn found = (entry.scan drawn, false) := by
  unfold rescanLocalDir
  rw [hw]

theorem scan_from : (entry.scan drawn).From entry := ⟨rfl, rfl, rfl, fun _ => rfl, fun _ => rfl, fun _ => rfl⟩

theorem rescanLocalDir_from : (rescanLocalDir sha256Hex uuid entry drawn found).1.From entry := by
  cases hw : walkSharedDir found.root with
  | none =>
    rw [rescanLocalDir_unwalked hw]
    exact scan_from
  | some w =>
    have hfiles : (scanned sha256Hex uuid entry drawn found w).1.From entry :=
      Scan.From.rescanFiles w.files (scan_from.rescanFolders found.folderOrder w.dirs)
    rw [(rescanLocalDir_walked hw).2]
    split
    · exact Scan.foldl_keeps (Scan.From entry) _ _ (fun _ path _ hs => hs.vanishFile path) hfiles
    · exact hfiles

theorem rescanLocalDir_drawn (sha256Hex : Bytes → String) (uuid : Nat → String) (entry : SharedFolder) (drawn : Nat)
    (found : Found) : drawn ≤ (rescanLocalDir sha256Hex uuid entry drawn found).1.drawn := by
  have hdir : ∀ (s : Scan) (d : WalkedDir), s.drawn ≤ (rescanDir uuid s d).drawn := fun s d => by
    unfold rescanDir
    split
    · exact le_rfl
    · split
      · exact le_rfl
      · exact Nat.le_succ _
  have hfolder : ∀ (s : Scan) (path : String), (vanishFolder found.now s path).drawn = s.drawn := fun s path => by
    unfold vanishFolder
    split
    · rfl
    · dsimp only
      split
      · rfl
      · split <;> rfl
  have hfile : ∀ (s : Scan) (path : String), (vanishFile found.now s path).drawn = s.drawn := fun s path => by
    unfold vanishFile
    split
    · rfl
    · dsimp only
      split
      · rfl
      · split <;> rfl
  have hfolders : ∀ dirs : List WalkedDir,
      drawn ≤ (rescanFolders uuid found.now found.folderOrder dirs (entry.scan drawn)).drawn := fun dirs =>
    Scan.foldl_keeps (fun s => drawn ≤ s.drawn) _ _ (fun s path _ hs => by rwa [hfolder])
      (Scan.foldl_keeps (fun s => drawn ≤ s.drawn) dirs _ (fun s d _ hs => hs.trans (hdir s d)) le_rfl)
  have hfiles : ∀ (files : List WalkedFile) (s : Scan), s.drawn ≤ (rescanFiles sha256Hex uuid files s).1.drawn := by
    intro files
    induction files with
    | nil => exact fun _ => le_rfl
    | cons wf files ih =>
      intro s
      unfold rescanFiles
      split
      · exact le_rfl
      · rename_i s₁ hstep
        refine le_trans ?_ (ih s₁)
        rcases rescanFile_cases hstep with ⟨-, rfl⟩ | ⟨-, data, -, ⟨id, -, rfl, -⟩ | ⟨id, record, -, -, -, rfl⟩ | ⟨-, rfl⟩⟩
        · exact le_rfl
        · exact le_rfl
        · exact le_rfl
        · exact Nat.le_succ _
  cases hw : walkSharedDir found.root with
  | none => rw [rescanLocalDir_unwalked hw]
  | some w =>
    rw [(rescanLocalDir_walked hw).2]
    have hscanned := (hfolders w.dirs).trans (hfiles w.files _)
    split
    · exact Scan.foldl_keeps (fun s => drawn ≤ s.drawn) _ _ (fun s path _ hs => by rwa [hfile]) hscanned
    · exact hscanned

theorem walked_ready {order : Listing} (hw : walkSharedDir found.root = some w)
    (hroot : s.entry.folderIds.get "" ≠ none)
    (hread : ∀ wf ∈ w.files, ∀ data, wf.data = some data → hashed wf.relPath wf.stat data) :
    ∀ wf ∈ w.files, wf.relPath = relPath wf.folderRelPath wf.name ∧ '/' ∉ wf.name.toList ∧
      (rescanFolders uuid now order w.dirs s).entry.folderIds.get wf.folderRelPath ≠ none ∧
      ∀ data, wf.data = some data → hashed wf.relPath wf.stat data := fun wf hwf => by
  have hplaced := walkSharedDir_placed hw
  obtain ⟨d, hd, hrel⟩ := hplaced.folder wf hwf
  exact ⟨hplaced.path wf hwf, (hplaced.name wf hwf).2, Scan.rescanFolders_known order hroot (mem_map.2 ⟨d, hd, hrel⟩), hread wf hwf⟩

variable (huuid : Function.Injective uuid) (hsha : Collisionless sha256Hex hashed)
  (h : (entry.scan drawn).Tracks sha256Hex uuid hashed published (fun _ => True))
  (hw : walkSharedDir found.root = some w)
  (hread : ∀ wf ∈ w.files, ∀ data, wf.data = some data → hashed wf.relPath wf.stat data)

include huuid hsha h hw hread

theorem scanned_tracks : (scanned sha256Hex uuid entry drawn found w).1.Tracks sha256Hex uuid hashed published
    (· ∈ w.files.map WalkedFile.relPath) := by
  have hroot : (entry.scan drawn).entry.folderIds.get "" ≠ none := by
    rw [h.root]
    nofun
  exact Scan.Tracks.rescanFiles huuid hsha w.files
    ((h.of_here fun _ _ _ => trivial).rescanFolders (walkSharedDir_placed hw) found.folderOrder)
    (walked_ready hw hroot hread)

/-- **A rescan that succeeds** leaves the records in order, with the files that were walked and no other. -/
theorem rescanLocalDir_done (hok : (rescanLocalDir sha256Hex uuid entry drawn found).2 = true) :
    (rescanLocalDir sha256Hex uuid entry drawn found).1.Tracks sha256Hex uuid hashed published (fun _ => True) ∧
      (∀ p, (rescanLocalDir sha256Hex uuid entry drawn found).1.entry.fileIds.get p ≠ none ↔ p ∈ w.files.map WalkedFile.relPath) ∧
      ((w.files.map WalkedFile.relPath).Nodup → ∀ wf ∈ w.files,
        (rescanLocalDir sha256Hex uuid entry drawn found).1.entry.fileStats.get wf.relPath = some wf.stat) := by
  obtain ⟨h2, h1⟩ := @rescanLocalDir_walked sha256Hex uuid entry drawn found w hw
  have hscan : (scanned sha256Hex uuid entry drawn found w).2 = true := h2.symm.trans hok
  rw [h1, if_pos hscan]
  have htracks := scanned_tracks huuid hsha h hw hread
  have hvanished : ∀ p, p ∈ vanishedFilePaths found.fileOrder (scanned sha256Hex uuid entry drawn found w).1.entry w.files ↔
      (scanned sha256Hex uuid entry drawn found w).1.entry.fileIds.get p ≠ none ∧ p ∉ w.files.map WalkedFile.relPath :=
    fun p => by
      unfold vanishedFilePaths
      rw [mem_filter, found.fileOrder.mem_list, Table.mem_keys, decide_eq_true_eq]
  have hget := fun p => @Scan.foldl_vanishFile_get found.now
    (vanishedFilePaths found.fileOrder (scanned sha256Hex uuid entry drawn found w).1.entry w.files)
    (scanned sha256Hex uuid entry drawn found w).1 p
  have hknown := (@Scan.rescanFiles_known sha256Hex uuid w.files _ hscan).2
  have hkeys : ∀ p, ((vanishedFilePaths found.fileOrder (scanned sha256Hex uuid entry drawn found w).1.entry w.files).foldl
      (vanishFile found.now) (scanned sha256Hex uuid entry drawn found w).1).entry.fileIds.get p ≠ none ↔
      p ∈ w.files.map WalkedFile.relPath := fun p => by
    rw [(hget p).1]
    by_cases hp : p ∈ w.files.map WalkedFile.relPath
    · rw [if_neg fun hv => ((hvanished p).1 hv).2 hp]
      obtain ⟨wf, hwf, rfl⟩ := mem_map.1 hp
      exact ⟨fun _ => hp, fun _ => hknown wf hwf⟩
    · refine ⟨fun hne => absurd ?_ hne, fun hp' => absurd hp' hp⟩
      split
      · rfl
      · rename_i hv
        by_contra hne
        exact hv ((hvanished p).2 ⟨hne, hp⟩)
  refine ⟨?_, hkeys, fun hnd wf hwf => ?_⟩
  · refine Scan.Tracks.of_here (Scan.foldl_keeps (Scan.Tracks sha256Hex uuid hashed published _) _ _
      (fun _ path _ hs => hs.vanishFile path) htracks) fun p _ hp => (hkeys p).1 hp
  · rw [(hget wf.relPath).2 fun hv => ((hvanished _).1 hv).2 (mem_map_of_mem hwf)]
    exact Scan.rescanFiles_stats w.files hscan hnd wf hwf

/-- **What a rescan does is what there is to do**: a rescan that succeeds changes nothing where the directory is unchanged, and
one that fails at its first file that cannot be read has changed nothing where all before that is as it was. -/
theorem rescanLocalDir_input (hnd : (w.files.map WalkedFile.relPath).Nodup) :
    ((rescanLocalDir sha256Hex uuid entry drawn found).2 = true → (∀ wf ∈ w.files, Readable entry wf) ∧
      (Unchanged sha256Hex entry w → (rescanLocalDir sha256Hex uuid entry drawn found).1.result.changed = false) ∧
      (rescanLocalDir sha256Hex uuid entry drawn found).1.result.upsertedFileIds.length ≤
        w.files.countP (fun wf => !kept sha256Hex entry wf)) ∧
    ((rescanLocalDir sha256Hex uuid entry drawn found).2 = false → ∃ pre wf post, w.files = pre ++ wf :: post ∧
      (∀ g ∈ pre, Readable entry g) ∧ ¬ Readable entry wf ∧
      (FoldersSame entry w.dirs → (∀ g ∈ pre, kept sha256Hex entry g = true) →
        (rescanLocalDir sha256Hex uuid entry drawn found).1.result.changed = false ∧
        (rescanLocalDir sha256Hex uuid entry drawn found).1.Tracks sha256Hex uuid hashed published (fun _ => True))) := by
  obtain ⟨h2, h1⟩ := @rescanLocalDir_walked sha256Hex uuid entry drawn found w hw
  obtain ⟨hf1, hf2, hf3, hf4⟩ := @Scan.rescanFolders_files uuid found.now found.folderOrder w.dirs (entry.scan drawn)
  have hroot : (entry.scan drawn).entry.folderIds.get "" ≠ none := by
    rw [h.root]
    exact Option.some_ne_none _
  have hready := @walked_ready uuid found.now hashed (entry.scan drawn) found w found.folderOrder hw hroot hread
  have hfolders : (rescanFolders uuid found.now found.folderOrder w.dirs (entry.scan drawn)).Tracks sha256Hex uuid hashed
      published (· ∈ w.files.map WalkedFile.relPath) :=
    (h.of_here fun _ _ _ => trivial).rescanFolders (walkSharedDir_placed hw) found.folderOrder
  obtain ⟨hreadable, hfail, hkept, hlen⟩ := @Scan.rescanFiles_input sha256Hex uuid hashed published _ entry huuid hsha w.files
    _ hfolders hready hnd fun wf _ => ⟨by rw [hf2], by rw [hf3], fun _ _ => by rw [hf1]⟩
  rw [hf4] at hlen
  have hvanish : ∀ (l : List String) (t : Scan), (l.foldl (vanishFile found.now) t).result.upsertedFileIds =
      t.result.upsertedFileIds := fun l t => by
    refine Scan.foldl_keeps (fun t' => t'.result.upsertedFileIds = t.result.upsertedFileIds) l t (fun t' p _ ht => ?_) rfl
    refine Eq.trans ?_ ht
    unfold vanishFile
    split
    · rfl
    · dsimp only
      split
      · rfl
      · split <;> rfl
  constructor
  · intro hok
    have hscan : (scanned sha256Hex uuid entry drawn found w).2 = true := h2.symm.trans hok
    rw [h1, if_pos hscan]
    refine ⟨hreadable hscan, fun hsame => ?_, ?_⟩
    · obtain ⟨hdirs, hall, hkeys⟩ := hsame
      have hnone : vanishedFilePaths found.fileOrder (scanned sha256Hex uuid entry drawn found w).1.entry w.files = [] := by
        refine filter_eq_nil_iff.2 fun p hp hno => ?_
        have hno' := of_decide_eq_true hno
        have hget := Table.mem_keys.1 ((found.fileOrder.mem_list _ _).1 hp)
        unfold scanned at hget
        rw [(Scan.rescanFiles_other w.files hno').2, hf2] at hget
        exact hno' (hkeys p hget)
      rw [hnone, foldl_nil]
      unfold scanned
      rw [hkept hall, Scan.rescanFolders_same hdirs]
      rfl
    · rw [hvanish]
      exact hlen.trans (Nat.le_of_eq (Nat.zero_add _))
  · intro hno
    have hscan : (scanned sha256Hex uuid entry drawn found w).2 = false := h2.symm.trans hno
    obtain ⟨pre, wf, post, hsplit, hpre, hwf, hres⟩ := hfail hscan
    refine ⟨pre, wf, post, hsplit, hpre, hwf, fun hdirs hall => ?_⟩
    rw [h1, if_neg (by rw [hscan]; exact Bool.false_ne_true)]
    unfold scanned
    have hsame := @Scan.rescanFolders_same uuid found.now (entry.scan drawn) found.folderOrder w.dirs hdirs
    refine ⟨by rw [hres hall, hsame]; rfl, ?_⟩
    rw [hsame] at hready ⊢
    exact Scan.Tracks.rescanFiles huuid hsha w.files h hready

end Rescan

end

end Mistl.Folder
