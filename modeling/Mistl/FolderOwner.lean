import Mistl.FolderTracks
import Mistl.FolderSync
import Mathlib.Data.Finset.Sort
import Mathlib.Data.String.Basic
/-!
# FolderOwner — the ticks of a folder's owner

`republish`, `rescan_and_announce` and the ticks of `run_background` in `storage/folder_owner.rs` for one shared
folder.
-/
open List Mistl.Table Option

namespace Mistl.Folder

/-- What is published: a `FileBundle` with its content, or a `FolderBundle`. -/
inductive Blob where
  | file (file : FileRecord) (data : Bytes)
  | folder (bundle : FolderBundle)

/-- The owner of a shared folder; `blobs` is what was published so far. -/
structure Owner where
  entry : SharedFolder
  drawn : Nat
  blobs : Table String Blob
  added : Nat

/-- A tick: what the rescan finds, which publishes and broadcasts succeed, at what time each of these is stamped, whether
`should_skip_folder_state` says so, and whether the table is written. -/
structure Tick extends Found where
  adds : Nat → Bool
  sends : Nat → Int × Bool
  skip : Bool
  persisted : Bool

/-- What the owner is run with: the hash, the ids that it draws, the cids of what it publishes, its `did`, and
`folder_signature`. -/
structure Setting where
  sha256Hex : Bytes → String
  uuid : Nat → String
  cidOf : Nat → Blob → String
  did : String
  folderSignature : String → List FolderRecord → List FileRecord → String

section
variable (env : Setting)

namespace Owner

/-- A `FileBundle` was published. -/
def publishFile (x : Owner) (record : FileRecord) (data : Bytes) : Owner :=
  let cid := env.cidOf x.added (.file record data)
  { x with
    entry := { x.entry with
      files := Records.update FileRecord.id record.id (fun r => { r with lastCid := some cid, lastShareCid := some cid })
        x.entry.files }
    blobs := x.blobs.insert cid (.file record data)
    added := x.added + 1 }

def folderBundle (x : Owner) (rootRecord : FolderRecord) : FolderBundle := ⟨rootRecord, some x.entry.folders, x.entry.files⟩

/-- The `FolderBundle` was published. -/
def publishFolder (x : Owner) (rootRecord : FolderRecord) : Owner :=
  let cid := env.cidOf x.added (.folder (x.folderBundle rootRecord))
  { x with
    entry := { x.entry with
      lastCid := some cid
      lastFolderSignature := some (env.folderSignature x.entry.folderId x.entry.folders x.entry.files) }
    blobs := x.blobs.insert cid (.folder (x.folderBundle rootRecord))
    added := x.added + 1 }

/-- The file bundles of `republish` one by one; `k` counts the publishes, and `none` is one that failed. -/
def publishFiles (adds : Nat → Bool) (result : RescanResult) : Nat → List String → Owner → Owner × Option Nat
  | k, [], x => (x, some k)
  | k, fileId :: rest, x =>
    match result.newFileBytes.get fileId, Records.find FileRecord.id fileId x.entry.files with
    | some data, some record => if adds k then publishFiles adds result (k + 1) rest (x.publishFile env record data) else (x, none)
    | _, _ => publishFiles adds result k rest x

/-- `republish`, and whether it succeeds: if not, the entry is left as far as it got. -/
def republish (adds : Nat → Bool) (result : RescanResult) (x : Owner) : Owner × Bool :=
  match Records.find FolderRecord.id x.entry.folderId x.entry.folders with
  | none => (x, false)
  | some rootRecord =>
    match publishFiles env adds result 0 result.upsertedFileIds x with
    | (x, none) => (x, false)
    | (x, some k) => if adds k then (x.publishFolder env rootRecord, true) else (x, false)

/-! ## Announcements -/

/-- The envelope of `announce_folder_state`, but for its clock -/
def folderState (entry : SharedFolder) (cid : String) (clock : Int) : Envelope :=
  ⟨"folder-state", env.did, entry.roomId, clock, none, some (entry.lastFolderSignature.getD ""), some entry.folderId, none,
    none, some cid⟩

/-- The envelope of `announce_publish` -/
def folderShare (entry : SharedFolder) (clock : Int) : Envelope :=
  ⟨"folder-share", env.did, entry.roomId, clock, none, some (entry.lastFolderSignature.getD ""), some entry.folderId, none,
    none, some (entry.lastCid.getD "")⟩

/-- The envelope of `announce_file_change` -/
def folderChange (entry : SharedFolder) (changeType : String) (file : FileRecord) (clock : Int) : Envelope :=
  ⟨"folder-change", env.did, entry.roomId, clock, some changeType, none, some entry.folderId, some file.id, some file, file.lastCid⟩

/-- One announcement after the other, each stamped with the clock, until one fails. -/
def announceAll (sends : Nat → Int × Bool) : Nat → List (Int → Envelope) → List Envelope
  | _, [] => []
  | k, envelope :: rest => if (sends k).2 then envelope (sends k).1 :: announceAll sends (k + 1) rest else []

def announceFolderState (entry : SharedFolder) (skip : Bool) (sends : Nat → Int × Bool) : List Envelope :=
  match entry.lastCid with
  | none => []
  | some cid => if skip then [] else announceAll sends 0 [folderState env entry cid]

def announcements (entry : SharedFolder) (result : RescanResult) : List (Int → Envelope) := folderShare env entry ::
    ((result.upsertedFileIds.filterMap fun id => Records.find FileRecord.id id entry.files).map
        (folderChange env entry "file-upserted") ++
      (result.deletedFileIds.filterMap fun id => Records.find FileRecord.id id entry.files).map
        (folderChange env entry "file-deleted"))

/-- `rescan_and_announce`, and the envelopes that it sends -/
def rescanAndAnnounce (x : Owner) (t : Tick) : Owner × List Envelope :=
  match rescanLocalDir env.sha256Hex env.uuid x.entry x.drawn t.toFound with
  | (s, false) => ({ x with entry := s.entry, drawn := s.drawn }, [])
  | (s, true) =>
    if s.result.changed = false then
      ({ x with entry := s.entry, drawn := s.drawn }, announceFolderState env s.entry t.skip t.sends)
    else
      match republish env t.adds s.result { x with entry := s.entry, drawn := s.drawn } with
      | (x, false) => (x, [])
      | (x, true) => (x, announceAll t.sends 0 (announcements env x.entry s.result))

/-- A tick of `run_background`: whatever the outcome, the entry is written. -/
def tick (x : Owner) (t : Tick) : Owner := { (rescanAndAnnounce env x t).1 with
    entry := if t.persisted then (rescanAndAnnounce env x t).1.entry else x.entry }

def run (x : Owner) (ticks : List Tick) : Owner := ticks.foldl (tick env) x

/-- A new folder of `share_folder`, before its first rescan -/
def fresh (name roomId : String) : Owner :=
  { entry := ⟨env.uuid 0, roomId, [⟨env.uuid 0, name, none, none⟩], [], insert ∅ "" (env.uuid 0), ∅, ∅, none, none⟩
    drawn := 1
    blobs := ∅
    added := 0 }

/-- `share_folder`, as far as the entry that it writes -/
def shareFolder (name roomId : String) (found : Found) (adds : Nat → Bool) : Option Owner :=
  match rescanLocalDir env.sha256Hex env.uuid (fresh env name roomId).entry (fresh env name roomId).drawn found with
  | (_, false) => none
  | (s, true) =>
    match republish env adds s.result { fresh env name roomId with entry := s.entry, drawn := s.drawn } with
    | (_, false) => none
    | (x, true) => some x

end Owner

end

/-! ## Publishing -/

/-- The content cid of the record was published from `data`. -/
def Published (blobs : Table String Blob) (id : String) (lastCid : Option String) (data : Bytes) : Prop :=
  ∃ cid file, lastCid = some cid ∧ blobs.get cid = some (.file file data) ∧ file.id = id

section
variable {env : Setting} {x x' : Owner} {result : RescanResult} {adds : Nat → Bool}

/-- What is published later stands beside what was published before. -/
structure Owner.Extends (env : Setting) (x x' : Owner) : Prop where
  blobs : ∀ cid b, x.blobs.get cid = some b → x'.blobs.get cid = some b
  owned : ∀ cid b, x'.blobs.get cid = some b → ∃ i < x'.added, ∃ b', cid = env.cidOf i b'

def Owner.Owned (env : Setting) (x : Owner) : Prop := ∀ cid b, x.blobs.get cid = some b → ∃ i < x.added, ∃ b', cid = env.cidOf i b'

namespace Owner

variable (hcid : ∀ i j b b', env.cidOf i b = env.cidOf j b' → i = j)
include hcid

theorem Owned.add (h : x.Owned env) (b : Blob) {x' : Owner} (hblobs : x'.blobs = x.blobs.insert (env.cidOf x.added b) b)
    (hadded : x'.added = x.added + 1) :
    x.Extends env x' ∧ x'.blobs.get (env.cidOf x.added b) = some b := by
  refine ⟨⟨fun cid b' hget => ?_, fun cid b' hget => ?_⟩, ?_⟩
  · rw [hblobs, get_insert]
    split
    · rename_i he
      obtain ⟨i, hi, b'', hi'⟩ := h cid b' hget
      exact absurd (hcid _ _ _ _ (hi'.symm.trans he)) (Nat.ne_of_lt hi)
    · exact hget
  · rw [hblobs, get_insert] at hget
    rw [hadded]
    split at hget
    · rename_i he
      exact ⟨x.added, Nat.lt_succ_self _, _, he⟩
    · obtain ⟨i, hi, hi'⟩ := h cid b' hget
      exact ⟨i, Nat.lt_succ_of_lt hi, hi'⟩
  · rw [hblobs, get_insert, if_pos rfl]

theorem publishFile_extends (h : x.Owned env) (record : FileRecord) (data : Bytes) : x.Extends env (x.publishFile env record data) ∧
      (x.publishFile env record data).blobs.get (env.cidOf x.added (.file record data)) = some (.file record data) :=
  h.add hcid _ rfl rfl

omit hcid in
theorem publishFile_find (x : Owner) (record : FileRecord) (data : Bytes) (id : String) :
    Records.find FileRecord.id id (x.publishFile env record data).entry.files =
      if id = record.id then (Records.find FileRecord.id record.id x.entry.files).map fun r =>
        { r with
          lastCid := some (env.cidOf x.added (.file record data))
          lastShareCid := some (env.cidOf x.added (.file record data)) }
      else Records.find FileRecord.id id x.entry.files := by
  refine Records.find_update ?_ id
  exact fun _ => rfl

/-- What publishing some of the files leaves: their records with the cids of what was in hand, and the others as they were. -/
structure Publishes (env : Setting) (result : RescanResult) (ids : List String) (x x' : Owner) : Prop where
  extending : x.Extends env x'
  drawn : x'.drawn = x.drawn
  same : x'.entry = { x.entry with files := x'.entry.files }
  keys : x'.entry.files.map FileRecord.id = x.entry.files.map FileRecord.id
  record : ∀ id r', Records.find FileRecord.id id x'.entry.files = some r' → ∃ r, Records.find FileRecord.id id x.entry.files = some r ∧
      r' = { r with lastCid := r'.lastCid, lastShareCid := r'.lastShareCid } ∧
      (id ∉ ids ∨ result.newFileBytes.get id = none → r'.lastCid = r.lastCid)
  published : ∀ id ∈ ids, ∀ data r', result.newFileBytes.get id = some data →
    Records.find FileRecord.id id x'.entry.files = some r' → Published x'.blobs id r'.lastCid data

theorem publishFiles_publishes : ∀ (ids : List String) (k : Nat) {x x' : Owner} {k' : Nat}, x.Owned env →
    publishFiles env adds result k ids x = (x', some k') → Publishes env result ids x x' ∧ k' ≤ k + ids.length
  | [], k, x, x', k', h, hrun => by
    cases hrun
    exact ⟨⟨⟨fun _ _ hget => hget, h⟩, rfl, rfl, rfl, fun _ r hr => ⟨r, hr, rfl, fun _ => rfl⟩,
      fun _ hid => (not_mem_nil hid).elim⟩, Nat.le_add_right _ _⟩
  | id :: ids, k, x, x', k', h, hrun => by
    unfold publishFiles at hrun
    split at hrun
    · rename_i data record hdata hrecord
      split at hrun
      · obtain ⟨hext, hself⟩ := publishFile_extends hcid h record data
        obtain ⟨hp, hk⟩ := @publishFiles_publishes ids (k + 1) (x.publishFile env record data) x' k' hext.owned hrun
        have hkey : record.id = id := Records.find_key hrecord
        have hfind := @publishFile_find env x record data
        refine ⟨⟨⟨fun cid b hget => hp.extending.blobs cid b (hext.blobs cid b hget), hp.extending.owned⟩, hp.drawn, hp.same,
          hp.keys.trans (Records.map_key_update ?_), fun n r' hr' => ?_, fun n hn data' r' hdata' hr' => ?_⟩, ?_⟩
        · exact fun _ => rfl
        · obtain ⟨r, hr, hsame, hcid'⟩ := hp.record n r' hr'
          rw [hfind n] at hr
          split at hr
          · rename_i he
            obtain ⟨r₀, hr₀, rfl⟩ := map_eq_some_iff.1 hr
            rw [he]
            refine ⟨r₀, hr₀, hsame, fun hno => ?_⟩
            rw [hkey] at hno
            rcases hno with hno | hno
            · exact absurd mem_cons_self hno
            · rw [hdata] at hno
              cases hno
          · refine ⟨r, hr, hsame, fun hno => hcid' ?_⟩
            exact hno.imp (fun hn hmem => hn (mem_cons_of_mem _ hmem)) fun hn => hn
        · by_cases hmem : n ∈ ids
          · exact hp.published n hmem data' r' hdata' hr'
          · obtain rfl := (mem_cons.1 hn).resolve_right hmem
            obtain rfl : data = data' := Option.some.inj (hdata.symm.trans hdata')
            obtain ⟨r, hr, -, hcid'⟩ := hp.record n r' hr'
            rw [hfind n, if_pos hkey.symm, hkey, hrecord] at hr
            cases hr
            exact ⟨_, record, hcid' (.inl hmem), hp.extending.blobs _ _ hself, hkey⟩
        · rw [length_cons]
          omega
      · cases hrun
    · rename_i hnone
      obtain ⟨hp, hk⟩ := publishFiles_publishes ids k h hrun
      have hmissing : ∀ r', Records.find FileRecord.id id x'.entry.files = some r' → result.newFileBytes.get id = none :=
        fun r' hr' => by
          obtain ⟨r, hr, -⟩ := hp.record id r' hr'
          cases hget : result.newFileBytes.get id with
          | none => rfl
          | some data => exact absurd hr (hnone data r hget)
      refine ⟨⟨hp.extending, hp.drawn, hp.same, hp.keys, fun n r' hr' => ?_, fun n hn data' r' hdata' hr' => ?_⟩, ?_⟩
      · obtain ⟨r, hr, hsame, hcid'⟩ := hp.record n r' hr'
        refine ⟨r, hr, hsame, fun hno => hcid' ?_⟩
        exact hno.imp (fun hn hmem => hn (mem_cons_of_mem _ hmem)) fun hn => hn
      · rcases mem_cons.1 hn with rfl | hn
        · rw [hmissing r' hr'] at hdata'
          cases hdata'
        · exact hp.published n hn data' r' hdata' hr'
      · rw [length_cons]
        omega

omit hcid in
theorem publishFiles_succeeds : ∀ (ids : List String) (k : Nat) (x : Owner), (∀ j, k ≤ j → j < k + ids.length → adds j = true) →
    ∃ x' k', publishFiles env adds result k ids x = (x', some k') ∧ k' ≤ k + ids.length
  | [], k, x, _ => ⟨x, k, rfl, le_rfl⟩
  | id :: ids, k, x, h => by
    rw [length_cons] at h ⊢
    unfold publishFiles
    split
    · rw [if_pos (h k le_rfl (by omega))]
      obtain ⟨x', k', hrun, hk⟩ := publishFiles_succeeds ids (k + 1) _ fun j hj hj' => h j (by omega) (by omega)
      exact ⟨x', k', hrun, by omega⟩
    · obtain ⟨x', k', hrun, hk⟩ := publishFiles_succeeds ids k x fun j hj hj' => h j hj (by omega)
      exact ⟨x', k', hrun, by omega⟩

/-! ## What a settled owner has published -/

/-- The records are in order, with their content published, and the last bundle has them. -/
structure Settled (env : Setting) (hashed : String → Int × Nat → Bytes → Prop) (x : Owner) : Prop where
  tracks : (x.entry.scan x.drawn).Tracks env.sha256Hex env.uuid hashed (Published x.blobs) (fun _ => True)
  bundle : ∃ cid bundle, x.entry.lastCid = some cid ∧ x.blobs.get cid = some (.folder bundle) ∧ bundle.files = x.entry.files
  owned : x.Owned env

variable {hashed : String → Int × Nat → Bytes → Prop} {here : String → Prop}

omit hcid

theorem Publishes.found {ids : List String} (h : Publishes env result ids x x') {id : String} {r : FileRecord}
    (hr : Records.find FileRecord.id id x.entry.files = some r) :
    ∃ r', Records.find FileRecord.id id x'.entry.files = some r' ∧
      r' = { r with lastCid := r'.lastCid, lastShareCid := r'.lastShareCid } ∧
      (id ∉ ids ∨ result.newFileBytes.get id = none → r'.lastCid = r.lastCid) := by
  cases hr' : Records.find FileRecord.id id x'.entry.files with
  | none =>
    rw [Records.find_eq_none, h.keys, ← Records.find_eq_none, hr] at hr'
    cases hr'
  | some r' =>
    obtain ⟨r₀, hr₀, hsame, hcid⟩ := h.record id r' hr'
    cases hr.symm.trans hr₀
    exact ⟨r', rfl, hsame, hcid⟩

theorem Publishes.tracks (h : Publishes env result result.upsertedFileIds x x')
    (htracks : Scan.Tracks env.sha256Hex env.uuid hashed (Published x.blobs) here ⟨x.entry, result, x.drawn⟩) :
    (x'.entry.scan x'.drawn).Tracks env.sha256Hex env.uuid hashed (Published x'.blobs) here := by
  have hids : x'.entry.fileIds = x.entry.fileIds := by rw [h.same]
  have hfolderIds : x'.entry.folderIds = x.entry.folderIds := by rw [h.same]
  have hstats : x'.entry.fileStats = x.entry.fileStats := by rw [h.same]
  have hfolders : x'.entry.folders = x.entry.folders := by rw [h.same]
  have hfolderId : x'.entry.folderId = x.entry.folderId := by rw [h.same]
  have hnodup : (x'.entry.files.map FileRecord.id).Nodup := h.keys ▸ htracks.nodup
  refine ⟨hnodup, fun r hr => ?_, fun p id hget => ?_, fun p id r hp hget hr => ?_, fun p q id hp hq => ?_,
    fun r hr hlive => ?_, fun p id r hget hr => ?_, fun id hid => absurd rfl hid, ?_, ?_⟩
  · obtain ⟨r₀, hr₀, -⟩ := h.record _ _ (Records.find_of_mem hnodup hr)
    obtain ⟨i, hi, hi'⟩ := htracks.drawn r₀ (Records.mem_of_find hr₀)
    exact ⟨i, h.drawn.symm ▸ hi, (Records.find_key hr₀).symm.trans hi'⟩
  · rw [hids] at hget
    obtain ⟨r, hr, hlive⟩ := htracks.indexed p id hget
    obtain ⟨r', hr', hsame, -⟩ := h.found hr
    exact ⟨r', hr', by rw [hsame]; exact hlive⟩
  · rw [hids] at hget
    obtain ⟨r₀, hr₀, hsame, -⟩ := h.record id r hr
    obtain ⟨dir, hslash, hpath, hdir⟩ := htracks.names p id r₀ hp hget hr₀
    rw [hfolderIds, hsame]
    exact ⟨dir, hslash, hpath, hdir⟩
  · rw [hids] at hp hq
    exact htracks.apart p q id hp hq
  · obtain ⟨r₀, hr₀, hsame, -⟩ := h.record _ _ (Records.find_of_mem hnodup hr)
    have hlive₀ : r₀.deletedAt = none := by
      rw [hsame] at hlive
      exact hlive
    obtain ⟨p, hp⟩ := htracks.listed r₀ (Records.mem_of_find hr₀) hlive₀
    rw [Records.find_key hr₀] at hp
    exact ⟨p, by rw [hids]; exact hp⟩
  · rw [hids] at hget
    obtain ⟨r₀, hr₀, hsame, hkeep⟩ := h.record id r hr
    obtain ⟨stat, data, hstat, hhashed, hsum, hpub⟩ := htracks.content p id r₀ hget hr₀
    refine ⟨stat, data, by rw [hstats]; exact hstat, hhashed, by rw [hsame]; exact hsum, ?_⟩
    cases hnew : result.newFileBytes.get id with
    | none =>
      simp only [hnew] at hpub
      obtain ⟨cid, file, hcid, hblob, hfile⟩ := hpub
      exact ⟨cid, file, (hkeep (.inr hnew)).trans hcid, h.extending.blobs _ _ hblob, hfile⟩
    | some data' =>
      simp only [hnew] at hpub
      subst hpub
      exact h.published id (htracks.queued id (by rw [hnew]; exact some_ne_none _)) _ r hnew hr
  · rw [hfolderIds, hfolderId]
    exact htracks.root
  · rw [hfolders, hfolderId]
    exact htracks.rootRecord

theorem Settled.extend {y : Owner} (h : x.Settled env hashed) (hentry : y.entry = x.entry) (hdrawn : x.drawn ≤ y.drawn)
    (hext : x.Extends env y) : y.Settled env hashed := by
  obtain ⟨htracks, ⟨cid, bundle, hcid, hblob, hfiles⟩, -⟩ := h
  refine ⟨?_, ⟨cid, bundle, by rw [hentry]; exact hcid, hext.blobs _ _ hblob, by rw [hentry]; exact hfiles⟩, hext.owned⟩
  rw [hentry]
  refine { htracks with drawn := fun r hr => ?_, content := fun p id r hget hr => ?_ }
  · obtain ⟨i, hi, hid⟩ := htracks.drawn r hr
    exact ⟨i, Nat.lt_of_lt_of_le hi hdrawn, hid⟩
  · obtain ⟨stat, data, hstat, hhashed, hsum, cid, file, hcid, hblob, hfile⟩ := htracks.content p id r hget hr
    exact ⟨stat, data, hstat, hhashed, hsum, cid, file, hcid, hext.blobs _ _ hblob, hfile⟩

include hcid

theorem republish_settled (howned : x.Owned env)
    (htracks : Scan.Tracks env.sha256Hex env.uuid hashed (Published x.blobs) (fun _ => True) ⟨x.entry, result, x.drawn⟩)
    (hrun : republish env adds result x = (x', true)) : x'.Settled env hashed ∧ x.Extends env x' ∧ x'.drawn = x.drawn := by
  unfold republish at hrun
  split at hrun
  · cases hrun
  · rename_i rootRecord _
    split at hrun
    · cases hrun
    · rename_i y k hfiles
      split at hrun
      · cases hrun
        obtain ⟨hp, -⟩ := publishFiles_publishes hcid _ _ howned hfiles
        obtain ⟨hext, hself⟩ := @Owned.add env y hcid hp.extending.owned (.folder (y.folderBundle rootRecord))
          (y.publishFolder env rootRecord) rfl rfl
        have hy := hp.tracks htracks
        refine ⟨⟨?_, ⟨_, _, rfl, hself, rfl⟩, hext.owned⟩,
          ⟨fun cid b hget => hext.blobs cid b (hp.extending.blobs cid b hget), hext.owned⟩, hp.drawn⟩
        refine ⟨hy.nodup, hy.drawn, hy.indexed, hy.names, hy.apart, hy.listed, fun p id r hget hr => ?_, hy.queued, hy.root,
          hy.rootRecord⟩
        obtain ⟨stat, data, hstat, hhashed, hsum, cid, file, hcid', hblob, hfile⟩ := hy.content p id r hget hr
        exact ⟨stat, data, hstat, hhashed, hsum, cid, file, hcid', hext.blobs _ _ hblob, hfile⟩
      · cases hrun

omit hcid

theorem republish_succeeds (hroot : ∃ f ∈ x.entry.folders, f.id = x.entry.folderId)
    (hadds : ∀ j ≤ result.upsertedFileIds.length, adds j = true) : (republish env adds result x).2 = true := by
  unfold republish
  split
  · rename_i hnone
    obtain ⟨f, hf, hid⟩ := hroot
    exact absurd (hid ▸ List.mem_map_of_mem hf) (Records.find_eq_none.1 hnone)
  · obtain ⟨x', k, hrun, hk⟩ := @publishFiles_succeeds env result adds result.upsertedFileIds 0 x
      fun j _ hj => hadds j (by omega)
    rw [hrun]
    dsimp only
    rw [if_pos (hadds k (by omega))]

/-! ## Ticks -/

/-- The file at `path` had this content with this time and size. -/
def Hashed (founds : List Found) (path : String) (stat : Int × Nat) (data : Bytes) : Prop :=
  ∃ found ∈ founds, ∃ w, walkSharedDir found.root = some w ∧ ∃ wf ∈ w.files, wf.relPath = path ∧ wf.stat = stat ∧ wf.data = some data

def Distinct (found : Found) : Prop := ∀ w, walkSharedDir found.root = some w → (w.files.map WalkedFile.relPath).Nodup

/-- A tick whose entry is written goes through with what it begins: where a file cannot be read, all before that file is as the
entry has it, and where all files can be read and there is something to publish, each publish succeeds. -/
structure Settles (env : Setting) (x : Owner) (t : Tick) : Prop where
  distinct : t.persisted = true → Distinct t.toFound
  reads : t.persisted = true → ∀ w, walkSharedDir t.root = some w → ∀ pre wf post, w.files = pre ++ wf :: post →
    (∀ g ∈ pre, Readable x.entry g) → ¬ Readable x.entry wf →
    FoldersSame x.entry w.dirs ∧ ∀ g ∈ pre, kept env.sha256Hex x.entry g = true
  publishes : t.persisted = true → ∀ w, walkSharedDir t.root = some w → (∀ wf ∈ w.files, Readable x.entry wf) →
    ¬ Unchanged env.sha256Hex x.entry w → ∀ j ≤ w.files.countP (fun wf => !kept env.sha256Hex x.entry wf), t.adds j = true

theorem Extends.refl (h : x.Owned env) : x.Extends env x := ⟨fun _ _ hget => hget, h⟩

theorem publishFiles_extends (hcid : ∀ i j b b', env.cidOf i b = env.cidOf j b' → i = j) :
    ∀ (ids : List String) (k : Nat) {x : Owner}, x.Owned env →
      x.Extends env (publishFiles env adds result k ids x).1 ∧ (publishFiles env adds result k ids x).1.drawn = x.drawn
  | [], _, _, h => ⟨.refl h, rfl⟩
  | id :: ids, k, x, h => by
    unfold publishFiles
    split
    · split
      · rename_i data record _ _ _
        obtain ⟨hext, -⟩ := publishFile_extends hcid h record data
        obtain ⟨hext', hdrawn⟩ := @publishFiles_extends hcid ids (k + 1) _ hext.owned
        exact ⟨⟨fun cid b hget => hext'.blobs cid b (hext.blobs cid b hget), hext'.owned⟩, hdrawn⟩
      · exact ⟨.refl h, rfl⟩
    · exact publishFiles_extends hcid ids k h

theorem republish_extends (hcid : ∀ i j b b', env.cidOf i b = env.cidOf j b' → i = j) (h : x.Owned env) :
    x.Extends env (republish env adds result x).1 ∧ (republish env adds result x).1.drawn = x.drawn := by
  unfold republish
  split
  · exact ⟨.refl h, rfl⟩
  · rename_i rootRecord _
    obtain ⟨hext, hdrawn⟩ := @publishFiles_extends env result adds hcid result.upsertedFileIds 0 x h
    split
    · rename_i y hfiles
      rw [hfiles] at hext hdrawn
      exact ⟨hext, hdrawn⟩
    · rename_i y k hfiles
      rw [hfiles] at hext hdrawn
      split
      · obtain ⟨hext', -⟩ := @Owned.add env y hcid hext.owned (.folder (y.folderBundle rootRecord))
          (y.publishFolder env rootRecord) rfl rfl
        exact ⟨⟨fun cid b hget => hext'.blobs cid b (hext.blobs cid b hget), hext'.owned⟩, hdrawn⟩
      · exact ⟨hext, hdrawn⟩

theorem rescanAndAnnounce_extends (hcid : ∀ i j b b', env.cidOf i b = env.cidOf j b' → i = j) (h : x.Owned env) (t : Tick) :
    x.Extends env (rescanAndAnnounce env x t).1 ∧ x.drawn ≤ (rescanAndAnnounce env x t).1.drawn := by
  have hdrawn := rescanLocalDir_drawn env.sha256Hex env.uuid x.entry x.drawn t.toFound
  unfold rescanAndAnnounce
  split
  · rename_i s hscan
    rw [hscan] at hdrawn
    exact ⟨⟨fun _ _ hget => hget, h⟩, hdrawn⟩
  · rename_i s hscan
    rw [hscan] at hdrawn
    split
    · exact ⟨⟨fun _ _ hget => hget, h⟩, hdrawn⟩
    · obtain ⟨hext, hsame⟩ := @republish_extends env { x with entry := s.entry, drawn := s.drawn } s.result t.adds hcid h
      split
      all_goals
        rename_i y hrun
        rw [hrun] at hext hsame
        exact ⟨⟨hext.blobs, hext.owned⟩, hdrawn.trans (Nat.le_of_eq hsame.symm)⟩

theorem Settled.scanned (h : x.Settled env hashed) {s : Scan} (hfrom : s.From x.entry)
    (htracks : s.Tracks env.sha256Hex env.uuid hashed (Published x.blobs) (fun _ => True)) (hsame : s.result.changed = false) :
    Settled env hashed { x with entry := s.entry, drawn := s.drawn } := by
  obtain ⟨cid, bundle, hcid, hblob, hfiles⟩ := h.bundle
  have hnone : ∀ id, s.result.newFileBytes.get id = none := fun id => by
    by_contra hne
    have := htracks.queued id hne
    rw [hfrom.upserted hsame] at this
    cases this
  refine ⟨{ htracks with content := fun p id r hget hr => ?_, queued := fun id hid => absurd rfl hid },
    ⟨cid, bundle, hfrom.lastCid.trans hcid, hblob, hfiles.trans (hfrom.files hsame).symm⟩, h.owned⟩
  obtain ⟨stat, data, hstat, hhashed, hsum, hpub⟩ := htracks.content p id r hget hr
  rw [hnone id] at hpub
  exact ⟨stat, data, hstat, hhashed, hsum, hpub⟩

theorem tick_settled (huuid : Function.Injective env.uuid) (hcid : ∀ i j b b', env.cidOf i b = env.cidOf j b' → i = j)
    (hsha : Collisionless env.sha256Hex hashed) (h : x.Settled env hashed) {t : Tick}
    (hread : ∀ w, walkSharedDir t.root = some w → ∀ wf ∈ w.files, ∀ data, wf.data = some data →
      hashed wf.relPath wf.stat data) (hok : Settles env x t) : (tick env x t).Settled env hashed := by
  obtain ⟨hext, hdrawn⟩ := rescanAndAnnounce_extends hcid h.owned t
  unfold tick
  cases hpersisted : t.persisted with
  | false => exact h.extend rfl hdrawn ⟨hext.blobs, hext.owned⟩
  | true =>
    cases hw : walkSharedDir t.root with
    | none =>
      unfold rescanAndAnnounce
      rw [rescanLocalDir_unwalked hw]
      exact h
    | some w =>
      obtain ⟨hdone, hfail⟩ := rescanLocalDir_input huuid hsha h.tracks hw (hread w hw) (hok.distinct hpersisted w hw)
      have hfrom := @rescanLocalDir_from env.sha256Hex env.uuid x.entry x.drawn t.toFound
      unfold rescanAndAnnounce
      split
      · rename_i s hscan
        rw [hscan] at hfail hfrom
        obtain ⟨pre, wf, post, hsplit, hpre, hwf, hres⟩ := hfail rfl
        obtain ⟨hdirs, hkept⟩ := hok.reads hpersisted w hw pre wf post hsplit hpre hwf
        obtain ⟨hsame, htracks⟩ := hres hdirs hkept
        exact h.scanned hfrom htracks hsame
      · rename_i s hscan
        have htracks := (rescanLocalDir_done huuid hsha h.tracks hw (hread w hw) (by rw [hscan])).1
        rw [hscan] at hdone hfrom htracks
        obtain ⟨hreadable, hunchanged, hlen⟩ := hdone rfl
        split
        · rename_i hsame
          exact h.scanned hfrom htracks hsame
        · rename_i hchanged
          have hadds := hok.publishes hpersisted w hw hreadable fun hno => hchanged (hunchanged hno)
          have hsucceeds := @republish_succeeds env { x with entry := s.entry, drawn := s.drawn } s.result t.adds
            htracks.rootRecord fun j hj => hadds j (hj.trans hlen)
          split
          · rename_i y hrun
            rw [hrun] at hsucceeds
            cases hsucceeds
          · rename_i y hrun
            have howned : Owned env { x with entry := s.entry, drawn := s.drawn } := h.owned
            exact (republish_settled hcid howned htracks hrun).1

theorem run_settled (huuid : Function.Injective env.uuid) (hcid : ∀ i j b b', env.cidOf i b = env.cidOf j b' → i = j)
    (hsha : Collisionless env.sha256Hex hashed) : ∀ (ticks : List Tick) {x : Owner}, x.Settled env hashed →
    (∀ t ∈ ticks, ∀ w, walkSharedDir t.root = some w → ∀ wf ∈ w.files, ∀ data, wf.data = some data → hashed wf.relPath wf.stat data) →
    (∀ pre t post, ticks = pre ++ t :: post → Settles env (run env x pre) t) → (run env x ticks).Settled env hashed
  | [], _, h, _, _ => h
  | t :: ticks, x, h, hread, hok => by
    refine run_settled huuid hcid hsha ticks (x := tick env x t)
      (tick_settled huuid hcid hsha h (hread t mem_cons_self) (hok [] t ticks rfl))
      (fun t' ht' => hread t' (mem_cons_of_mem _ ht')) fun pre t' post hsplit => ?_
    exact hok (t :: pre) t' post (by rw [hsplit]; rfl)

theorem fresh_tracks (env : Setting) (name roomId : String) (hashed : String → Int × Nat → Bytes → Prop)
    (published : String → Option String → Bytes → Prop) :
    ((fresh env name roomId).entry.scan 1).Tracks env.sha256Hex env.uuid hashed published (fun _ => True) where
  nodup := nodup_nil
  drawn := fun _ hr => (not_mem_nil hr).elim
  indexed := nofun
  names := nofun
  apart := nofun
  listed := fun _ hr => (not_mem_nil hr).elim
  content := nofun
  queued := fun _ hid => absurd rfl hid
  root := (get_insert ..).trans (if_pos rfl)
  rootRecord := ⟨_, mem_cons_self, rfl⟩

theorem shareFolder_settled (huuid : Function.Injective env.uuid)
    (hcid : ∀ i j b b', env.cidOf i b = env.cidOf j b' → i = j) (hsha : Collisionless env.sha256Hex hashed)
    {name roomId : String} {found : Found} (hstart : shareFolder env name roomId found adds = some x)
    (hread : ∀ w, walkSharedDir found.root = some w → ∀ wf ∈ w.files, ∀ data, wf.data = some data →
      hashed wf.relPath wf.stat data) : x.Settled env hashed := by
  unfold shareFolder at hstart
  split at hstart
  · cases hstart
  · rename_i s hscan
    split at hstart
    · cases hstart
    · rename_i y hrun
      cases hstart
      cases hw : walkSharedDir found.root with
      | none =>
        rw [rescanLocalDir_unwalked hw] at hscan
        cases hscan
      | some w =>
        have htracks := (rescanLocalDir_done huuid hsha (fresh_tracks env name roomId hashed (Published ∅)) hw
          (hread w hw) (by
            show (rescanLocalDir env.sha256Hex env.uuid _ (fresh env name roomId).drawn found).2 = true
            rw [hscan])).1
        rw [show (rescanLocalDir env.sha256Hex env.uuid (fresh env name roomId).entry 1 found).1 = s from
          congrArg Prod.fst hscan] at htracks
        have howned : Owned env { fresh env name roomId with entry := s.entry, drawn := s.drawn } := nofun
        exact (republish_settled hcid howned htracks hrun).1

end Owner

/-! ## The law -/

/-- The bundle has the walked file, live and with this content, under a cid that the content was published under. -/
def Lists (env : Setting) (entry : SharedFolder) (blobs : Table String Blob) (bundle : FolderBundle) (wf : WalkedFile)
    (data : Bytes) : Prop :=
  ∃ r ∈ bundle.files, r.deletedAt = none ∧ entry.fileIds.get wf.relPath = some r.id ∧ r.name = wf.name ∧
    entry.folderIds.get wf.folderRelPath = some r.folderId ∧ r.checksum = env.sha256Hex data ∧
    ∃ cid file, r.lastCid = some cid ∧ blobs.get cid = some (.file file data) ∧ file.id = r.id

/-- The last bundle has every file of the directory with the content that it has, and no other file as live. -/
def UpToDate (env : Setting) (hashed : String → Int × Nat → Bytes → Prop) (entry : SharedFolder)
    (blobs : Table String Blob) (w : Walked) : Prop :=
  ∃ cid bundle, entry.lastCid = some cid ∧ blobs.get cid = some (.folder bundle) ∧
    (∀ wf ∈ w.files, ∃ data, hashed wf.relPath wf.stat data ∧ (∀ data', wf.data = some data' → data' = data) ∧
      Lists env entry blobs bundle wf data) ∧
    ∀ r ∈ bundle.files, r.deletedAt = none → ∃ wf ∈ w.files, entry.fileIds.get wf.relPath = some r.id

section
variable {env : Setting} {x : Owner} {hashed : String → Int × Nat → Bytes → Prop}

theorem Owner.Settled.upToDate (huuid : Function.Injective env.uuid) (hsha : Collisionless env.sha256Hex hashed)
    (hstamp : ∀ p stat data data', hashed p stat data → hashed p stat data' → data = data') (h : x.Settled env hashed)
    {found : Found} {w : Walked} (hw : walkSharedDir found.root = some w) (hnd : (w.files.map WalkedFile.relPath).Nodup)
    (hread : ∀ wf ∈ w.files, ∀ data, wf.data = some data → hashed wf.relPath wf.stat data)
    (hok : (rescanLocalDir env.sha256Hex env.uuid x.entry x.drawn found).2 = true)
    (hsame : (rescanLocalDir env.sha256Hex env.uuid x.entry x.drawn found).1.result.changed = false) :
    UpToDate env hashed (rescanLocalDir env.sha256Hex env.uuid x.entry x.drawn found).1.entry x.blobs w := by
  obtain ⟨htracks, hkeys, hstats⟩ := rescanLocalDir_done huuid hsha h.tracks hw hread hok
  obtain ⟨htracks, ⟨cid, bundle, hcid, hblob, hfiles⟩, -⟩ := h.scanned rescanLocalDir_from htracks hsame
  have hplaced := walkSharedDir_placed hw
  refine ⟨cid, bundle, hcid, hblob, fun wf hwf => ?_, fun r hr hlive => ?_⟩
  · obtain ⟨id, hid⟩ := ne_none_iff_exists'.1 ((hkeys wf.relPath).2 (List.mem_map_of_mem hwf))
    obtain ⟨r, hr, hlive⟩ := htracks.indexed _ _ hid
    obtain ⟨stat, data, hstat, hhashed, hsum, cid', file, hcid', hblob', hfile⟩ := htracks.content _ _ _ hid hr
    obtain ⟨dir, hslash, hpath, hfolder⟩ := htracks.names _ _ _ trivial hid hr
    obtain ⟨rfl, hname⟩ := relPath_inj (hplaced.name wf hwf).2 hslash ((hplaced.path wf hwf).symm.trans hpath)
    obtain rfl : wf.stat = stat := Option.some.inj ((hstats hnd wf hwf).symm.trans hstat)
    have hkey := Records.find_key hr
    refine ⟨data, hhashed, fun data' hdata' => hstamp _ _ _ _ (hread wf hwf data' hdata') hhashed, r,
      hfiles ▸ Records.mem_of_find hr, hlive, hkey.symm ▸ hid, hname.symm, hfolder, hsum, cid', file, hcid', hblob',
      hfile.trans hkey.symm⟩
  · obtain ⟨p, hp⟩ := htracks.listed r (hfiles ▸ hr) hlive
    obtain ⟨wf, hwf, rfl⟩ := List.mem_map.1 ((hkeys p).1 (by rw [hp]; nofun))
    exact ⟨wf, hwf, hp⟩

end

/-- **A local change reaches the last bundle**: whenever a rescan finds nothing changed, the bundle is up to date, provided that
no tick before it ended between what it noted down and what it published. -/
theorem changed_reaches_bundle (env : Setting) (huuid : Function.Injective env.uuid)
    (hcid : ∀ i j b b', env.cidOf i b = env.cidOf j b' → i = j) (name roomId : String) (start : Found)
    (adds : Nat → Bool) (x : Owner) (hstart : Owner.shareFolder env name roomId start adds = some x) (ticks : List Tick)
    (last : Found) (hsha : Collisionless env.sha256Hex (Owner.Hashed (start :: last :: ticks.map Tick.toFound)))
    (hstamp : ∀ p stat data data', Owner.Hashed (start :: last :: ticks.map Tick.toFound) p stat data →
      Owner.Hashed (start :: last :: ticks.map Tick.toFound) p stat data' → data = data')
    (hok : ∀ pre t post, ticks = pre ++ t :: post → Owner.Settles env (Owner.run env x pre) t)
    (w : Walked) (hw : walkSharedDir last.root = some w) (hnd : (w.files.map WalkedFile.relPath).Nodup)
    (hdone : (rescanLocalDir env.sha256Hex env.uuid (Owner.run env x ticks).entry (Owner.run env x ticks).drawn last).2
      = true)
    (hsame : (rescanLocalDir env.sha256Hex env.uuid (Owner.run env x ticks).entry (Owner.run env x ticks).drawn
      last).1.result.changed = false) :
    UpToDate env (Owner.Hashed (start :: last :: ticks.map Tick.toFound))
      (rescanLocalDir env.sha256Hex env.uuid (Owner.run env x ticks).entry (Owner.run env x ticks).drawn last).1.entry
      (Owner.run env x ticks).blobs w := by
  have hsettled := Owner.shareFolder_settled huuid hcid hsha hstart
    fun v hv wf hwf data hdata => ⟨start, mem_cons_self, v, hv, wf, hwf, rfl, rfl, hdata⟩
  have hrun := Owner.run_settled huuid hcid hsha ticks hsettled
    (fun t ht v hv wf hwf data hdata => ⟨t.toFound, mem_cons_of_mem _ (mem_cons_of_mem _ (List.mem_map_of_mem ht)),
      v, hv, wf, hwf, rfl, rfl, hdata⟩) hok
  exact hrun.upToDate huuid hsha hstamp hw hnd
    (fun wf hwf data hdata => ⟨last, mem_cons_of_mem _ mem_cons_self, w, hw, wf, hwf, rfl, rfl, hdata⟩) hdone hsame

end

/-! ## One file that changes -/

def sampleListing : Listing := ⟨fun keys => keys.sort (· ≥ ·), fun _ _ => Finset.mem_sort _⟩

def sampleSetting : Setting where
  sha256Hex := sampleSha
  uuid i := String.ofList (List.replicate (i + 1) 'u')
  cidOf i _ := String.ofList (List.replicate i 'c')
  did := "did:owner"
  folderSignature _ _ _ := ""

def sampleFound (mtime : Int) (data : Bytes) : Found :=
  ⟨.cons ⟨"a", by decide⟩ (.file mtime data.length (some data)) .nil, "now", sampleListing, sampleListing⟩

def sampleTick (mtime : Int) (data : Bytes) (published : Bool) : Tick :=
  { sampleFound mtime data with adds := fun _ => published, sends := fun k => (k, true), skip := false, persisted := true }

def sampleOwner : Owner :=
  (Owner.shareFolder sampleSetting "f" "room" (sampleFound 1 [97]) (fun _ => true)).getD (Owner.fresh sampleSetting "f" "room")

theorem sampleOwner_shared : Owner.shareFolder sampleSetting "f" "room" (sampleFound 1 [97]) (fun _ => true) = some sampleOwner := by
  have hsome : (Owner.shareFolder sampleSetting "f" "room" (sampleFound 1 [97]) (fun _ => true)).isSome = true := by
    decide +kernel
  obtain ⟨x, hx⟩ := isSome_iff_exists.1 hsome
  unfold sampleOwner
  rw [hx]
  rfl

theorem replicate_injective (c : Char) : Function.Injective fun i : Nat => String.ofList (List.replicate i c) := fun i j h => by
  have hlist := congrArg (fun s => s.toList.length) h
  simpa using hlist

theorem walk_sample (mtime : Int) (data : Bytes) : walkSharedDir (sampleFound mtime data).root =
    some ⟨[⟨"", none, ""⟩], [⟨"a", "", "a", data.length, mtime, some data⟩]⟩ := rfl

theorem hashed_sample {published : Bool} {p : String} {stat : Int × Nat} {data : Bytes}
    (h : Owner.Hashed (sampleFound 1 [97] :: sampleFound 2 [98] :: [sampleTick 2 [98] published].map Tick.toFound) p stat data) :
    (stat = (1, 1) ∧ data = [97]) ∨ (stat = (2, 1) ∧ data = [98]) := by
  obtain ⟨found, hfound, w, hw, wf, hwf, -, hstat, hdata⟩ := h
  rcases mem_cons.1 hfound with rfl | hfound
  · cases hw
    obtain rfl := mem_singleton.1 hwf
    exact .inl ⟨hstat.symm, (Option.some.inj hdata).symm⟩
  · obtain rfl : found = sampleFound 2 [98] := by
      rcases mem_cons.1 hfound with rfl | hfound
      · rfl
      · exact mem_singleton.1 hfound
    cases hw
    obtain rfl := mem_singleton.1 hwf
    exact .inr ⟨hstat.symm, (Option.some.inj hdata).symm⟩

theorem collisionless_sample (published : Bool) : Collisionless sampleSetting.sha256Hex
    (Owner.Hashed (sampleFound 1 [97] :: sampleFound 2 [98] :: [sampleTick 2 [98] published].map Tick.toFound)) :=
  fun p stat data p' stat' data' h h' hsum => by
    rcases hashed_sample h with ⟨-, rfl⟩ | ⟨-, rfl⟩ <;> rcases hashed_sample h' with ⟨-, rfl⟩ | ⟨-, rfl⟩
    · rfl
    · exact absurd hsum (by decide)
    · exact absurd hsum (by decide)
    · rfl

theorem stamped_sample (published : Bool) : ∀ p stat data data',
    Owner.Hashed (sampleFound 1 [97] :: sampleFound 2 [98] :: [sampleTick 2 [98] published].map Tick.toFound) p stat data →
    Owner.Hashed (sampleFound 1 [97] :: sampleFound 2 [98] :: [sampleTick 2 [98] published].map Tick.toFound) p stat data' →
    data = data' := fun p stat data data' h h' => by
  rcases hashed_sample h with ⟨hs, rfl⟩ | ⟨hs, rfl⟩ <;> rcases hashed_sample h' with ⟨hs', rfl⟩ | ⟨hs', rfl⟩
  · rfl
  · cases hs.symm.trans hs'
  · cases hs.symm.trans hs'
  · rfl

theorem changed_reaches_bundle_sample : UpToDate sampleSetting
      (Owner.Hashed (sampleFound 1 [97] :: sampleFound 2 [98] :: [sampleTick 2 [98] true].map Tick.toFound))
      (rescanLocalDir sampleSetting.sha256Hex sampleSetting.uuid
        (Owner.run sampleSetting sampleOwner [sampleTick 2 [98] true]).entry
        (Owner.run sampleSetting sampleOwner [sampleTick 2 [98] true]).drawn (sampleFound 2 [98])).1.entry
      (Owner.run sampleSetting sampleOwner [sampleTick 2 [98] true]).blobs
      ⟨[⟨"", none, ""⟩], [⟨"a", "", "a", 1, 2, some [98]⟩]⟩ := by
  refine changed_reaches_bundle sampleSetting ((replicate_injective 'u').comp Nat.succ_injective) (fun i j _ _ h => replicate_injective 'c' h) "f" "room"
    (sampleFound 1 [97]) (fun _ => true) sampleOwner sampleOwner_shared [sampleTick 2 [98] true] (sampleFound 2 [98])
    (collisionless_sample true) (stamped_sample true) (fun pre t post hsplit => ?_) _ (walk_sample 2 [98])
    (nodup_singleton _) (by decide +kernel) (by decide +kernel)
  obtain rfl : t = sampleTick 2 [98] true := by
    have hmem : t ∈ [sampleTick 2 [98] true] := hsplit ▸ mem_append_right _ mem_cons_self
    exact mem_singleton.1 hmem
  refine ⟨fun _ w hw => ?_, fun _ w hw pre wf post hfiles _ hno => ?_, fun _ w hw _ _ _ _ => rfl⟩
  · cases (walk_sample 2 [98]).symm.trans hw
    exact nodup_singleton _
  · cases (walk_sample 2 [98]).symm.trans hw
    have hmem : wf ∈ pre ++ wf :: post := mem_append_right _ mem_cons_self
    rw [← hfiles] at hmem
    obtain rfl := mem_singleton.1 hmem
    exact absurd (.inr nofun) hno

/-- **A publish that fails hides the change**: the next rescan finds nothing changed, and the last bundle has the file with the
content that it had before. -/
theorem failed_publish_hides_change :
    ¬ ∀ (env : Setting), Function.Injective env.uuid → (∀ i j b b', env.cidOf i b = env.cidOf j b' → i = j) →
      ∀ (name roomId : String) (start : Found) (adds : Nat → Bool) (x : Owner),
      Owner.shareFolder env name roomId start adds = some x → ∀ (ticks : List Tick) (last : Found),
      Collisionless env.sha256Hex (Owner.Hashed (start :: last :: ticks.map Tick.toFound)) →
      (∀ p stat data data', Owner.Hashed (start :: last :: ticks.map Tick.toFound) p stat data →
        Owner.Hashed (start :: last :: ticks.map Tick.toFound) p stat data' → data = data') →
      ∀ w, walkSharedDir last.root = some w → (w.files.map WalkedFile.relPath).Nodup →
      (rescanLocalDir env.sha256Hex env.uuid (Owner.run env x ticks).entry (Owner.run env x ticks).drawn last).2 = true →
      (rescanLocalDir env.sha256Hex env.uuid (Owner.run env x ticks).entry (Owner.run env x ticks).drawn
        last).1.result.changed = false →
      UpToDate env (Owner.Hashed (start :: last :: ticks.map Tick.toFound))
        (rescanLocalDir env.sha256Hex env.uuid (Owner.run env x ticks).entry (Owner.run env x ticks).drawn last).1.entry
        (Owner.run env x ticks).blobs w := by
  intro h
  obtain ⟨cid, bundle, hcid, hblob, hall, -⟩ := h sampleSetting ((replicate_injective 'u').comp Nat.succ_injective)
    (fun i j _ _ h => replicate_injective 'c' h) "f" "room" (sampleFound 1 [97]) (fun _ => true) sampleOwner
    sampleOwner_shared [sampleTick 2 [98] false] (sampleFound 2 [98]) (collisionless_sample false) (stamped_sample false) _
    (walk_sample 2 [98]) (nodup_singleton _) (by decide +kernel) (by decide +kernel)
  obtain ⟨data, -, hdata, r, hr, -, -, -, -, hsum, -⟩ := hall _ mem_cons_self
  obtain rfl := hdata [98] rfl
  -- the bundle is the one that the folder was shared with
  have hlast : ((rescanLocalDir sampleSetting.sha256Hex sampleSetting.uuid
      (Owner.run sampleSetting sampleOwner [sampleTick 2 [98] false]).entry
      (Owner.run sampleSetting sampleOwner [sampleTick 2 [98] false]).drawn (sampleFound 2 [98])).1.entry.lastCid.bind
        (Owner.run sampleSetting sampleOwner [sampleTick 2 [98] false]).blobs.get).all
      (fun b => match b with
        | .folder bundle => bundle.files.all fun r => r.checksum ≠ sumB
        | .file .. => false) = true := by decide +kernel
  rw [hcid, bind_some, hblob] at hlast
  have hno := List.all_eq_true.1 hlast r hr
  rw [hsum] at hno
  exact absurd hno (by decide)

end Mistl.Folder
