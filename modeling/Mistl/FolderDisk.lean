import Mistl.FolderPaths
/-!
# FolderDisk — the directory that a folder is mirrored into

What `tokio::fs` and `std::fs` do below the root of a jail, as the sync uses them: a directory tree as the table of its nodes,
with the outcome of each call, where the tree itself does not decide it, up to the file system.
-/
open Mistl.Table Option

namespace Mistl.Folder

abbrev Bytes := List UInt8

inductive Node where
  | dir
  | file (data : Bytes)
  deriving DecidableEq

/-- What lies below the root. -/
abbrev Disk := Table Path Node

/-- What becomes of a write: a failed one may have left something in the file. -/
inductive Wrote where
  | done
  | failed (left : Option Bytes)

/-- The content store and the file system: `fetch_file_content` by cid and folder key, and whether the calls succeed. -/
structure Io where
  fetch : String → String → Option Bytes
  mkdir : Path → Bool
  write : Path → Wrote
  remove : Path → Bool

namespace Disk

def parents (path : Path) : List Path := path.dropLast.inits.tail

/-- One directory of `create_dir_all`. -/
def createDir (disk : Disk) (path : Path) : Option Disk :=
  match disk.get path with
  | none => some (disk.insert path .dir)
  | some .dir => some disk
  | some (.file _) => none

/-- `create_dir_all` of the directory of `path`, and `write` -/
def store (io : Io) (disk : Disk) (path : Path) (data : Bytes) : Disk × Bool :=
  if io.mkdir path = false then (disk, false)
  else match (parents path).foldlM createDir disk with
    | none => (disk, false)
    | some disk =>
      if disk.get path = some .dir then (disk, false)
      else match io.write path with
        | .done => (disk.insert path (.file data), true)
        | .failed none => (disk, false)
        | .failed (some left) => (disk.insert path (.file left), false)

/-- What a `Sandbox::remove` that succeeds leaves. -/
def erasePath (disk : Disk) (path : Path) : Disk :=
  match disk.get path with
  | none => disk
  | some (.file _) => disk.erase path
  | some .dir => disk.filter fun q _ => !path.isPrefixOf q

def remove (io : Io) (disk : Disk) (name : String) : Disk :=
  match resolve name with
  | none => disk
  | some path => if io.remove path then disk.erasePath path else disk

/-! ## What the calls leave -/

def Grows (disk disk' : Disk) : Prop := ∀ path node, disk.get path = some node → disk'.get path = some node

variable {path : Path}

theorem createDir_grows {disk disk' : Disk} (h : disk.createDir path = some disk') : disk.Grows disk' := by
  unfold createDir at h
  split at h
  · rename_i hnone
    cases h
    intro q node hq
    rw [get_insert_ne (fun heq => ?_), hq]
    rw [heq, hnone] at hq
    cases hq
  · cases h
    exact fun q node hq => hq
  · cases h

theorem createDir_new {disk disk' : Disk} {path q : Path} (h : disk.createDir path = some disk') (hq : q ≠ path) :
    disk'.get q = disk.get q := by
  unfold createDir at h
  split at h
  · cases h
    exact get_insert_ne hq ..
  · cases h
    rfl
  · cases h

theorem createDirs_grows : ∀ {dirs : List Path} {disk disk' : Disk}, dirs.foldlM createDir disk = some disk' → disk.Grows disk'
  | [], disk, disk', h => by
    cases h
    exact fun q node hq => hq
  | dir :: dirs, disk, disk', h => by
    obtain ⟨mid, hmid, hrest⟩ := bind_eq_some_iff.1 h
    exact fun q node hq => createDirs_grows hrest q node (createDir_grows hmid q node hq)

theorem createDirs_new : ∀ {dirs : List Path} {disk disk' : Disk} {q : Path}, dirs.foldlM createDir disk = some disk' →
    q ∉ dirs → disk'.get q = disk.get q
  | [], disk, disk', q, h, _ => by
    cases h
    rfl
  | dir :: dirs, disk, disk', q, h, hq => by
    obtain ⟨mid, hmid, hrest⟩ := bind_eq_some_iff.1 h
    rw [List.mem_cons, not_or] at hq
    rw [createDirs_new hrest hq.2, createDir_new hmid hq.1]

theorem store_done {io : Io} {disk : Disk} {data : Bytes} (h : (disk.store io path data).2 = true) :
    ((disk.store io path data).1.get path = some (.file data)) ∧
      (∀ q, q ≠ path → q ∉ parents path → (disk.store io path data).1.get q = disk.get q) ∧
      ∀ q node, q ≠ path → disk.get q = some node → (disk.store io path data).1.get q = some node := by
  unfold store at h ⊢
  split
  · rename_i hmkdir
    rw [if_pos hmkdir] at h
    cases h
  · rename_i hmkdir
    rw [if_neg hmkdir] at h
    cases hdirs : (parents path).foldlM createDir disk with
    | none =>
      rw [hdirs] at h
      cases h
    | some mid =>
      rw [hdirs] at h
      dsimp only at h ⊢
      split
      · rename_i hdir
        rw [if_pos hdir] at h
        cases h
      · rename_i hdir
        rw [if_neg hdir] at h
        cases hwrite : io.write path with
        | done =>
          refine ⟨get_insert_self .., fun q hq hnew => ?_, fun q node hq hnode => ?_⟩
          · rw [get_insert_ne hq, createDirs_new hdirs hnew]
          · rw [get_insert_ne hq, createDirs_grows hdirs q node hnode]
        | failed left =>
          rw [hwrite] at h
          cases left <;> cases h

theorem store_keeps (io : Io) (disk : Disk) (path : Path) (data : Bytes) {q : Path} {node : Node} (hq : q ≠ path)
    (hnode : disk.get q = some node) : (disk.store io path data).1.get q = some node := by
  unfold store
  split
  · exact hnode
  · cases hdirs : (parents path).foldlM createDir disk with
    | none => exact hnode
    | some mid =>
      have hmid : mid.get q = some node := createDirs_grows hdirs q node hnode
      dsimp only
      split
      · exact hmid
      · cases io.write path with
        | done => exact (get_insert_ne hq ..).trans hmid
        | failed left =>
          cases left with
          | none => exact hmid
          | some left => exact (get_insert_ne hq ..).trans hmid

theorem erasePath_get {disk : Disk} (h : disk.get path ≠ some .dir) (q : Path) :
    (disk.erasePath path).get q = if q = path then none else disk.get q := by
  unfold erasePath
  cases hnode : disk.get path with
  | none =>
    dsimp only
    split
    · rename_i hq
      rw [hq, hnode]
    · rfl
  | some node =>
    cases node with
    | dir => exact absurd hnode h
    | file data => exact get_erase ..

end Disk

end Mistl.Folder
