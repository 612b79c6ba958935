import Mistl.FolderDisk
/-!
# FolderWalk — the walk over a shared directory

`walk_shared_dir` of `storage/folder_owner.rs` on the tree of a directory: what stands in it, what of it cannot be read, and the
modification time, size and content of each file are the file system's.
-/
open List

namespace Mistl.Folder

/-! ## The directory -/

/-- A name in a directory. -/
abbrev FileName := { name : String // name ≠ "" ∧ '/' ∉ name.toList }

mutual
/-- What stands under a name: a file, which may not be readable, a directory, what the walk skips, and what it cannot stat. -/
inductive Tree where
  | file (mtimeMillis : Int) (size : Nat) (data : Option Bytes)
  | dir (entries : Forest)
  | skipped
  | unknown
inductive Forest where
  | unreadable
  | nil
  | cons (name : FileName) (tree : Tree) (rest : Forest)
end

structure WalkedDir where
  relPath : String
  parentRelPath : Option String
  name : String

/-- `WalkedFile`; `data` is what reading its `abs_path` gives. -/
structure WalkedFile where
  relPath : String
  folderRelPath : String
  name : String
  size : Nat
  mtimeMillis : Int
  data : Option Bytes

structure Walked where
  dirs : List WalkedDir
  files : List WalkedFile

def relPath (currentRel name : String) : String := if currentRel = "" then name else currentRel ++ "/" ++ name

mutual
/-- One turn of the loop of `walk_recursive`. -/
def walkEntry (currentRel : String) (name : FileName) : Tree → Walked → Option Walked
  | .skipped, w => some w
  | .unknown, _ => none
  | .dir entries, w =>
    walkRecursive (relPath currentRel name.1) entries
      { w with dirs := w.dirs ++ [⟨relPath currentRel name.1, some currentRel, name.1⟩] }
  | .file mtimeMillis size data, w =>
    some { w with files := w.files ++ [⟨relPath currentRel name.1, currentRel, name.1, size, mtimeMillis, data⟩] }
def walkRecursive (currentRel : String) : Forest → Walked → Option Walked
  | .unreadable, _ => none
  | .nil, w => some w
  | .cons name tree rest, w => (walkEntry currentRel name tree w).bind (walkRecursive currentRel rest)
end

def walkSharedDir (root : Forest) : Option Walked := walkRecursive "" root ⟨[⟨"", none, ""⟩], []⟩

/-- Every file is walked under its own path, in a directory that is walked. -/
structure Walked.Placed (w : Walked) : Prop where
  path : ∀ f ∈ w.files, f.relPath = relPath f.folderRelPath f.name
  name : ∀ f ∈ w.files, f.name ≠ "" ∧ '/' ∉ f.name.toList
  folder : ∀ f ∈ w.files, ∃ d ∈ w.dirs, d.relPath = f.folderRelPath

theorem Walked.Placed.addDir {w : Walked} (h : w.Placed) (dir : WalkedDir) : Walked.Placed { w with dirs := w.dirs ++ [dir] } :=
  ⟨h.path, h.name, fun f hf => by
    obtain ⟨d, hd, hrel⟩ := h.folder f hf
    exact ⟨d, mem_append_left _ hd, hrel⟩⟩

theorem Walked.Placed.addFile {w : Walked} (h : w.Placed) {file : WalkedFile}
    (hpath : file.relPath = relPath file.folderRelPath file.name) (hname : file.name ≠ "" ∧ '/' ∉ file.name.toList)
    (hdir : ∃ d ∈ w.dirs, d.relPath = file.folderRelPath) : Walked.Placed { w with files := w.files ++ [file] } := by
  refine ⟨fun f hf => ?_, fun f hf => ?_, fun f hf => ?_⟩ <;> rcases mem_append.1 hf with hf | hf
  · exact h.path f hf
  · exact mem_singleton.1 hf ▸ hpath
  · exact h.name f hf
  · exact mem_singleton.1 hf ▸ hname
  · exact h.folder f hf
  · exact mem_singleton.1 hf ▸ hdir

mutual
theorem walkEntry_placed {currentRel : String} {name : FileName} : ∀ {tree : Tree} {w w' : Walked}, w.Placed →
    (∃ d ∈ w.dirs, d.relPath = currentRel) → walkEntry currentRel name tree w = some w' →
    w'.Placed ∧ ∀ d ∈ w.dirs, d ∈ w'.dirs
  | .skipped, _, _, hw, _, h => by
    cases h
    exact ⟨hw, fun _ hd => hd⟩
  | .unknown, _, _, _, _, h => by cases h
  | .file .., _, _, hw, hdir, h => by
    cases h
    exact ⟨hw.addFile rfl name.2 hdir, fun _ hd => hd⟩
  | .dir entries, w, w', hw, _, h => by
    have hself : ∃ d ∈ w.dirs ++ [⟨relPath currentRel name.1, some currentRel, name.1⟩],
        d.relPath = relPath currentRel name.1 := ⟨_, mem_append_right _ mem_cons_self, rfl⟩
    obtain ⟨hw', hsub⟩ := walkRecursive_placed (hw.addDir _) hself h
    exact ⟨hw', fun d hd => hsub d (mem_append_left _ hd)⟩
theorem walkRecursive_placed {currentRel : String} : ∀ {entries : Forest} {w w' : Walked}, w.Placed →
    (∃ d ∈ w.dirs, d.relPath = currentRel) → walkRecursive currentRel entries w = some w' →
    w'.Placed ∧ ∀ d ∈ w.dirs, d ∈ w'.dirs
  | .unreadable, _, _, _, _, h => by cases h
  | .nil, _, _, hw, _, h => by
    cases h
    exact ⟨hw, fun _ hd => hd⟩
  | .cons name tree rest, w, w', hw, hdir, h => by
    obtain ⟨w₁, h1, h2⟩ := Option.bind_eq_some_iff.1 h
    obtain ⟨hw₁, hsub₁⟩ := walkEntry_placed hw hdir h1
    obtain ⟨d, hd, hrel⟩ := hdir
    obtain ⟨hw', hsub⟩ := walkRecursive_placed hw₁ ⟨d, hsub₁ d hd, hrel⟩ h2
    exact ⟨hw', fun d hd => hsub d (hsub₁ d hd)⟩
end

theorem walkSharedDir_placed {root : Forest} {w : Walked} (h : walkSharedDir root = some w) : w.Placed := by
  have hnone : Walked.Placed ⟨[⟨"", none, ""⟩], []⟩ := ⟨fun _ hf => (not_mem_nil hf).elim, fun _ hf => (not_mem_nil hf).elim,
      fun _ hf => (not_mem_nil hf).elim⟩
  have hroot : ∃ d ∈ (⟨[⟨"", none, ""⟩], []⟩ : Walked).dirs, d.relPath = "" := ⟨_, mem_cons_self, rfl⟩
  exact (walkRecursive_placed hnone hroot h).1

theorem relPath_toList {dir name : String} (hdir : dir ≠ "") : (relPath dir name).toList = dir.toList ++ '/' :: name.toList := by
  rw [relPath, if_neg hdir, String.toList_append, String.toList_append, append_assoc]
  rfl

theorem relPath_inj {dir dir' name name' : String} (hname : '/' ∉ name.toList) (hname' : '/' ∉ name'.toList)
    (h : relPath dir name = relPath dir' name') : dir = dir' ∧ name = name' := by
  by_cases hdir : dir = "" <;> by_cases hdir' : dir' = ""
  · subst hdir hdir'
    exact ⟨rfl, h⟩
  · have heq : name.toList = dir'.toList ++ '/' :: name'.toList := by rw [← relPath_toList hdir', ← h, relPath, if_pos hdir]
    exact absurd (heq ▸ mem_append_right _ mem_cons_self) hname
  · have heq : name'.toList = dir.toList ++ '/' :: name.toList := by rw [← relPath_toList hdir, h, relPath, if_pos hdir']
    exact absurd (heq ▸ mem_append_right _ mem_cons_self) hname'
  · have heq : dir.toList ++ '/' :: name.toList = dir'.toList ++ '/' :: name'.toList := by
      rw [← relPath_toList hdir, ← relPath_toList hdir', h]
    have hsplit := splitLast_append hname dir.toList
    rw [heq, splitLast_append hname' dir'.toList] at hsplit
    obtain ⟨h1, h2⟩ := Prod.mk.inj (Option.some.inj hsplit)
    exact ⟨String.toList_inj.1 h1.symm, String.toList_inj.1 h2.symm⟩

end Mistl.Folder
