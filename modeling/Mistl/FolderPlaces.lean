import Mistl.FolderJail
import Mistl.Lib.Runs
/-!
# FolderPlaces — the directory of a registered sync

`register_sync` and `stop_sync` of `storage/folder_sync.rs`, for syncs without a directory of the user's: a
registration chooses a directory against the table it has read, and is put into the table as it is by then.
-/
open List

namespace Mistl.Folder
namespace Places

/-! ## Choosing a directory -/

def collisionSuffixLen : Nat := 8

/-- What a `SyncEntry` says of its folder and its directory. -/
structure SyncEntry where
  folderId : String
  folderName : String
  localDir : Path
  deriving DecidableEq

def sandboxRelativeDir (localDir sandboxRoot : Path) : Option String := if sandboxRoot.isPrefixOf localDir then
    let rel := localDir.drop sandboxRoot.length
    if rel = [] then none else some (String.ofList (("/".intercalate rel).toList.map (fun c => if c = '\\' then '/' else c)))
  else none

def collides (folderName folderId : String) (existing : List SyncEntry) (sandboxRoot : Path) : Bool :=
  existing.any (fun e => e.folderId ≠ folderId && sandboxRelativeDir e.localDir sandboxRoot == some (sanitizeName folderName))

def suffixedName (folderName folderId : String) : String :=
  sanitizeName folderName ++ "-" ++ String.ofList (folderId.toList.take collisionSuffixLen)

def sandboxDirNameFor (folderName folderId : String) (existing : List SyncEntry) (sandboxRoot : Path) : String :=
  if collides folderName folderId existing sandboxRoot then suffixedName folderName folderId else sanitizeName folderName

/-- The components that `absolute` keeps of a name: not the empty ones, and no single dots. -/
def components (dirName : String) : Path :=
  ((dirName.toList.splitOn '/').filter (fun part => part ≠ [] ∧ part ≠ ['.'])).map String.ofList

/-- The root that `Sandbox::new` makes of a name joined to a path. -/
def sandboxNew (sandboxRoot : Path) (dirName : String) : Path := sandboxRoot ++ components dirName

/-! ## Registering and stopping -/

structure Registration where
  folderId : String
  folderName : String
  existing : List SyncEntry

def Registration.localDir (sandboxRoot : Path) (r : Registration) : Path :=
  sandboxNew sandboxRoot (sandboxDirNameFor r.folderName r.folderId r.existing sandboxRoot)

/-- The persisted table, and the registrations under way. -/
structure State where
  entries : List SyncEntry
  underway : List Registration

inductive Act where
  | read (folderId folderName : String)
  | persist (i : Nat)
  | fail (i : Nat)
  | stop (folderId : String)

section

variable (sandboxRoot : Path)

def State.step (s : State) : Act → Option State
  -- `read_entries`, up to the choice of the directory
  | .read folderId folderName =>
    if s.entries.any (fun e => e.folderId == folderId) then some s
    else some { s with underway := s.underway ++ [⟨folderId, folderName, s.entries⟩] }
  -- `with_entries`, under the lock
  | .persist i => (s.underway[i]?).map (fun r =>
    { entries := if s.entries.any (fun e => e.folderId == r.folderId) then s.entries
        else s.entries ++ [⟨r.folderId, r.folderName, r.localDir sandboxRoot⟩]
      underway := s.underway.eraseIdx i })
  | .fail i => some { s with underway := s.underway.eraseIdx i }
  -- `stop_sync`
  | .stop folderId => some { s with entries := s.entries.eraseP (fun e => e.folderId == folderId) }

abbrev run : State → List Act → Option State := Runs.run (State.step sandboxRoot)

/-! ## What the syncs are called -/

/-- What a sync is called: by the name of its folder, or by that and the first characters of its id. -/
def SyncEntry.called (e : SyncEntry) : String :=
  if e.localDir = sandboxRoot ++ [sanitizeName e.folderName] then sanitizeName e.folderName
  else suffixedName e.folderName e.folderId

/-- Of two names that differ in empty components and single dots only. -/
def alike (a b : String) : Bool := decide (components a = components b)

/-- A sync of the table that was read is called like the folder. -/
def Registration.taken (r : Registration) : Bool := r.existing.any (fun e => alike (e.called sandboxRoot) (sanitizeName r.folderName))

/-- Where the name of a new folder was taken, no sync is called like it with the suffix; where it was not, none that came since the
table was read is called like it. -/
def apart (s : State) : Act → Bool
  | .persist i => (s.underway[i]?).all (fun r =>
    if s.entries.any (fun e => e.folderId == r.folderId) then true
    else if r.taken sandboxRoot then
      s.entries.all (fun e => !alike (e.called sandboxRoot) (suffixedName r.folderName r.folderId))
    else s.entries.all (fun e => decide (e ∈ r.existing) || !alike (e.called sandboxRoot) (sanitizeName r.folderName)))
  | _ => true

end

def init : State := ⟨[], []⟩

def Owned (s : State) : Prop := (s.entries.map SyncEntry.localDir).Nodup

variable {sandboxRoot : Path} {s s' : State}

/-- The directory of a sync is what it is called. -/
def SyncEntry.Lodged (sandboxRoot : Path) (e : SyncEntry) : Prop := e.localDir = sandboxNew sandboxRoot (e.called sandboxRoot)

/-- Every sync is lodged, now and in the tables that were read, and none of these has the folder that is to be registered. -/
structure Kept (sandboxRoot : Path) (s : State) : Prop where
  entries : ∀ e ∈ s.entries, e.Lodged sandboxRoot
  existing : ∀ r ∈ s.underway, ∀ e ∈ r.existing, e.Lodged sandboxRoot ∧ e.folderId ≠ r.folderId

variable {r : Registration}

theorem persist_cases {i : Nat} (h : s.step sandboxRoot (.persist i) = some s') : ∃ r, s.underway[i]? = some r ∧
    s'.underway = s.underway.eraseIdx i ∧
    (s'.entries = s.entries ∧ s.entries.any (fun e => e.folderId == r.folderId) = true ∨
      s.entries.any (fun e => e.folderId == r.folderId) = false ∧
      s'.entries = s.entries ++ [⟨r.folderId, r.folderName, r.localDir sandboxRoot⟩]) := by
  obtain ⟨r, hr, rfl⟩ := Option.map_eq_some_iff.1 h
  refine ⟨r, hr, rfl, ?_⟩
  split
  · rename_i hknown
    exact .inl ⟨rfl, hknown⟩
  · rename_i hnew
    exact .inr ⟨Bool.eq_false_iff.2 hnew, rfl⟩

end Places
end Mistl.Folder
