import Mistl.AuthzPersist
import Mathlib.Data.List.DropRight
/-!
# FolderPaths — where a shared file lies

Names and paths of `storage/folder_share.rs`, `storage/folder_sync.rs` and `storage/sandbox.rs`, with the path rules of Unix.
A target path never leaves the jail: it resolves to the sanitized names that it was joined from.
-/
open List

namespace Mistl.Folder

open Authz (isWhitespace)

structure FolderRecord where
  id : String
  name : String
  parentId : Option String
  deletedAt : Option String

structure FileRecord where
  id : String
  folderId : String
  name : String
  checksum : String
  lastCid : Option String
  lastShareCid : Option String
  deletedAt : Option String
  deriving DecidableEq

structure FolderBundle where
  folder : FolderRecord
  folders : Option (List FolderRecord)
  files : List FileRecord

/-! ## Names -/

def isControl (c : Char) : Bool := decide (c.toNat < 32) || (decide (127 ≤ c.toNat) && decide (c.toNat < 160))

def trim (cs : List Char) : List Char := (cs.dropWhile isWhitespace).rdropWhile isWhitespace

def isReservedDeviceName (stem : List Char) : Bool :=
  let upper := stem.map Char.toUpper
  decide (upper ∈ ["CON".toList, "PRN".toList, "AUX".toList, "NUL".toList]) ||
    ("COM".toList.isPrefixOf upper || "LPT".toList.isPrefixOf upper) && decide (upper.length = 4) &&
      (upper.drop 3).all fun c => c.isDigit && c ≠ '0'

/-- What `sanitize_name` replaces by `_`. -/
def isForbidden (c : Char) : Bool := isControl c || decide (c ∈ "/\\:<>\"|?*".toList)

def sanitizeName (name : String) : String :=
  let replaced := (trim name.toList).map (fun c => if isForbidden c then '_' else c)
  let trimmed := replaced.rdropWhile (fun c => c = '.' || c = ' ')
  if trimmed = [] then "_"
  else if isReservedDeviceName ((trimmed.takeWhile (· ≠ '.')).rdropWhile isWhitespace) then String.ofList ('_' :: trimmed)
  else String.ofList trimmed

structure Component (cs : List Char) : Prop where
  nonempty : cs ≠ []
  notCur : cs ≠ ['.']
  notParent : cs ≠ ['.', '.']
  noSlash : '/' ∉ cs
  visible : ∃ c ∈ cs, isWhitespace c = false

theorem replaced_noSlash (cs : List Char) : '/' ∉ cs.map (fun c => if isForbidden c then '_' else c) := fun h => by
  obtain ⟨c, -, hc⟩ := mem_map.1 h
  split at hc
  · cases hc
  · rename_i hf
    subst hc
    exact hf (by decide)

variable {cs : List Char}

theorem dropWhile_visible {p : Char → Bool} {c : Char} (h : (cs.dropWhile p).head? = some c) : p c = false := by
  have hhead := head?_dropWhile_not p cs
  rw [h] at hhead
  exact hhead

theorem head_rdropWhile {p : Char → Bool} (h : cs.rdropWhile p ≠ []) : (cs.rdropWhile p).head? = cs.head? := by
  obtain ⟨t, ht⟩ := rdropWhile_prefix p cs
  calc (cs.rdropWhile p).head? = (cs.rdropWhile p ++ t).head? := (head?_append_of_ne_nil _ h).symm
    _ = cs.head? := by rw [ht]

theorem replaced_visible {c : Char}
    (h : ((trim cs).map (fun c => if isForbidden c then '_' else c)).head? = some c) : isWhitespace c = false := by
  rw [head?_map] at h
  obtain ⟨b, hb, hbc⟩ := Option.map_eq_some_iff.1 h
  have hne : trim cs ≠ [] := fun hnil => by
    rw [hnil] at hb
    cases hb
  have hvisible : isWhitespace b = false := dropWhile_visible ((head_rdropWhile hne).symm.trans hb)
  rw [← hbc]
  split
  · decide
  · exact hvisible

theorem component_of_last (hne : cs ≠ []) (hlast : ¬ (cs.getLast hne = '.'))
    (hslash : '/' ∉ cs) (hvisible : ∃ c ∈ cs, isWhitespace c = false) : Component cs := by
  refine ⟨hne, fun h => ?_, fun h => ?_, hslash, hvisible⟩
  · subst h
    exact hlast rfl
  · subst h
    exact hlast rfl

theorem sanitizeName_component (name : String) : Component (sanitizeName name).toList := by
  unfold sanitizeName
  dsimp only
  generalize hrep : (trim name.toList).map (fun c => if isForbidden c then '_' else c) = replaced
  have hslash : '/' ∉ replaced := by
    rw [← hrep]
    exact replaced_noSlash _
  have hhead : ∀ c, replaced.head? = some c → isWhitespace c = false := fun c hc => by
    rw [← hrep] at hc
    exact replaced_visible hc
  split
  · exact ⟨by decide, by decide, by decide, by decide, ⟨'_', by decide, by decide⟩⟩
  · rename_i hne
    have hsub : '/' ∉ replaced.rdropWhile (fun c => c = '.' || c = ' ') := fun h => hslash (( rdropWhile_prefix _ _).subset h)
    have hlast := rdropWhile_last_not _ _ hne
    have hdot : ¬ (replaced.rdropWhile (fun c => c = '.' || c = ' ')).getLast hne = '.' := fun h => by
      rw [h] at hlast
      exact hlast rfl
    split
    · rw [String.toList_ofList]
      refine component_of_last (cons_ne_nil _ _) ?_ ?_ ⟨'_', mem_cons_self, by decide⟩
      · rwa [getLast_cons hne]
      · rw [mem_cons, not_or]
        exact ⟨by decide, hsub⟩
    · rw [String.toList_ofList]
      refine component_of_last hne hdot hsub ⟨_, head_mem hne, hhead _ ?_⟩
      rw [← head_rdropWhile hne, head?_eq_some_head hne]

/-! ## Folders -/

/-- Whether a `deletedAt` says that something is gone. -/
def isDeleted (deletedAt : Option String) : Bool := deletedAt.any fun s => s ≠ ""

def folderDeleted (folder : FolderRecord) : Bool := isDeleted folder.deletedAt

def fileDeleted (file : FileRecord) : Bool := isDeleted file.deletedAt

/-- The loop of `folder_path_parts`. -/
def pathLoop (folders : Table String FolderRecord) : Nat → List String → String → List String → List String
  | 0, _, _, parts => parts
  | fuel + 1, visited, current, parts =>
    if current = "" ∨ current ∈ visited then parts
    else match folders.get current with
      | none => parts
      | some folder =>
        if folderDeleted folder then parts
        else match folder.parentId with
          | some parent =>
            if parent ≠ "" then pathLoop folders fuel (current :: visited) parent (sanitizeName folder.name :: parts)
            else sanitizeName folder.name :: parts
          | none => sanitizeName folder.name :: parts

def folderPathParts (folders : Table String FolderRecord) (folderId : String) : List String :=
  pathLoop folders (folders.size + 1) [] folderId []

/-- **The walk ends by itself**: it visits no folder twice, so that more steps change nothing. -/
theorem pathLoop_fuel (folders : Table String FolderRecord) : ∀ (n m : Nat) (visited : List String) (current : String)
    (parts : List String), visited.Nodup → (∀ id ∈ visited, id ∈ folders.keys) → folders.size + 1 ≤ n + visited.length →
    folders.size + 1 ≤ m + visited.length →
    pathLoop folders n visited current parts = pathLoop folders m visited current parts := by
  have hfull : ∀ visited : List String, visited.Nodup → (∀ id ∈ visited, id ∈ folders.keys) →
      visited.length ≤ folders.size := fun visited hnodup hkeys => by
    rw [← folders.card_keys, ← toFinset_card_of_nodup hnodup]
    exact Finset.card_le_card (fun id hid => hkeys id (mem_toFinset.1 hid))
  intro n
  induction n with
  | zero =>
    intro m visited current parts hnodup hkeys hn hm
    have := hfull visited hnodup hkeys
    omega
  | succ n ih =>
    intro m visited current parts hnodup hkeys hn hm
    have hlen := hfull visited hnodup hkeys
    cases m with
    | zero => omega
    | succ m =>
      unfold pathLoop
      split
      · rfl
      · rename_i hcur
        obtain ⟨-, hnew⟩ := not_or.1 hcur
        cases hget : folders.get current with
        | none => rfl
        | some folder =>
          dsimp only
          split
          · rfl
          · split
            · split
              · refine ih m _ _ _ (nodup_cons.2 ⟨hnew, hnodup⟩) (fun id hid => ?_) ?_ ?_
                · rcases mem_cons.1 hid with rfl | hid
                  · exact Table.mem_keys.2 (by rw [hget]; nofun)
                  · exact hkeys id hid
                · rw [length_cons]
                  omega
                · rw [length_cons]
                  omega
              · rfl
            · rfl

theorem folderPathParts_fuel (folders : Table String FolderRecord) (folderId : String) {n : Nat} (h : folders.size + 1 ≤ n) :
    pathLoop folders n [] folderId [] = folderPathParts folders folderId :=
  pathLoop_fuel folders n _ [] folderId [] nodup_nil nofun h le_rfl

theorem pathLoop_names (folders : Table String FolderRecord) : ∀ (n : Nat) (visited : List String) (current : String)
    (parts : List String), (∀ p ∈ parts, ∃ id folder, folders.get id = some folder ∧ p = sanitizeName folder.name) →
    ∀ p ∈ pathLoop folders n visited current parts, ∃ id folder, folders.get id = some folder ∧ p = sanitizeName folder.name
  | 0, _, _, _, h => h
  | n + 1, visited, current, parts, h => by
    unfold pathLoop
    split
    · exact h
    · split
      · exact h
      · rename_i folder hget
        have hmore : ∀ p ∈ sanitizeName folder.name :: parts, ∃ id folder, folders.get id = some folder ∧ p = sanitizeName folder.name := by
          intro p hp
          rcases mem_cons.1 hp with rfl | hp
          · exact ⟨current, folder, hget, rfl⟩
          · exact h p hp
        split
        · exact h
        · split
          · split
            · exact pathLoop_names folders n _ _ _ hmore
            · exact hmore
          · exact hmore

/-! ## Target paths -/

def fileTargetRel (folders : Table String FolderRecord) (folderId fileName : String) : Option String :=
  let parts := folderPathParts folders folderId
  if parts = [] then none else some ("/".intercalate (parts.tail ++ [sanitizeName fileName]))

/-- The path of a file below the jail's root. -/
abbrev Path := List String

def resolve (name : String) : Option Path :=
  let components := (name.toList.splitOn '/').filter (fun part => part ≠ [] ∧ part ≠ ['.'])
  if Authz.isBlank name then none
  else if name.toList.head? = some '/' then none
  else if ['.', '.'] ∈ components then none
  else if components = [] then none
  else some (components.map String.ofList)

theorem head_intercalate {l : List Char} {ls : List (List Char)} (h : l ≠ []) : (['/'].intercalate (l :: ls)).head? = l.head? := by
  cases ls with
  | nil => rw [intercalate_singleton]
  | cons m ls => rw [intercalate_cons_cons, append_assoc, head?_append_of_ne_nil _ h]

theorem mem_intercalate {l : List Char} {c : Char} (hc : c ∈ l) : ∀ {ls : List (List Char)}, l ∈ ls → c ∈ ['/'].intercalate ls
  | [m], hl => by
    rw [intercalate_singleton, ← mem_singleton.1 hl]
    exact hc
  | m :: n :: ls, hl => by
    rw [intercalate_cons_cons]
    rcases mem_cons.1 hl with rfl | hl
    · exact mem_append_left _ (mem_append_left _ hc)
    · exact mem_append_right _ (mem_intercalate hc hl)

theorem resolve_intercalate {parts : Path} (hne : parts ≠ []) (hparts : ∀ p ∈ parts, Component p.toList) :
    resolve ("/".intercalate parts) = some parts := by
  have hlist : ("/".intercalate parts).toList = ['/'].intercalate (parts.map String.toList) := String.toList_intercalate
  have hsplit : ("/".intercalate parts).toList.splitOn '/' = parts.map String.toList := by
    rw [hlist]
    refine splitOn_intercalate '/' (fun l hl => ?_) (by simpa using hne)
    obtain ⟨p, hp, rfl⟩ := mem_map.1 hl
    exact (hparts p hp).noSlash
  have hkeep : (parts.map String.toList).filter (fun part => part ≠ [] ∧ part ≠ ['.']) = parts.map String.toList := by
    refine filter_eq_self.2 (fun l hl => ?_)
    obtain ⟨p, hp, rfl⟩ := mem_map.1 hl
    exact decide_eq_true ⟨(hparts p hp).nonempty, (hparts p hp).notCur⟩
  obtain ⟨p, ps, rfl⟩ := exists_cons_of_ne_nil hne
  have hp := hparts p mem_cons_self
  have hblank : Authz.isBlank ("/".intercalate (p :: ps)) = false := by
    obtain ⟨c, hc, hvisible⟩ := hp.visible
    rw [Authz.isBlank, hlist, ← Bool.not_eq_true, List.all_eq_true]
    intro hall
    have := hall c (mem_intercalate hc (mem_map.2 ⟨p, mem_cons_self, rfl⟩))
    rw [hvisible] at this
    cases this
  have habs : ("/".intercalate (p :: ps)).toList.head? ≠ some '/' := fun h => by
    rw [hlist, map_cons, head_intercalate hp.nonempty] at h
    exact hp.noSlash (mem_of_head? h)
  have hup : ['.', '.'] ∉ (p :: ps).map String.toList := fun h => by
    obtain ⟨q, hq, hqeq⟩ := mem_map.1 h
    exact (hparts q hq).notParent hqeq
  unfold resolve
  rw [hsplit, hkeep, if_neg (by rw [hblank]; nofun), if_neg habs, if_neg hup, map_map]
  refine congrArg some ((map_congr_left fun q _ => ?_).trans (map_id _))
  exact String.ofList_toList

theorem resolve_fileTargetRel {folders : Table String FolderRecord} {folderId fileName rel : String}
    (h : fileTargetRel folders folderId fileName = some rel) :
    resolve rel = some ((folderPathParts folders folderId).tail ++ [sanitizeName fileName]) := by
  unfold fileTargetRel at h
  dsimp only at h
  split at h
  · cases h
  · obtain rfl := Option.some.inj h
    refine resolve_intercalate (by simp) (fun p hp => ?_)
    rcases mem_append.1 hp with hp | hp
    · obtain ⟨-, folder, -, rfl⟩ := pathLoop_names folders _ _ _ _ (fun q hq => absurd hq not_mem_nil) p (mem_of_mem_tail hp)
      exact sanitizeName_component _
    · rw [mem_singleton.1 hp]
      exact sanitizeName_component fileName

end Mistl.Folder
