import Mistl.FolderPaths
/-!
# FolderJail — names that stay inside

What a remote name becomes (`sanitize_name`), and where `Sandbox::resolve` of `storage/sandbox.rs` puts a relative path: below the
sandbox's root, whatever the text.
-/
open List

namespace Mistl.Folder

/-! ## Names -/

/-- What the reserved names of devices are compared with: a name up to its first dot. -/
def stemOf (cs : List Char) : List Char := (cs.takeWhile (· ≠ '.')).rdropWhile Authz.isWhitespace

/-- A name that is one component of a path on every platform. -/
structure Plain (cs : List Char) : Prop where
  nonempty : cs ≠ []
  allowed : ∀ c ∈ cs, isForbidden c = false
  notCur : cs ≠ ['.']
  notParent : cs ≠ ['.', '.']
  noDot : cs.getLast? ≠ some '.'
  noSpace : cs.getLast? ≠ some ' '
  noDevice : isReservedDeviceName (stemOf cs) = false

theorem replaced_allowed (cs : List Char) : ∀ c ∈ cs.map (fun c => if isForbidden c then '_' else c), isForbidden c = false := by
  intro c hc
  obtain ⟨b, -, rfl⟩ := mem_map.1 hc
  split
  · decide
  · rename_i h
    simpa using h

theorem plain_of_last {cs : List Char} (hne : cs ≠ []) (hallowed : ∀ c ∈ cs, isForbidden c = false)
    (hlast : cs.getLast hne ≠ '.' ∧ cs.getLast hne ≠ ' ') (hdevice : isReservedDeviceName (stemOf cs) = false) : Plain cs := by
  have hget : cs.getLast? = some (cs.getLast hne) := getLast?_eq_some_getLast hne
  refine ⟨hne, hallowed, ?_, ?_, ?_, ?_, hdevice⟩
  · rintro rfl
    exact hlast.1 rfl
  · rintro rfl
    exact hlast.1 rfl
  · rw [hget]
    exact fun h => hlast.1 (Option.some.inj h)
  · rw [hget]
    exact fun h => hlast.2 (Option.some.inj h)

theorem underscore_unreserved (cs : List Char) : isReservedDeviceName (stemOf ('_' :: cs)) = false := by
  have hstem : ∃ t, stemOf ('_' :: cs) = '_' :: t := by
    unfold stemOf
    rw [takeWhile_cons_of_pos (by decide)]
    by_cases hrest : ('_' :: cs.takeWhile (· ≠ '.')).rdropWhile Authz.isWhitespace = []
    · rw [rdropWhile_eq_nil_iff] at hrest
      exact absurd (hrest '_' mem_cons_self) (by decide)
    · obtain ⟨c, t, ht⟩ := exists_cons_of_ne_nil hrest
      have hhead := head_rdropWhile hrest
      rw [ht] at hhead
      simp only [head?_cons, Option.some.injEq] at hhead
      exact ⟨t, by rw [ht, hhead]⟩
  obtain ⟨t, ht⟩ := hstem
  rw [ht]
  have hupper : Char.toUpper '_' = '_' := by decide
  simp [isReservedDeviceName]

theorem sanitizeName_plain (name : String) : Plain (sanitizeName name).toList := by
  unfold sanitizeName
  dsimp only
  generalize hrep : (trim name.toList).map (fun c => if isForbidden c then '_' else c) = replaced
  have hallowed : ∀ c ∈ replaced, isForbidden c = false := by
    rw [← hrep]
    exact replaced_allowed _
  split
  · refine plain_of_last (cons_ne_nil _ _) ?_ (by decide) (underscore_unreserved [])
    intro c hc
    rw [mem_singleton.1 hc]
    decide
  · rename_i hne
    have hsub : ∀ c ∈ replaced.rdropWhile (fun c => c = '.' || c = ' '), isForbidden c = false :=
      fun c hc => hallowed c (( rdropWhile_prefix _ _).subset hc)
    have hlast := rdropWhile_last_not _ _ hne
    simp only [Bool.or_eq_true, decide_eq_true_eq, not_or] at hlast
    split
    · rw [String.toList_ofList]
      refine plain_of_last (cons_ne_nil _ _) (fun c hc => ?_) ?_ (underscore_unreserved _)
      · rcases mem_cons.1 hc with rfl | hc
        · decide
        · exact hsub c hc
      · rw [getLast_cons hne]
        exact hlast
    · rename_i hdevice
      rw [String.toList_ofList]
      exact plain_of_last hne hsub hlast (eq_false_of_ne_true hdevice)

/-! ## Paths below a root -/

/-- `Sandbox`, with the components of its absolute root. -/
structure Sandbox where
  root : Path

/-- `Sandbox::resolve`, to the components of an absolute path -/
def Sandbox.resolve (s : Sandbox) (name : String) : Option Path :=
  match Folder.resolve name with
  | none => none
  | some normalized =>
    let target := s.root ++ normalized
    if s.root.isPrefixOf target then some target else none

/-- A path that goes down from the root, by one name or more. -/
structure Inside (root path : Path) : Prop where
  below : ∃ parts, parts ≠ [] ∧ path = root ++ parts ∧ ∀ p ∈ parts, p ≠ "" ∧ p ≠ "." ∧ p ≠ ".." ∧ '/' ∉ p.toList

theorem Sandbox.resolve_eq (s : Sandbox) (name : String) : s.resolve name = (Folder.resolve name).map (s.root ++ ·) := by
  unfold Sandbox.resolve
  cases Folder.resolve name with
  | none => rfl
  | some normalized =>
    dsimp only
    rw [if_pos ( isPrefixOf_iff_prefix.2 (prefix_append _ _))]
    rfl

theorem notMem_of_mem_splitOn {α : Type} [BEq α] [LawfulBEq α] {a : α} : ∀ {l piece : List α}, piece ∈ l.splitOn a → a ∉ piece
  | [], piece, h => by
    rw [splitOn_nil, mem_singleton] at h
    rw [h]
    exact not_mem_nil
  | b :: l, piece, h => by
    rw [splitOn_cons_eq_if_modifyHead] at h
    split at h
    · rcases mem_cons.1 h with rfl | h
      · exact not_mem_nil
      · exact notMem_of_mem_splitOn h
    · rename_i hne
      cases hsplit : l.splitOn a with
      | nil => exact absurd hsplit (splitOn_ne_nil a l)
      | cons p ps =>
        rw [hsplit] at h
        have hmem : ∀ q ∈ p :: ps, a ∉ q := fun q hq => notMem_of_mem_splitOn (hsplit ▸ hq)
        rcases mem_cons.1 h with rfl | h
        · rw [mem_cons, not_or]
          exact ⟨fun heq => hne (by simp [heq]), hmem p mem_cons_self⟩
        · exact hmem piece (mem_cons_of_mem p h)

theorem resolve_below {name : String} {path : Path} (h : Folder.resolve name = some path) :
    path ≠ [] ∧ ∀ p ∈ path, p ≠ "" ∧ p ≠ "." ∧ p ≠ ".." ∧ '/' ∉ p.toList := by
  unfold Folder.resolve at h
  dsimp only at h
  split at h
  · cases h
  · split at h
    · cases h
    · split at h
      · cases h
      · rename_i hparent
        split at h
        · cases h
        · rename_i hne
          cases h
          refine ⟨by simpa using hne, fun p hp => ?_⟩
          obtain ⟨cs, hcs, rfl⟩ := mem_map.1 hp
          obtain ⟨hpiece, hkept⟩ := mem_filter.1 hcs
          simp only [decide_eq_true_eq] at hkept
          have htext : ∀ t : String, String.ofList cs = t → cs = t.toList := fun t ht => by rw [← ht, String.toList_ofList]
          refine ⟨fun ht => hkept.1 (htext _ ht), fun ht => hkept.2 (htext _ ht), fun ht => hparent ?_, ?_⟩
          · rw [show ['.', '.'] = "..".toList from rfl, ← htext _ ht]
            exact hcs
          · rw [String.toList_ofList]
            exact notMem_of_mem_splitOn hpiece

theorem resolve_inside {s : Sandbox} {name : String} {path : Path} (h : s.resolve name = some path) : Inside s.root path := by
  rw [Sandbox.resolve_eq] at h
  obtain ⟨parts, hparts, rfl⟩ := Option.map_eq_some_iff.1 h
  obtain ⟨hne, hall⟩ := resolve_below hparts
  exact ⟨parts, hne, rfl, hall⟩

/-- **Remote names stay inside**: the walk to the root ends, a sanitized name is one plain component, a target path resolves to its
names below the sandbox's root, and nothing resolves outside it. -/
theorem names_stay_inside :
    (∀ folders folderId n, folders.size + 1 ≤ n → pathLoop folders n [] folderId [] = folderPathParts folders folderId) ∧
    (∀ name, Plain (sanitizeName name).toList) ∧
    (∀ (s : Sandbox) folders folderId fileName rel, fileTargetRel folders folderId fileName = some rel →
      s.resolve rel = some (s.root ++ ((folderPathParts folders folderId).tail ++ [sanitizeName fileName])) ∧
      ∀ p ∈ folderPathParts folders folderId, ∃ id folder, folders.get id = some folder ∧ p = sanitizeName folder.name) ∧
    (∀ (s : Sandbox) name path, s.resolve name = some path → Inside s.root path) := by
  refine ⟨fun folders folderId n h => folderPathParts_fuel folders folderId h, sanitizeName_plain,
    fun s folders folderId fileName rel h => ⟨?_, fun p hp => ?_⟩, fun s name path h => resolve_inside h⟩
  · rw [Sandbox.resolve_eq, resolve_fileTargetRel h, Option.map_some]
  · exact pathLoop_names folders _ _ _ _ (fun p hp => absurd hp not_mem_nil) p hp

end Mistl.Folder
