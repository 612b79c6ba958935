import Mathlib.Data.List.Basic
/-!
# LogLines — a file of lines that is appended to

Lines are written each with a separator after it, and read as what stands between separators, empty pieces left out.
-/
open List

namespace Mistl.LogLines

variable {α : Type} [DecidableEq α] {sep : α}

def terminated (sep : α) (lines : List (List α)) : List α := lines.flatMap (· ++ [sep])

def pieces (sep : α) (text : List α) : List (List α) := (text.splitOn sep).filter (· ≠ [])

def stem (sep : α) (text : List α) : List α := ((text.reverse.drop 1).dropWhile (· ≠ sep)).reverse

def cutLast (sep : α) (n : Nat) (text : List α) : List α := stem sep text ++ (text.drop (stem sep text).length).take n

def whole (sep : α) (text : List α) : Bool := text.getLast?.all (· = sep)

omit [DecidableEq α] in
theorem terminated_append (a b : List (List α)) : terminated sep (a ++ b) = terminated sep a ++ terminated sep b := flatMap_append

omit [DecidableEq α] in
theorem terminated_singleton (line : List α) : terminated sep [line] = line ++ [sep] := by
  rw [terminated, flatMap_cons, flatMap_nil, append_nil]

theorem eq_nil_of_whole {lines : List (List α)} {tail : List α} (hsep : sep ∉ tail)
    (h : whole sep (terminated sep lines ++ tail) = true) : tail = [] := by
  rcases eq_nil_or_concat' tail with rfl | ⟨before, a, rfl⟩
  · rfl
  · rw [← append_assoc, whole, getLast?_concat] at h
    exact absurd (mem_append_right _ (mem_singleton.2 (of_decide_eq_true h).symm)) hsep

theorem pieces_terminated : ∀ {lines : List (List α)} {tail : List α}, (∀ line ∈ lines, sep ∉ line ∧ line ≠ []) → sep ∉ tail →
    pieces sep (terminated sep lines ++ tail) = lines ++ [tail].filter (· ≠ [])
  | [], tail, _, htail => by
    rw [terminated, flatMap_nil, nil_append, pieces, splitOn_eq_singleton htail, nil_append]
  | line :: lines, tail, hlines, htail => by
    obtain ⟨hsep, hne⟩ := hlines line mem_cons_self
    have hrest := pieces_terminated (fun l hl => hlines l (mem_cons_of_mem _ hl)) htail
    rw [terminated, flatMap_cons, append_assoc, append_assoc, singleton_append, pieces,
      splitOn_append_cons_self_of_not_mem hsep, filter_cons_of_pos (by simpa using hne)]
    exact congrArg (line :: ·) hrest

theorem dropWhile_notMem {l rest : List α} (h : sep ∉ l) : (l ++ rest).dropWhile (· ≠ sep) = rest.dropWhile (· ≠ sep) := by
  refine dropWhile_append_of_pos (fun a ha => decide_eq_true ?_)
  rintro rfl
  exact h ha

theorem dropWhile_terminated (lines : List (List α)) :
    (terminated sep lines).reverse.dropWhile (· ≠ sep) = (terminated sep lines).reverse := by
  rcases eq_nil_or_concat' lines with rfl | ⟨before, line, rfl⟩
  · rfl
  · rw [terminated_append, terminated_singleton, ← append_assoc, reverse_append, reverse_singleton,
      singleton_append, dropWhile_cons_of_neg (by simp)]

/-- **A crash in a last line that was written whole** leaves the lines before it and a piece of it. -/
theorem cutLast_terminated (lines : List (List α)) {line : List α} (hsep : sep ∉ line) (n : Nat) :
    cutLast sep n (terminated sep (lines ++ [line])) = terminated sep lines ++ (line ++ [sep]).take n := by
  have hstem : stem sep (terminated sep (lines ++ [line])) = terminated sep lines := by
    rw [stem, terminated_append, terminated_singleton, ← append_assoc, reverse_append, reverse_singleton,
      singleton_append, drop_succ_cons, drop_zero, reverse_append,
      dropWhile_notMem (fun h => hsep (mem_reverse.1 h)), dropWhile_terminated, reverse_reverse]
  rw [cutLast, hstem, terminated_append, terminated_singleton, drop_left]

theorem cutLast_torn (lines : List (List α)) {tail : List α} (hsep : sep ∉ tail) (hne : tail ≠ []) (n : Nat) :
    cutLast sep n (terminated sep lines ++ tail) = terminated sep lines ++ tail.take n := by
  have hstem : stem sep (terminated sep lines ++ tail) = terminated sep lines := by
    rcases eq_nil_or_concat' tail with rfl | ⟨before, a, rfl⟩
    · exact absurd rfl hne
    · rw [stem, ← append_assoc, reverse_append, reverse_singleton, singleton_append, drop_succ_cons,
        drop_zero, reverse_append, dropWhile_notMem (fun h => hsep (mem_append_left _ (mem_reverse.1 h))),
        dropWhile_terminated, reverse_reverse]
  rw [cutLast, hstem, drop_left]

end Mistl.LogLines
