import Mathlib.Data.List.Basic
/-!
# Latest — the longest end of a list that fits

What a buffer holds that takes an entry and then drops its oldest until the rest fits.
-/
namespace Mistl

section

variable {α : Type} (fits : List α → Prop) [DecidablePred fits]

def latest : List α → List α
  | [] => []
  | a :: l => if fits (a :: l) then a :: l else latest l

theorem latest_suffix : ∀ l, latest fits l <:+ l
  | [] => List.suffix_rfl
  | a :: l => by
    rw [latest]
    split
    · exact List.suffix_rfl
    · exact (latest_suffix l).trans (List.suffix_cons a l)

/-- To drop after every entry is to drop once. -/
theorem latest_append (hstart : ∀ l m, fits (l ++ m) → fits l) (a : α) :
    ∀ l, latest fits (latest fits l ++ [a]) = latest fits (l ++ [a])
  | [] => rfl
  | b :: l => by
    rw [latest]
    split
    · rfl
    · rename_i hb
      have hrest : ¬fits (b :: (l ++ [a])) := fun h => hb (hstart (b :: l) [a] h)
      rw [latest_append hstart a l, List.cons_append, latest, if_neg hrest]

/-- An end fits when it is no longer than the longest that does. -/
theorem fits_drop_iff (hnil : fits []) (hend : ∀ a l, fits (a :: l) → fits l) :
    ∀ (l : List α) (k : Nat), fits (l.drop k) ↔ l.length - (latest fits l).length ≤ k
  | [], k => by simp [hnil]
  | a :: l, 0 => by
    have hlen := (latest_suffix fits l).length_le
    rw [latest]
    split
    · rename_i ha
      exact iff_of_true ha (Nat.le_of_eq (Nat.sub_self _))
    · rename_i ha
      refine iff_of_false ha ?_
      rw [List.length_cons]
      omega
  | a :: l, k + 1 => by
    have ih := fits_drop_iff hnil hend l k
    rw [List.drop_succ_cons, ih, latest]
    split
    · rename_i ha
      have hall : l.length - (latest fits l).length ≤ 0 := (fits_drop_iff hnil hend l 0).1 (hend a l ha)
      omega
    · rw [List.length_cons]
      omega

end
end Mistl
