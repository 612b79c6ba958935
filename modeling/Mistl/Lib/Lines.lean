import Mathlib.Data.List.Basic
/-!
# Lines — texts cut at a separator

A text is cut at its first separator; what stands before it has none.
-/
namespace Mistl.Lines

variable {α : Type} {sep : α}

theorem cut_inj : ∀ {x y s t : List α}, sep ∉ x → sep ∉ y → x ++ sep :: s = y ++ sep :: t → x = y ∧ s = t
  | [], [], _, _, _, _, h => ⟨rfl, (List.cons.inj h).2⟩
  | [], b :: y, _, _, _, hy, h => absurd ((List.cons.inj h).1 ▸ List.mem_cons_self) hy
  | a :: x, [], _, _, hx, _, h => absurd ((List.cons.inj h).1 ▸ List.mem_cons_self) hx
  | a :: x, b :: y, s, t, hx, hy, h => by
    obtain ⟨rfl, hrest⟩ := List.cons.inj h
    obtain ⟨rfl, hst⟩ := cut_inj (List.not_mem_of_not_mem_cons hx) (List.not_mem_of_not_mem_cons hy) hrest
    exact ⟨rfl, hst⟩

end Mistl.Lines
