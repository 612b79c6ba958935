import Mathlib.Data.List.Basic
/-!
# Chunks — a list cut into pieces of one length

`chunks n l` are the pieces of `n` elements and a shorter last one; put together they are the list.
-/
open List

namespace Mistl.Chunks

variable {α : Type}

def cut (n : Nat) : Nat → List α → List (List α)
  | 0, _ => []
  | _, [] => []
  | k + 1, a :: l => (a :: l).take n :: cut n k ((a :: l).drop n)

def chunks (n : Nat) (l : List α) : List (List α) := cut n l.length l

variable {n : Nat}

theorem cut_flatten (hn : 0 < n) : ∀ {k : Nat} {l : List α}, l.length ≤ k → (cut n k l).flatten = l
  | 0, l, h => by
    rw [length_eq_zero_iff.1 (Nat.le_zero.1 h)]
    rfl
  | _ + 1, [], _ => rfl
  | k + 1, a :: l, h => by
    have hdrop : ((a :: l).drop n).length ≤ k := by
      rw [length_drop] at *
      omega
    rw [cut, flatten_cons, cut_flatten hn hdrop, take_append_drop]

theorem chunks_flatten (hn : 0 < n) (l : List α) : (chunks n l).flatten = l := cut_flatten hn (Nat.le_refl _)

theorem length_of_mem_cut : ∀ {k : Nat} {l : List α}, ∀ c ∈ cut n k l, c.length ≤ n
  | 0, _, c, h | _ + 1, [], c, h => by cases h
  | k + 1, a :: l, c, h => by
    rcases mem_cons.1 h with rfl | h
    · rw [length_take]
      exact Nat.min_le_left _ _
    · exact length_of_mem_cut c h

theorem length_of_mem_chunks {l c : List α} (h : c ∈ chunks n l) : c.length ≤ n := length_of_mem_cut c h

theorem chunks_ne_nil {l : List α} (h : l ≠ []) : chunks n l ≠ [] := by
  obtain ⟨a, l, rfl⟩ := exists_cons_of_ne_nil h
  exact cons_ne_nil _ _

@[simp] theorem chunks_nil (n : Nat) : chunks n ([] : List α) = [] := rfl

theorem length_cut (hn : 0 < n) : ∀ {k : Nat} {l : List α}, l.length ≤ k → (cut n k l).length = (l.length + n - 1) / n
  | 0, l, h => by
    rw [length_eq_zero_iff.1 (Nat.le_zero.1 h)]
    exact (Nat.div_eq_of_lt (by rw [length_nil]; omega)).symm
  | _ + 1, [], _ => (Nat.div_eq_of_lt (by rw [length_nil]; omega)).symm
  | k + 1, a :: l, h => by
    have hdrop : ((a :: l).drop n).length ≤ k := by
      rw [length_drop] at *
      omega
    rw [cut, length_cons, length_cut hn hdrop, length_drop]
    by_cases hle : n ≤ (a :: l).length
    · rw [← Nat.add_div_right _ hn]
      congr 1
      omega
    · have h1 : (a :: l).length - n + n - 1 < n := by omega
      have h2 : (a :: l).length + n - 1 = ((a :: l).length - 1) + n := by rw [length_cons]; omega
      rw [Nat.div_eq_of_lt h1, h2, Nat.add_div_right _ hn, Nat.div_eq_of_lt (by omega)]

theorem length_chunks (hn : 0 < n) (l : List α) : (chunks n l).length = (l.length + n - 1) / n := length_cut hn (Nat.le_refl _)

end Mistl.Chunks
