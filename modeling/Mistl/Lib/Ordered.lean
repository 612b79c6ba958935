import Mathlib.Data.List.Nodup
import Mathlib.Data.List.Sort
import Mathlib.Order.Basic
import Mathlib.Order.Defs.LinearOrder
/-!
# Ordered — ordered sets as ascending lists

An ordered set is the list of its members, ascending.  A member is placed where it belongs, once; the first member is
the least, and two such lists with the same members are equal.
-/
open List

namespace Mistl.Ordered

variable {α : Type} [LinearOrder α]

def place (x : α) : List α → List α
  | [] => [x]
  | y :: l => if x < y then x :: y :: l else if x = y then y :: l else y :: place x l

theorem mem_place {x y : α} : ∀ {l : List α}, y ∈ place x l ↔ y = x ∨ y ∈ l
  | [] => by simp [place]
  | z :: l => by
    unfold place
    split
    · exact mem_cons
    · split
      · rename_i h
        subst h
        simp
      · rw [mem_cons, mem_place, mem_cons]
        exact or_left_comm

theorem place_ascending (x : α) : ∀ {l : List α}, l.Pairwise (· < ·) → (place x l).Pairwise (· < ·)
  | [], _ => pairwise_singleton _ _
  | y :: l, h => by
    unfold place
    obtain ⟨hy, hl⟩ := pairwise_cons.1 h
    split
    · rename_i hxy
      refine pairwise_cons.2 ⟨fun z hz => ?_, h⟩
      rcases mem_cons.1 hz with rfl | hz
      · exact hxy
      · exact hxy.trans (hy z hz)
    · rename_i hxy
      split
      · exact h
      · rename_i hne
        refine pairwise_cons.2 ⟨fun z hz => ?_, place_ascending x hl⟩
        rcases mem_place.1 hz with rfl | hz
        · exact lt_of_le_of_ne (not_lt.1 hxy) (Ne.symm hne)
        · exact hy z hz

theorem nodup_of_ascending {l : List α} (h : l.Pairwise (· < ·)) : l.Nodup := h.imp ne_of_lt

def discard (x : α) (l : List α) : List α := l.erase x

theorem discard_ascending {l : List α} (h : l.Pairwise (· < ·)) (x : α) : (discard x l).Pairwise (· < ·) := h.sublist erase_sublist

theorem mem_discard {l : List α} (h : l.Pairwise (· < ·)) {x y : α} : y ∈ discard x l ↔ y ≠ x ∧ y ∈ l :=
  (nodup_of_ascending h).mem_erase_iff

theorem ascendingBy_ext {β : Type} (f : β → α) {l l' : List β} (h : l.Pairwise (fun a b => f a < f b))
    (h' : l'.Pairwise (fun a b => f a < f b)) (hmem : ∀ x, x ∈ l ↔ x ∈ l') : l = l' := by
  have hnodup : ∀ {k : List β}, k.Pairwise (fun a b => f a < f b) → k.Nodup := fun hk => hk.imp (fun hab => ne_of_apply_ne f hab.ne)
  have hperm : l.Perm l' := (perm_ext_iff_of_nodup (hnodup h) (hnodup h')).2 hmem
  exact hperm.eq_of_pairwise (fun a b _ _ hab hba => absurd hba (not_lt_of_gt hab)) h h'

section Each

variable {β : Type} (f : β → α)

open Classical in
theorem ascendingBy_take {l l' : List β} (h : l.Pairwise (fun a b => f a < f b))
    (h' : l'.Pairwise (fun a b => f a < f b)) (hsub : ∀ x ∈ l', x ∈ l) {n : Nat} (htake : ∀ x ∈ l.take n, x ∈ l') :
    l'.take n = l.take n := by
  have hl' : l' = l.filter (fun x => decide (x ∈ l')) := by
    refine ascendingBy_ext f h' (h.filter _) (fun x => ?_)
    rw [mem_filter, decide_eq_true_eq]
    exact ⟨fun hx => ⟨hsub x hx, hx⟩, And.right⟩
  have hfirst : (l.take n).filter (fun x => decide (x ∈ l')) = l.take n := filter_eq_self.2 (fun x hx => decide_eq_true (htake x hx))
  rw [hl']
  conv_lhs => rw [← take_append_drop n l]
  rw [filter_append, hfirst]
  rcases Nat.le_total n l.length with hn | hn
  · rw [take_append_of_le_length (by rw [length_take, min_eq_left hn]), take_take, min_self]
  · rw [drop_eq_nil_of_le hn, filter_nil, append_nil, take_take, min_self]

theorem mem_take_of_subset {l l' : List β} (h : l.Pairwise (fun a b => f a < f b))
    (h' : l'.Pairwise (fun a b => f a < f b)) (hsub : ∀ x ∈ l', x ∈ l) {x : β} (hx : x ∈ l') {n : Nat}
    (htake : x ∈ l.take n) : x ∈ l'.take n := by
  obtain ⟨before, after, rfl⟩ := append_of_mem hx
  obtain ⟨first, second, hfirst⟩ := append_of_mem htake
  have hl : l = first ++ x :: (second ++ l.drop n) := by
    conv_lhs => rw [← take_append_drop n l, hfirst]
    rw [append_assoc, cons_append]
  -- what comes before it in the part comes before it in the whole
  have hbefore : before ⊆ first := by
    intro y hy
    have hyx : f y < f x := (pairwise_append.1 h').2.2 y hy x mem_cons_self
    have hyl := hsub y (mem_append_left _ hy)
    rw [hl] at hyl h
    rcases mem_append.1 hyl with hyl | hyl
    · exact hyl
    · rcases mem_cons.1 hyl with rfl | hyl
      · exact absurd hyx (lt_irrefl _)
      · have hxy := (pairwise_cons.1 (pairwise_append.1 h).2.1).1 y hyl
        exact absurd hxy (not_lt_of_gt hyx)
  have hnodup : before.Nodup := (pairwise_append.1 h').1.imp (fun hab => ne_of_apply_ne f hab.ne)
  have hle : before.length ≤ first.length := (subperm_of_subset hnodup hbefore).length_le
  have hlt : first.length + 1 ≤ n := by
    have hlen := congrArg List.length hfirst
    rw [length_append, length_cons, length_take] at hlen
    omega
  rw [take_append, mem_append]
  refine Or.inr ?_
  obtain ⟨k, hk⟩ : ∃ k, n - before.length = k + 1 := ⟨n - before.length - 1, by omega⟩
  rw [hk]
  exact mem_cons_self

theorem mem_foldl_place : ∀ (l : List β) {keys : List α} {y : α},
    y ∈ l.foldl (fun keys x => place (f x) keys) keys ↔ y ∈ keys ∨ ∃ x ∈ l, f x = y
  | [], _, _ => by simp
  | x :: l, keys, y => by
    rw [foldl_cons, mem_foldl_place l, mem_place, exists_mem_cons_iff]
    tauto

theorem foldl_place_ascending : ∀ (l : List β) {keys : List α}, keys.Pairwise (· < ·) →
    (l.foldl (fun keys x => place (f x) keys) keys).Pairwise (· < ·)
  | [], _, h => h
  | x :: l, _, h => foldl_place_ascending l (place_ascending (f x) h)

end Each

end Mistl.Ordered
