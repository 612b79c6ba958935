import Mathlib.Data.Finset.Erase
import Mathlib.Data.Finset.Insert
import Mathlib.Data.List.Nodup
/-!
# Recent — the keys last put in

A set that forgets the key it holds longest when it is full and another one comes: a queue beside a hash set.
-/
open List

namespace Mistl

structure Recent (α : Type) [DecidableEq α] (cap : Nat) where
  order : List α
  ids : Finset α
  nodup : order.Nodup
  synced : ∀ k, k ∈ ids ↔ k ∈ order

namespace Recent

variable {α : Type} [DecidableEq α] {cap : Nat}

def empty (α : Type) [DecidableEq α] (cap : Nat) : Recent α cap := ⟨[], ∅, nodup_nil, fun _ => by simp⟩

def contains (s : Recent α cap) (k : α) : Bool := decide (k ∈ s.ids)

def popFront (s : Recent α cap) : Recent α cap :=
  match s with
  | ⟨[], ids, nodup, synced⟩ => ⟨[], ids, nodup, synced⟩
  | ⟨old :: rest, ids, nodup, synced⟩ => ⟨rest, ids.erase old, nodup.of_cons, fun k => by
    rw [Finset.mem_erase, synced, mem_cons]
    constructor
    · rintro ⟨hne, heq | hmem⟩
      · exact absurd heq hne
      · exact hmem
    · intro hmem
      exact ⟨fun heq => (nodup_cons.1 nodup).1 (heq ▸ hmem), .inr hmem⟩⟩

def pushBack (s : Recent α cap) (k : α) (hk : k ∉ s.ids) : Recent α cap := ⟨s.order ++ [k], Insert.insert k s.ids, by
    rw [nodup_append]
    refine ⟨s.nodup, nodup_singleton k, fun a ha b hb heq => hk ((s.synced k).2 ?_)⟩
    rw [← mem_singleton.1 hb, ← heq]
    exact ha, fun x => by
    rw [Finset.mem_insert, s.synced, mem_append, mem_singleton, or_comm]⟩

theorem mem_of_mem_popFront {s : Recent α cap} {k : α} (h : k ∈ s.popFront.ids) : k ∈ s.ids := by
  obtain ⟨order, ids, nodup, synced⟩ := s
  cases order with
  | nil => exact h
  | cons old rest => exact Finset.mem_of_mem_erase h

def insert (s : Recent α cap) (k : α) : Recent α cap × Bool :=
  if hk : k ∈ s.ids then (s, false)
  else if cap ≤ s.order.length then (s.popFront.pushBack k (fun h => hk (mem_of_mem_popFront h)), true)
  else (s.pushBack k hk, true)

variable {s : Recent α cap} {k x : α}

theorem contains_iff : s.contains k = true ↔ k ∈ s.order := by rw [contains, decide_eq_true_eq, s.synced]

theorem contains_eq_false : s.contains k = false ↔ k ∉ s.order := by
  rw [← contains_iff, Bool.not_eq_true]

theorem popFront_order (s : Recent α cap) : s.popFront.order = s.order.tail := by
  obtain ⟨order, ids, nodup, synced⟩ := s
  cases order <;> rfl

theorem insert_new (hk : k ∉ s.order) : (s.insert k).2 = true ∧
    (s.insert k).1.order = (if cap ≤ s.order.length then s.order.tail else s.order) ++ [k] := by
  have hids : k ∉ s.ids := fun h => hk ((s.synced k).1 h)
  rw [insert, dif_neg hids]
  split
  · exact ⟨rfl, congrArg (· ++ [k]) s.popFront_order⟩
  · exact ⟨rfl, rfl⟩

theorem mem_of_insert (hk : k ∉ s.order) (hx : x ∈ (s.insert k).1.order) : x = k ∨ x ∈ s.order := by
  rw [(insert_new hk).2, mem_append, mem_singleton] at hx
  rcases hx with hx | hx
  · split at hx
    · exact .inr (mem_of_mem_tail hx)
    · exact .inr hx
  · exact .inl hx

/-- **A key stays, with the new one after it, or goes** after as many others as the set holds. -/
theorem stays_or_goes (hk : k ∉ s.order) {before after : List α} (hx : s.order = before ++ x :: after) :
    (∃ before', (s.insert k).1.order = before' ++ x :: (after ++ [k])) ∨ cap ≤ (after ++ [k]).length := by
  rw [(insert_new hk).2, hx]
  split
  · rename_i hfull
    cases before with
    | nil =>
      refine .inr ?_
      rw [length_append]
      exact hfull
    | cons y before => exact .inl ⟨before, by rw [cons_append, tail_cons, append_assoc, cons_append]⟩
  · exact .inl ⟨before, by rw [append_assoc, cons_append]⟩

theorem others_nodup (hk : k ∉ s.order) {before after : List α} (hx : s.order = before ++ x :: after) :
    (after ++ [k]).Nodup ∧ x ∉ after ++ [k] := by
  have hnodup := s.nodup
  rw [hx] at hk hnodup
  obtain ⟨hnot, hafter⟩ := nodup_cons.1 (nodup_append.1 hnodup).2.1
  have hmem : k ∉ x :: after := fun h => hk (mem_append_right _ h)
  refine ⟨nodup_append.2 ⟨hafter, nodup_singleton k, fun a ha b hb heq => hmem ?_⟩, fun h => ?_⟩
  · rw [← mem_singleton.1 hb, ← heq]
    exact mem_cons_of_mem _ ha
  · rcases mem_append.1 h with h | h
    · exact hnot h
    · exact hmem (mem_singleton.1 h ▸ mem_cons_self)

end Recent
end Mistl
