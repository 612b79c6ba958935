import Mathlib.Data.List.Nodup
/-!
# Records — a list of records with a key

`find` is the first record with a key, and `update` changes it in place: what a program does that keeps its rows in a vector.
Where no key is there twice, a record is in the list if and only if it is the one found by its key.
-/
open List

namespace Mistl.Records

variable {α κ : Type} [DecidableEq κ] (key : α → κ)

def find (k : κ) (l : List α) : Option α := l.find? (fun a => decide (key a = k))

def update (k : κ) (f : α → α) : List α → List α
  | [] => []
  | a :: l => if key a = k then f a :: l else a :: update k f l

variable {key} {k : κ} {f : α → α} {a : α} {l l' : List α}

theorem find_key (h : find key k l = some a) : key a = k := by
  have := @find?_some _ (fun a => decide (key a = k)) _ _ h
  simpa using this

theorem mem_of_find (h : find key k l = some a) : a ∈ l := mem_of_find?_eq_some h

theorem find_of_mem (hnd : (l.map key).Nodup) (h : a ∈ l) : find key (key a) l = some a := by
  induction l with
  | nil => cases h
  | cons b l ih =>
    rw [map_cons, nodup_cons] at hnd
    unfold find
    rw [find?_cons]
    rcases mem_cons.1 h with rfl | h
    · simp
    · have hne : key b ≠ key a := fun he => hnd.1 (he ▸ mem_map_of_mem h)
      simp only [hne]
      exact ih hnd.2 h

theorem mem_iff_find (hnd : (l.map key).Nodup) : a ∈ l ↔ find key (key a) l = some a := ⟨find_of_mem hnd, mem_of_find⟩

theorem find_eq_none : find key k l = none ↔ k ∉ l.map key := by
  unfold find
  simp [mem_map]

theorem find_append : find key k (l ++ l') = (find key k l).or (find key k l') := find?_append

theorem map_key_update (hf : ∀ a, key (f a) = key a) : (update key k f l).map key = l.map key := by
  induction l with
  | nil => rfl
  | cons b l ih =>
    unfold update
    split
    · rw [map_cons, map_cons, hf]
    · rw [map_cons, map_cons, ih]

theorem find_update (hf : ∀ a, key (f a) = key a) (k' : κ) :
    find key k' (update key k f l) = if k' = k then (find key k l).map f else find key k' l := by
  induction l with
  | nil => unfold update find; simp
  | cons b l ih =>
    unfold find at ih ⊢
    unfold update
    by_cases hb : key b = k
    · rw [if_pos hb]
      by_cases hk : k' = k
      · simp [hk, hf, hb]
      · have hbk : key b ≠ k' := fun he => hk (he.symm.trans hb)
        simp [hk, hf, hbk]
    · rw [if_neg hb]
      by_cases hk : k' = k
      · subst hk
        simpa [hb] using ih
      · by_cases hbk : key b = k'
        · simp [hk, hbk]
        · simpa [hk, hbk] using ih

end Mistl.Records
