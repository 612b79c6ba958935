import Mathlib.Data.Finmap
import Mathlib.Algebra.BigOperators.Group.Multiset.Basic
import Mathlib.Algebra.Order.BigOperators.Group.Multiset
import Mathlib.Algebra.Order.Group.Nat
import Mathlib.Algebra.GroupWithZero.Nat
/-!
# Table — finite maps with totals

A hash map whose iteration order is unspecified is a `Finmap`; what a program reads off it by iterating is a sum over
its entries.
-/
open List

namespace Mistl

def Table (κ ν : Type) := Finmap fun _ : κ => ν

namespace Table

variable {κ ν : Type}

def empty : Table κ ν := (∅ : Finmap (fun _ : κ => ν))

instance : EmptyCollection (Table κ ν) := ⟨empty⟩
instance : Inhabited (Table κ ν) := ⟨∅⟩

def entries (m : Table κ ν) : Multiset (Sigma (fun _ : κ => ν)) := Finmap.entries m

/-- The sum of `f` over the entries. -/
def total (f : κ → ν → Nat) (m : Table κ ν) : Nat := (m.entries.map (fun e => f e.1 e.2)).sum

def size (m : Table κ ν) : Nat := m.entries.card

theorem size_eq_total (m : Table κ ν) : m.size = m.total (fun _ _ => 1) := by
  simp [size, total]

@[simp] theorem total_empty (f : κ → ν → Nat) : total f (∅ : Table κ ν) = 0 := rfl

@[simp] theorem size_empty : size (∅ : Table κ ν) = 0 := rfl

variable {f g : κ → ν → Nat}

theorem total_mono (m : Table κ ν) (h : ∀ e ∈ m.entries, f e.1 e.2 ≤ g e.1 e.2) :
    m.total f ≤ m.total g := Multiset.sum_map_le_sum_map _ _ h

theorem total_congr (m : Table κ ν) (h : ∀ e ∈ m.entries, f e.1 e.2 = g e.1 e.2) : m.total f = m.total g := by
  unfold total
  rw [Multiset.map_congr rfl h]

/-- The entries `p` keeps. -/
def filter (p : κ → ν → Bool) (m : Table κ ν) : Table κ ν := ⟨m.entries.filter (fun e => p e.1 e.2 = true), by
    have h : (m.entries.filter (fun e => p e.1 e.2 = true)).keys ≤ m.entries.keys := Multiset.map_le_map (Multiset.filter_le _ _)
    exact Multiset.nodup_keys.1 (Multiset.nodup_of_le h (Multiset.nodup_keys.2 (Finmap.nodupKeys m)))⟩

/-- The entries `f` keeps, as it leaves them. -/
def filterMap (f : κ → ν → Option ν) (m : Table κ ν) : Table κ ν :=
  ⟨m.entries.filterMap (fun e => (f e.1 e.2).map (fun v => ⟨e.1, v⟩)), by
    have hkeys : (m.entries.filterMap (fun e => (f e.1 e.2).map (fun v => (⟨e.1, v⟩ : Sigma (fun _ : κ => ν))))).keys
        = (m.entries.filter (fun e => (f e.1 e.2).isSome = true)).map Sigma.fst := by
      unfold Multiset.keys
      rw [Multiset.map_filterMap, Multiset.map_filter_eq_filterMap]
      congr 1
      funext e
      cases f e.1 e.2 <;> rfl
    refine Multiset.nodup_keys.1 (Multiset.nodup_of_le ?_ (Multiset.nodup_keys.2 (Finmap.nodupKeys m)))
    rw [hkeys]
    exact Multiset.map_le_map (Multiset.filter_le _ _)⟩

/-- Whether `p` holds of every entry. -/
def all (p : κ → ν → Bool) (m : Table κ ν) : Bool := decide (∀ e ∈ m.entries, p e.1 e.2 = true)

def keys (m : Table κ ν) : Finset κ := Finmap.keys m

theorem card_keys (m : Table κ ν) : m.keys.card = m.size := Multiset.card_map _ _

variable [DecidableEq κ]

instance [DecidableEq ν] : DecidableEq (Table κ ν) := inferInstanceAs (DecidableEq (Finmap (fun _ : κ => ν)))

def get (m : Table κ ν) (k : κ) : Option ν := Finmap.lookup k m

def contains (m : Table κ ν) (k : κ) : Bool := (m.get k).isSome

def insert (m : Table κ ν) (k : κ) (v : ν) : Table κ ν := Finmap.insert k v m

def erase (m : Table κ ν) (k : κ) : Table κ ν := Finmap.erase k m

@[ext] theorem ext {m n : Table κ ν} (h : ∀ k, m.get k = n.get k) : m = n := Finmap.ext_lookup h

@[simp] theorem get_empty (k : κ) : (∅ : Table κ ν).get k = none := rfl

theorem get_insert (m : Table κ ν) (k x : κ) (v : ν) : (m.insert k v).get x = if x = k then some v else m.get x := by
  split
  · rename_i h; subst h; exact Finmap.lookup_insert _
  · rename_i h; exact Finmap.lookup_insert_of_ne _ h

theorem get_erase (m : Table κ ν) (k x : κ) : (m.erase k).get x = if x = k then none else m.get x := by
  split
  · rename_i h; subst h; exact Finmap.lookup_erase _ _
  · rename_i h; exact Finmap.lookup_erase_ne h

@[simp] theorem get_insert_self (m : Table κ ν) (k : κ) (v : ν) : (m.insert k v).get k = some v := by
  rw [get_insert, if_pos rfl]

@[simp] theorem get_erase_self (m : Table κ ν) (k : κ) : (m.erase k).get k = none := by
  rw [get_erase, if_pos rfl]

theorem get_insert_ne {k x : κ} (h : x ≠ k) (m : Table κ ν) (v : ν) : (m.insert k v).get x = m.get x := by
  rw [get_insert, if_neg h]

theorem get_erase_ne {k x : κ} (h : x ≠ k) (m : Table κ ν) : (m.erase k).get x = m.get x := by
  rw [get_erase, if_neg h]

variable {m : Table κ ν}

theorem of_get_insert {k x : κ} {v w : ν} (h : (m.insert k v).get x = some w) : x = k ∧ v = w ∨ x ≠ k ∧ m.get x = some w := by
  by_cases hx : x = k
  · rw [hx, get_insert_self] at h
    exact .inl ⟨hx, Option.some.inj h⟩
  · exact .inr ⟨hx, get_insert_ne hx m v ▸ h⟩

variable {v : ν}

theorem of_get_erase {k x : κ} (h : (m.erase k).get x = some v) : x ≠ k ∧ m.get x = some v := by
  by_cases hx : x = k
  · rw [hx, get_erase_self] at h
    cases h
  · exact ⟨hx, get_erase_ne hx m ▸ h⟩

variable {k : κ}

theorem get_eq_some_iff : m.get k = some v ↔ ⟨k, v⟩ ∈ m.entries := Finmap.lookup_eq_some_iff

theorem contains_iff : m.contains k = true ↔ ∃ v, m.get k = some v := Option.isSome_iff_exists

theorem contains_eq_false : m.contains k = false ↔ m.get k = none := by
  unfold contains
  cases m.get k <;> simp

theorem all_eq_true {p : κ → ν → Bool} : m.all p = true ↔ ∀ k v, m.get k = some v → p k v = true := by
  rw [all, decide_eq_true_iff]
  exact ⟨fun h k v hg => h ⟨k, v⟩ (get_eq_some_iff.1 hg), fun h e he => h e.1 e.2 (get_eq_some_iff.2 he)⟩

theorem get_filter (p : κ → ν → Bool) (m : Table κ ν) (k : κ) : (m.filter p).get k = (m.get k).filter (p k) := by
  refine Option.ext (fun v => ?_)
  rw [get_eq_some_iff, Option.filter_eq_some_iff, get_eq_some_iff]
  exact Multiset.mem_filter

theorem get_filterMap (f : κ → ν → Option ν) (m : Table κ ν) (k : κ) : (m.filterMap f).get k = (m.get k).bind (f k) := by
  refine Option.ext (fun v => ?_)
  rw [get_eq_some_iff, Option.bind_eq_some_iff]
  refine (Multiset.mem_filterMap _ _).trans ⟨?_, ?_⟩
  · rintro ⟨e, he, heq⟩
    obtain ⟨w, hw, hpair⟩ := Option.map_eq_some_iff.1 heq
    cases hpair
    exact ⟨e.2, get_eq_some_iff.2 he, hw⟩
  · rintro ⟨w, hw, hv⟩
    exact ⟨⟨k, w⟩, get_eq_some_iff.1 hw, by rw [hv]; rfl⟩

omit [DecidableEq κ] in
theorem total_filter_add_not (f : κ → ν → Nat) (p : κ → ν → Bool) (m : Table κ ν) :
    (m.filter p).total f + (m.filter (fun k v => !p k v)).total f = m.total f := by
  have hnot : m.entries.filter (fun e => (!p e.1 e.2) = true) = m.entries.filter (fun e => ¬ p e.1 e.2 = true) := by
    refine Multiset.filter_congr (fun e _ => ?_)
    rw [Bool.not_eq_true', Bool.not_eq_true]
  have hsum : (m.filter p).entries + (m.filter (fun k v => !p k v)).entries = m.entries := by
    show m.entries.filter _ + m.entries.filter _ = _
    rw [hnot]
    exact Multiset.filter_add_not _ _
  unfold total
  rw [← Multiset.sum_add, ← Multiset.map_add, hsum]

theorem eq_empty_iff : m = ∅ ↔ ∀ k, m.get k = none := by
  constructor
  · rintro rfl k; rfl
  · intro h; ext1 k; rw [h k, get_empty]

omit [DecidableEq κ] in
theorem size_eq_zero : m.size = 0 ↔ m = ∅ := by
  unfold size
  rw [Multiset.card_eq_zero]
  exact Finmap.ext_iff' (t := (∅ : Finmap (fun _ : κ => ν)))

theorem size_ne_zero (h : m.get k = some v) : m.size ≠ 0 := by
  intro h0
  rw [size_eq_zero.1 h0] at h
  cases h

theorem insert_eq_insert_erase (m : Table κ ν) (k : κ) (v : ν) : m.insert k v = (m.erase k).insert k v := by
  ext1 x
  simp only [get_insert, get_erase]
  split <;> rfl

theorem insert_erase_of_get (h : m.get k = some v) : (m.erase k).insert k v = m := by
  ext1 x
  simp only [get_insert, get_erase]
  split
  · rename_i hx; rw [hx, h]
  · rfl

theorem erase_of_get_none (h : m.get k = none) : m.erase k = m := by
  ext1 x
  rw [get_erase]
  split
  · rename_i hx; rw [hx, h]
  · rfl

theorem insert_of_get (h : m.get k = some v) : m.insert k v = m := by
  rw [insert_eq_insert_erase, insert_erase_of_get h]

theorem total_insert (f : κ → ν → Nat) (h : m.get k = none) (v : ν) : (m.insert k v).total f = f k v + m.total f := by
  have he : (m.insert k v).entries = ⟨k, v⟩ ::ₘ m.entries := Finmap.entries_insert_of_notMem (Finmap.lookup_eq_none.1 h)
  unfold total
  rw [he, Multiset.map_cons, Multiset.sum_cons]

theorem total_erase (f : κ → ν → Nat) (h : m.get k = some v) : f k v + (m.erase k).total f = m.total f := by
  conv => rhs; rw [← insert_erase_of_get h]
  rw [total_insert f (get_erase_self m k)]

theorem total_replace (f : κ → ν → Nat) (h : m.get k = some v) (w : ν) : f k v + (m.insert k w).total f = f k w + m.total f := by
  rw [insert_eq_insert_erase, total_insert f (get_erase_self m k), ← total_erase f h]
  omega

theorem le_total (f : κ → ν → Nat) (h : m.get k = some v) : f k v ≤ m.total f := by
  rw [← total_erase f h]
  exact Nat.le_add_right _ _

def amountAt (f : κ → ν → Nat) (m : Table κ ν) (k : κ) : Nat := (m.get k).elim 0 (f k)

theorem total_erase_at 
    (h : ∀ x v, x ≠ k → m.get x = some v → g x v = f x v) : (m.erase k).total g + m.amountAt f k = m.total f := by
  have hcongr : (m.erase k).total g = (m.erase k).total f := by
    refine total_congr _ (fun e he => ?_)
    have hg := get_eq_some_iff.2 he
    rw [get_erase] at hg
    split at hg
    · cases hg
    · rename_i hne; exact h e.1 e.2 hne hg
  rw [hcongr, amountAt]
  cases hk : m.get k with
  | none => rw [erase_of_get_none hk]; rfl
  | some v => rw [← total_erase f hk, Nat.add_comm]; rfl

theorem total_insert_at (v : ν) (h : ∀ x w, x ≠ k → m.get x = some w → g x w = f x w) :
    (m.insert k v).total g + m.amountAt f k = g k v + m.total f := by
  rw [insert_eq_insert_erase, total_insert g (get_erase_self m k), Nat.add_assoc, total_erase_at h]

theorem size_insert (h : m.get k = none) (v : ν) : (m.insert k v).size = m.size + 1 := by
  rw [size_eq_total, size_eq_total, total_insert _ h, Nat.add_comm]

theorem size_erase (h : m.get k = some v) : (m.erase k).size + 1 = m.size := by
  rw [size_eq_total, size_eq_total, ← total_erase _ h, Nat.add_comm]

theorem size_replace (h : m.get k = some v) (w : ν) : (m.insert k w).size = m.size := by
  have := total_replace (fun _ _ => 1) h w
  rw [size_eq_total, size_eq_total]
  omega

/-! ## Keys -/

theorem mem_keys : k ∈ m.keys ↔ m.get k ≠ none := by
  rw [Option.ne_none_iff_isSome]
  exact Finmap.mem_keys.trans Finmap.lookup_isSome.symm

theorem size_le_of_keys {μ : Type} {n : Table κ μ} (h : ∀ k v, m.get k = some v → n.get k ≠ none) : m.size ≤ n.size := by
  rw [← card_keys m, ← card_keys n]
  refine Finset.card_le_card (fun k hk => mem_keys.2 ?_)
  obtain ⟨v, hv⟩ := Option.ne_none_iff_exists'.1 (mem_keys.1 hk)
  exact h k v hv

theorem keys_insert (m : Table κ ν) (k : κ) (v : ν) : (m.insert k v).keys = Insert.insert k m.keys := by
  ext x
  rw [Finset.mem_insert, mem_keys, mem_keys, get_insert]
  split <;> simp_all

theorem keys_erase_subset (m : Table κ ν) (k : κ) : (m.erase k).keys ⊆ m.keys := by
  intro x hx
  rw [mem_keys, get_erase] at hx
  split at hx
  · exact absurd rfl hx
  · exact mem_keys.2 hx

/-! ## Many entries at once -/

def insertAll (key : ν → κ) (l : List ν) (m : Table κ ν) : Table κ ν := l.foldl (fun m v => m.insert (key v) v) m

theorem get_insertAll (key : ν → κ) : ∀ (l : List ν) (m : Table κ ν) {k : κ} {v : ν},
    (insertAll key l m).get k = some v → (v ∈ l ∧ key v = k) ∨ m.get k = some v
  | [], _, _, _, h => .inr h
  | w :: l, m, k, v, h => by
    rcases get_insertAll key l (m.insert (key w) w) h with ⟨hm, hk⟩ | hg
    · exact .inl ⟨mem_cons_of_mem _ hm, hk⟩
    · rw [get_insert] at hg
      split at hg
      · rename_i hk
        cases hg
        exact .inl ⟨mem_cons_self, hk.symm⟩
      · exact .inr hg

theorem get_insertAll_of_agrees (key : ν → κ) : ∀ (l : List ν) (m : Table κ ν) {k : κ} {v : ν},
    (∀ x ∈ l, key x = k → x = v) → m.get k = some v → (insertAll key l m).get k = some v
  | [], _, _, _, _, hg => hg
  | w :: l, m, k, v, hag, hg => by
    refine get_insertAll_of_agrees key l (m.insert (key w) w) (fun x hx => hag x (mem_cons_of_mem _ hx)) ?_
    rw [get_insert]
    split
    · rename_i hk
      rw [hag w mem_cons_self hk.symm]
    · exact hg

theorem get_insertAll_of_mem (key : ν → κ) : ∀ (l : List ν) (m : Table κ ν) {v : ν}, (l.map key).Nodup → v ∈ l →
    (insertAll key l m).get (key v) = some v
  | [], _, _, _, hv => absurd hv not_mem_nil
  | w :: l, m, v, hnd, hv => by
    rw [map_cons, nodup_cons] at hnd
    rcases mem_cons.1 hv with rfl | hv
    · refine get_insertAll_of_agrees key l _ (fun x hx hk => ?_) (get_insert_self ..)
      exact absurd (mem_map.2 ⟨x, hx, hk⟩) hnd.1
    · exact get_insertAll_of_mem key l (m.insert (key w) w) hnd.2 hv

theorem insertAll_of_get (key : ν → κ) : ∀ (l : List ν) {m : Table κ ν}, (∀ v ∈ l, m.get (key v) = some v) → insertAll key l m = m
  | [], _, _ => rfl
  | v :: l, m, h => by
    have hv : m.insert (key v) v = m := insert_of_get (h v mem_cons_self)
    rw [insertAll, foldl_cons, hv]
    exact insertAll_of_get key l (fun w hw => h w (mem_cons_of_mem _ hw))

theorem total_insertAll (f : κ → ν → Nat) (key : ν → κ) : ∀ (l : List ν) (m : Table κ ν), (l.map key).Nodup →
    (∀ v ∈ l, ∀ w, m.get (key v) = some w → w = v) →
    (insertAll key l m).total f
      = m.total f + ((l.filter (fun v => !m.contains (key v))).map (fun v => f (key v) v)).sum
  | [], m, _, _ => by simp [insertAll]
  | v :: l, m, hnd, hag => by
    rw [map_cons, nodup_cons] at hnd
    have hne : ∀ x ∈ l, key x ≠ key v := fun x hx he => hnd.1 (mem_map.2 ⟨x, hx, he⟩)
    have ih := total_insertAll f key l (m.insert (key v) v) hnd.2 (fun x hx w hw => by
      rw [get_insert_ne (hne x hx)] at hw
      exact hag x (mem_cons_of_mem _ hx) w hw)
    have hfilter : l.filter (fun x => !(m.insert (key v) v).contains (key x))
        = l.filter (fun x => !m.contains (key x)) := by
      refine filter_congr (fun x hx => ?_)
      rw [contains, contains, get_insert_ne (hne x hx)]
    rw [insertAll, foldl_cons, ← insertAll, ih, hfilter, filter_cons]
    cases hg : m.get (key v) with
    | none =>
      rw [total_insert f hg, contains_eq_false.2 hg]
      simp only [Bool.not_false, if_true, map_cons, List.sum_cons]
      omega
    | some w =>
      rw [hag v mem_cons_self w hg] at hg
      rw [insert_of_get hg, contains_iff.2 ⟨v, hg⟩]
      simp

theorem size_insertAll (key : ν → κ) (l : List ν) (m : Table κ ν) (hnd : (l.map key).Nodup)
    (hag : ∀ v ∈ l, ∀ w, m.get (key v) = some w → w = v) :
    (insertAll key l m).size = m.size + (l.filter (fun v => !m.contains (key v))).length := by
  rw [size_eq_total, size_eq_total, total_insertAll _ key l m hnd hag, map_const', sum_replicate]
  exact congrArg _ (Nat.mul_one _)

def insertEach (l : List (κ × ν)) (m : Table κ ν) : Table κ ν := l.foldl (fun m e => m.insert e.1 e.2) m

theorem insertEach_append (l l' : List (κ × ν)) (m : Table κ ν) :
    insertEach (l ++ l') m = insertEach l' (insertEach l m) := foldl_append

theorem get_insertEach : ∀ (l : List (κ × ν)) (m : Table κ ν) {k : κ} {v : ν},
    (insertEach l m).get k = some v → (k, v) ∈ l ∨ m.get k = some v
  | [], _, _, _, h => .inr h
  | e :: l, m, k, v, h => by
    rcases get_insertEach l (m.insert e.1 e.2) h with hm | hg
    · exact .inl (mem_cons_of_mem _ hm)
    · rw [get_insert] at hg
      split at hg
      · rename_i hk
        cases hg
        exact .inl (by rw [hk]; exact mem_cons_self)
      · exact .inr hg

theorem insertEach_ne_none : ∀ (l : List (κ × ν)) (m : Table κ ν) {k : κ},
    (∃ v, (k, v) ∈ l) ∨ m.get k ≠ none → (insertEach l m).get k ≠ none
  | [], _, _, h => h.resolve_left (fun ⟨_, hv⟩ => not_mem_nil hv)
  | e :: l, m, k, h => by
    refine insertEach_ne_none l (m.insert e.1 e.2) ?_
    rcases h with ⟨v, hv⟩ | hg
    · rcases mem_cons.1 hv with rfl | hv
      · exact .inr (by rw [get_insert_self]; exact nofun)
      · exact .inl ⟨v, hv⟩
    · refine .inr ?_
      rw [get_insert]
      split
      · exact nofun
      · exact hg

end Table
end Mistl
