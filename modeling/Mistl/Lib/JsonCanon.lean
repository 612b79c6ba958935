import Mathlib.Data.List.Sort
import Mistl.Lib.JsonParse
/-!
# JsonCanon — values up to the order of their members

Two values are `same` when their objects agree as maps; `canon` puts the members of every object in the order of their
names (`same_iff_canon`).
-/
open List

namespace Mistl.Json

mutual
def same : Json → Json → Bool
  | .null, .null => true
  | .bool a, .bool b => a == b
  | .int a, .int b => a == b
  | .float a, .float b => a == b
  | .str a, .str b => a == b
  | .arr a, .arr b => sameItems a b
  | .obj a, .obj b => a.length == b.length && sameFields a b
  | _, _ => false
def sameItems : List Json → List Json → Bool
  | [], [] => true
  | a :: as, b :: bs => same a b && sameItems as bs
  | _, _ => false
def sameFields : List (String × Json) → List (String × Json) → Bool
  | [], _ => true
  | (k, a) :: as, bs =>
    (match bs.lookup k with
      | some b => same a b
      | none => false) && sameFields as bs
end

mutual
def Distinct : Json → Prop
  | .null | .bool _ | .int _ | .float _ | .str _ => True
  | .arr items => DistinctItems items
  | .obj fields => (fields.map Prod.fst).Nodup ∧ DistinctFields fields
def DistinctItems : List Json → Prop
  | [] => True
  | j :: l => Distinct j ∧ DistinctItems l
def DistinctFields : List (String × Json) → Prop
  | [] => True
  | (_, j) :: l => Distinct j ∧ DistinctFields l
end

mutual
def Integral : Json → Prop
  | .null | .bool _ | .str _ => True
  | .int n => -(2 ^ 63) ≤ n ∧ n < 2 ^ 64
  | .float _ => False
  | .arr items => IntegralItems items
  | .obj fields => IntegralFields fields
def IntegralItems : List Json → Prop
  | [] => True
  | j :: l => Integral j ∧ IntegralItems l
def IntegralFields : List (String × Json) → Prop
  | [] => True
  | (_, j) :: l => Integral j ∧ IntegralFields l
end

def nameLe (a b : String × Json) : Prop := a.1 ≤ b.1

instance : DecidableRel nameLe := fun a b => inferInstanceAs (Decidable (a.1 ≤ b.1))

mutual
def canon : Json → Json
  | .null => .null
  | .bool b => .bool b
  | .int n => .int n
  | .float text => .float text
  | .str s => .str s
  | .arr items => .arr (canonItems items)
  | .obj fields => .obj ((canonFields fields).insertionSort nameLe)
def canonItems : List Json → List Json
  | [] => []
  | j :: l => canon j :: canonItems l
def canonFields : List (String × Json) → List (String × Json)
  | [] => []
  | (n, j) :: l => (n, canon j) :: canonFields l
end

/-! ## Members -/

theorem canonFields_eq : ∀ fields, canonFields fields = fields.map (fun f => (f.1, canon f.2))
  | [] => rfl
  | (n, j) :: l => by rw [canonFields, canonFields_eq l, map_cons]

theorem distinctFields_iff : ∀ {fields : List (String × Json)}, DistinctFields fields ↔ ∀ f ∈ fields, Distinct f.2
  | [] => by simp [DistinctFields]
  | (n, j) :: l => by simp [DistinctFields, distinctFields_iff]

theorem integralFields_iff : ∀ {fields : List (String × Json)}, IntegralFields fields ↔ ∀ f ∈ fields, Integral f.2
  | [] => by simp [IntegralFields]
  | (n, j) :: l => by simp [IntegralFields, integralFields_iff]

theorem reprFields_iff : ∀ {fields : List (String × Json)}, ReprFields fields ↔ ∀ f ∈ fields, Repr f.2
  | [] => by simp [ReprFields]
  | (n, j) :: l => by simp [ReprFields, reprFields_iff]

theorem nestingFields_le : ∀ {fields : List (String × Json)} {n : Nat}, nestingFields fields ≤ n ↔ ∀ f ∈ fields, nesting f.2 ≤ n
  | [], n => by simp [nestingFields]
  | (k, j) :: l, n => by simp [nestingFields, nestingFields_le]

theorem sameFields_iff : ∀ {a b : List (String × Json)}, sameFields a b = true ↔ ∀ f ∈ a, ∃ j, b.lookup f.1 = some j ∧ same f.2 j = true
  | [], b => by simp [sameFields]
  | (k, x) :: a, b => by
    rw [sameFields, Bool.and_eq_true, sameFields_iff, forall_mem_cons]
    refine and_congr_left' ?_
    cases b.lookup k <;> simp

theorem sort_perm (fields : List (String × Json)) : (fields.insertionSort nameLe).Perm fields := perm_insertionSort nameLe fields

theorem lookup_of_mem : ∀ {fields : List (String × Json)} {k : String} {j : Json}, (fields.map Prod.fst).Nodup →
    (k, j) ∈ fields → fields.lookup k = some j
  | (k', j') :: l, k, j, hnd, hmem => by
    rw [map_cons, nodup_cons] at hnd
    rcases mem_cons.1 hmem with he | htail
    · cases he
      rw [lookup_cons, beq_self_eq_true]
    · have hne : k ≠ k' := by
        rintro rfl
        exact hnd.1 (mem_map.2 ⟨(k, j), htail, rfl⟩)
      rw [lookup_cons, beq_false_of_ne hne]
      exact lookup_of_mem hnd.2 htail

theorem mem_of_lookup : ∀ {fields : List (String × Json)} {k : String} {j : Json}, fields.lookup k = some j → (k, j) ∈ fields
  | (k', j') :: l, k, j, h => by
    rw [lookup_cons] at h
    split at h
    · rename_i hk
      cases h
      rw [beq_iff_eq.1 hk]
      exact mem_cons_self
    · exact mem_cons_of_mem _ (mem_of_lookup h)

/-! ## The canonical form -/

theorem canonFields_keys (fields : List (String × Json)) : (canonFields fields).map Prod.fst = fields.map Prod.fst := by
  rw [canonFields_eq, map_map]
  rfl

theorem sort_eq_of_perm {a b : List (String × Json)} (ha : (a.map Prod.fst).Nodup) (h : a.Perm b) :
    a.insertionSort nameLe = b.insertionSort nameLe := by
  have htrans : IsTrans (String × Json) nameLe := ⟨fun _ _ _ h h' => String.le_trans h h'⟩
  have htotal : Std.Total (α := String × Json) nameLe := ⟨fun x y => String.le_total x.1 y.1⟩
  refine Perm.eq_of_pairwise ?_ (pairwise_insertionSort nameLe a) (pairwise_insertionSort nameLe b)
    ((sort_perm a).trans (h.trans (sort_perm b).symm))
  intro x y hx hy hxy hyx
  have hx := (sort_perm a).subset hx
  have hy := h.symm.subset ((sort_perm b).subset hy)
  exact inj_on_of_nodup_map ha hx hy (String.le_antisymm hxy hyx)

mutual
theorem canon_eq_of_same : ∀ {a b : Json}, Distinct a → Distinct b → same a b = true → canon a = canon b
  | .null, b, _, _, h | .bool _, b, _, _, h | .int _, b, _, _, h | .float _, b, _, _, h | .str _, b, _, _, h =>
    by cases b <;> simp_all [same]
  | .arr a, b, ha, hb, h => by
    cases b with
    | arr b => rw [canon, canon, canonItems_eq_of_same ha hb h]
    | _ => rw [same] at h <;> cases h
  | .obj a, b, ha, hb, h => by
    cases b with
    | obj b =>
      rw [same, Bool.and_eq_true, beq_iff_eq] at h
      have hkeys : ((canonFields a).map Prod.fst).Nodup := by
        rw [canonFields_keys]
        exact ha.1
      have hsub := canonFields_subset_of_same ha.2 hb.2 h.2
      have hlen : (canonFields b).length ≤ (canonFields a).length := by
        rw [canonFields_eq, canonFields_eq, length_map, length_map, h.1]
      have hperm : (canonFields a).Perm (canonFields b) := (subperm_of_subset hkeys.of_map hsub).perm_of_length_le hlen
      rw [canon, canon, sort_eq_of_perm hkeys hperm]
    | _ => rw [same] at h <;> cases h
theorem canonItems_eq_of_same : ∀ {a b : List Json}, DistinctItems a → DistinctItems b → sameItems a b = true →
    canonItems a = canonItems b
  | [], b, _, _, h => by cases b <;> simp_all [sameItems]
  | x :: a, b, ha, hb, h => by
    cases b with
    | nil => rw [sameItems] at h <;> cases h
    | cons y b =>
      rw [sameItems, Bool.and_eq_true] at h
      rw [canonItems, canonItems, canon_eq_of_same ha.1 hb.1 h.1, canonItems_eq_of_same ha.2 hb.2 h.2]
theorem canonFields_subset_of_same : ∀ {a b : List (String × Json)}, DistinctFields a → DistinctFields b →
    sameFields a b = true → canonFields a ⊆ canonFields b
  | [], b, _, _, _ => by
    exact nil_subset _
  | (k, x) :: a, b, ha, hb, h => by
    rw [sameFields, Bool.and_eq_true] at h
    rw [canonFields, cons_subset]
    refine ⟨?_, canonFields_subset_of_same ha.2 hb h.2⟩
    cases hl : b.lookup k with
    | none =>
      rw [hl] at h
      exact absurd h.1 (by simp)
    | some y =>
      rw [hl] at h
      have hmem := mem_of_lookup hl
      rw [canon_eq_of_same ha.1 (distinctFields_iff.1 hb _ hmem) h.1, canonFields_eq]
      exact mem_map.2 ⟨_, hmem, rfl⟩
end

mutual
theorem same_of_canon_eq : ∀ {a b : Json}, Distinct b → canon a = canon b → same a b = true
  | .null, b, _, h | .bool _, b, _, h | .int _, b, _, h | .float _, b, _, h | .str _, b, _, h => by cases b <;> simp_all [same, canon]
  | .arr a, b, hb, h => by
    cases b with
    | arr b =>
      rw [canon, canon, Json.arr.injEq] at h
      exact sameItems_of_canon_eq hb h
    | _ => simp [canon] at h
  | .obj a, b, hb, h => by
    cases b with
    | obj b =>
      rw [canon, canon, Json.obj.injEq] at h
      have hperm : (canonFields a).Perm (canonFields b) := by
        refine (sort_perm _).symm.trans ?_
        rw [h]
        exact sort_perm _
      have hlen := hperm.length_eq
      rw [canonFields_eq, canonFields_eq, length_map, length_map] at hlen
      rw [same, Bool.and_eq_true, beq_iff_eq]
      exact ⟨hlen, sameFields_of_subset hb.1 hb.2 hperm.subset⟩
    | _ => simp [canon] at h
theorem sameItems_of_canon_eq : ∀ {a b : List Json}, DistinctItems b → canonItems a = canonItems b → sameItems a b = true
  | [], b, _, h => by cases b <;> simp_all [sameItems, canonItems]
  | x :: a, b, hb, h => by
    cases b with
    | nil => simp [canonItems] at h
    | cons y b =>
      rw [DistinctItems] at hb
      rw [canonItems, canonItems, cons.injEq] at h
      rw [sameItems, Bool.and_eq_true]
      exact ⟨same_of_canon_eq hb.1 h.1, sameItems_of_canon_eq hb.2 h.2⟩
theorem sameFields_of_subset : ∀ {a b : List (String × Json)}, (b.map Prod.fst).Nodup → DistinctFields b →
    canonFields a ⊆ canonFields b → sameFields a b = true
  | [], b, _, _, _ => by rw [sameFields]
  | (k, x) :: a, b, hnd, hb, h => by
    rw [canonFields, cons_subset] at h
    have hmem := h.1
    rw [canonFields_eq] at hmem
    obtain ⟨⟨k', y⟩, hy, he⟩ := mem_map.1 hmem
    obtain ⟨rfl, hc⟩ := Prod.mk.inj he
    rw [sameFields, Bool.and_eq_true, lookup_of_mem hnd hy]
    exact ⟨same_of_canon_eq (distinctFields_iff.1 hb _ hy) hc.symm, sameFields_of_subset hnd hb h.2⟩
end

theorem same_iff_canon {a b : Json} (ha : Distinct a) (hb : Distinct b) : same a b = true ↔ canon a = canon b :=
  ⟨canon_eq_of_same ha hb, same_of_canon_eq hb⟩

mutual
theorem canon_repr : ∀ {j : Json}, Integral j → Repr (canon j) ∧ nesting (canon j) ≤ nesting j
  | .null, _ | .bool _, _ | .str _, _ => by simp [canon, Repr]
  | .int n, h => by
    exact ⟨h, le_refl _⟩
  | .float _, h => by
    exact h.elim
  | .arr items, h => by
    have := canonItems_repr h
    exact ⟨this.1, Nat.add_le_add_right this.2 1⟩
  | .obj fields, h => by
    have hall := canonFields_repr h
    rw [canon, Repr, reprFields_iff]
    refine ⟨fun f hf => (hall f ((sort_perm _).subset hf)).1, Nat.add_le_add_right ?_ 1⟩
    rw [nestingFields_le]
    exact fun f hf => (hall f ((sort_perm _).subset hf)).2
theorem canonItems_repr : ∀ {items : List Json}, IntegralItems items →
    ReprItems (canonItems items) ∧ nestingItems (canonItems items) ≤ nestingItems items
  | [], _ => by simp [canonItems, ReprItems]
  | j :: l, h => by
    have h1 := canon_repr h.1
    have h2 := canonItems_repr h.2
    exact ⟨⟨h1.1, h2.1⟩, max_le_max h1.2 h2.2⟩
theorem canonFields_repr : ∀ {fields : List (String × Json)}, IntegralFields fields →
    ∀ f ∈ canonFields fields, Repr f.2 ∧ nesting f.2 ≤ nestingFields fields
  | [], _ => nofun
  | (k, j) :: l, h => by
    have h1 := canon_repr h.1
    have h2 := canonFields_repr h.2
    rw [canonFields, forall_mem_cons]
    exact ⟨⟨h1.1, h1.2.trans (le_max_left _ _)⟩, fun f hf => ⟨(h2 f hf).1, (h2 f hf).2.trans (le_max_right _ _)⟩⟩
end

theorem write_inj {a b : Json} (ha : Repr a) (hb : Repr b) (h : write a = write b) : a = b := by
  have hpa := parseWithin_write ha (show nesting a < max (nesting a) (nesting b) + 1 by omega)
  have hpb := parseWithin_write hb (show nesting b < max (nesting a) (nesting b) + 1 by omega)
  rw [h, hpb] at hpa
  exact (Option.some.inj hpa).symm

mutual
theorem same_canon : ∀ {j : Json}, Distinct j → same (canon j) j = true
  | .null, _ | .bool _, _ | .int _, _ | .float _, _ | .str _, _ => by simp [same, canon]
  | .arr items, h => by
    exact sameItems_canon h
  | .obj fields, h => by
    have hall := sameFields_canon h.2
    rw [canon, same, Bool.and_eq_true, beq_iff_eq, (sort_perm _).length_eq, canonFields_eq, length_map, sameFields_iff]
    refine ⟨rfl, fun f hf => ?_⟩
    obtain ⟨⟨k, v⟩, hv, rfl⟩ := mem_map.1 ((sort_perm _).subset hf)
    exact ⟨v, lookup_of_mem h.1 hv, hall _ hv⟩
theorem sameItems_canon : ∀ {items : List Json}, DistinctItems items → sameItems (canonItems items) items = true
  | [], _ => by rw [canonItems, sameItems]
  | j :: l, h => by
    rw [canonItems, sameItems, same_canon h.1, sameItems_canon h.2]
    rfl
theorem sameFields_canon : ∀ {fields : List (String × Json)}, DistinctFields fields → ∀ f ∈ fields, same (canon f.2) f.2 = true
  | [], _ => nofun
  | (k, j) :: l, h => by
    rw [forall_mem_cons]
    exact ⟨same_canon h.1, sameFields_canon h.2⟩
end

@[simp] theorem same_int {a b : Int} : same (.int a) (.int b) = true ↔ a = b := by simp [same]

@[simp] theorem same_str {a b : String} : same (.str a) (.str b) = true ↔ a = b := by simp [same]

theorem same_obj_forall₂ {f g : List (String × Json)} (h : same (.obj f) (.obj g) = true)
    (hnames : f.map Prod.fst = g.map Prod.fst) (hnd : (g.map Prod.fst).Nodup) :
    List.Forall₂ (fun a b => same a.2 b.2 = true) f g := by
  rw [same, Bool.and_eq_true, beq_iff_eq, sameFields_iff] at h
  refine forall₂_iff_get.2 ⟨h.1, fun i hf hg => ?_⟩
  obtain ⟨j, hj, hs⟩ := h.2 _ (get_mem f ⟨i, hf⟩)
  have hname : (f.get ⟨i, hf⟩).1 = (g.get ⟨i, hg⟩).1 := by
    have := congrArg (fun l => l[i]?) hnames
    simpa [hf, hg] using this
  rw [hname, lookup_of_mem hnd (get_mem g ⟨i, hg⟩)] at hj
  cases hj
  exact hs

end Mistl.Json
