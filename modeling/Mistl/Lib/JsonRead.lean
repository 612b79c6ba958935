import Mistl.Lib.JsonParse
/-!
# JsonRead — what a text reads as

`parse` yields only values its own compact text carries: integers of 64 bits, numbers that read as themselves,
containers nested less than the limit (`parse_repr`).
-/
open List

namespace Mistl.Json

/-! ## Numbers -/

variable {ds rest : List Char}

theorem Follow.takeWhile (hds : ∀ c ∈ ds, c.isDigit = true) (hf : Follow rest) : (ds ++ rest).takeWhile Char.isDigit = ds := by
  rw [takeWhile_append_of_pos hds]
  cases rest with
  | nil => rw [takeWhile_nil, append_nil]
  | cons c t => rw [takeWhile_cons_of_neg (by simp [(hf c t rfl).1]), append_nil]

theorem Follow.dropWhile (hds : ∀ c ∈ ds, c.isDigit = true) (hf : Follow rest) : (ds ++ rest).dropWhile Char.isDigit = rest := by
  rw [dropWhile_append_of_pos hds]
  cases rest with
  | nil => rfl
  | cons c t => rw [dropWhile_cons_of_neg (by simp [(hf c t rfl).1])]

theorem takeWhile_digits_cons {c : Char} (hds : ∀ c ∈ ds, c.isDigit = true) (hc : c.isDigit = false) :
    (ds ++ c :: rest).takeWhile Char.isDigit = ds ∧ (ds ++ c :: rest).dropWhile Char.isDigit = c :: rest := by
  rw [takeWhile_append_of_pos hds, dropWhile_append_of_pos hds, takeWhile_cons_of_neg (by simp [hc]),
    dropWhile_cons_of_neg (by simp [hc]), append_nil]
  exact ⟨rfl, rfl⟩

theorem all_takeWhile (cs : List Char) : ∀ c ∈ cs.takeWhile Char.isDigit, c.isDigit = true :=
  fun _ hc => List.all_eq_true.1 List.all_takeWhile _ hc

def signOf (cs : List Char) : List Char := (cs.take 1).filter fun c => c == '+' || c == '-'

theorem signOf_append {cs ds rest : List Char} (hds : ∀ c ∈ ds, c.isDigit = true) (hne : ds ≠ []) :
    signOf (signOf cs ++ ds ++ rest) = signOf cs := by
  obtain ⟨d, ds, rfl⟩ := exists_cons_of_ne_nil hne
  have hd := hds d mem_cons_self
  have hsign : (d == '+' || d == '-') = false := by
    cases hb : (d == '+' || d == '-') with
    | false => rfl
    | true =>
      rw [Bool.or_eq_true, beq_iff_eq, beq_iff_eq] at hb
      rcases hb with rfl | rfl <;> exact absurd hd (by decide)
  cases cs with
  | nil => simp [signOf, hsign]
  | cons c t =>
    by_cases hc : (c == '+' || c == '-') = true
    · simp [signOf, hc]
    · simp [signOf, Bool.eq_false_iff.2 hc, hsign]

theorem readExponent_again {cs text r : List Char} (h : readExponent cs = some (text, r)) {rest : List Char}
    (hf : Follow rest) : readExponent (text ++ rest) = some (text, rest) := by
  unfold readExponent at h
  simp only at h
  split at h
  · cases h
  · rename_i hne
    obtain ⟨rfl, -⟩ := h
    have hds := all_takeWhile (cs.drop (signOf cs).length)
    have hsign := @signOf_append cs _ rest hds hne
    unfold readExponent
    simp only
    rw [show List.filter (fun c => c == '+' || c == '-') (List.take 1 cs) = signOf cs from rfl] at hne ⊢
    rw [show List.filter (fun c => c == '+' || c == '-') (List.take 1 (signOf cs ++
      (List.drop (signOf cs).length cs).takeWhile Char.isDigit ++ rest)) = signOf cs from hsign]
    rw [append_assoc, drop_left, Follow.takeWhile hds hf, Follow.dropWhile hds hf, if_neg hne]

def pointOf (cs : List Char) : Option (List Char × List Char) :=
  match cs with
  | '.' :: cs =>
    let ds := cs.takeWhile Char.isDigit
    if ds = [] then none else some ('.' :: ds, cs.dropWhile Char.isDigit)
  | cs => some ([], cs)

def exponentOf (text : List Char) : List Char → Option (List Char × List Char)
  | c :: cs => if c = 'e' ∨ c = 'E' then (readExponent cs).map (fun r => (text ++ c :: r.1, r.2)) else some (text, c :: cs)
  | [] => some (text, [])

theorem readFraction_eq (cs : List Char) : readFraction cs = (pointOf cs).bind (fun p => exponentOf p.1 p.2) := by
  unfold readFraction
  extract_lets point
  have hpoint : pointOf cs = point := rfl
  rw [hpoint]
  cases point with
  | none => rfl
  | some p =>
    obtain ⟨text, cs⟩ := p
    cases cs <;> rfl

theorem exponentOf_again {text cs t r : List Char} (h : exponentOf text cs = some (t, r)) :
    ∃ ex, t = text ++ ex ∧ (∀ rest, Follow rest → ∀ c u, ex ++ rest = c :: u → c.isDigit = false ∧ c ≠ '.') ∧
      ∀ rest, Follow rest → ∀ text, exponentOf text (ex ++ rest) = some (text ++ ex, rest) := by
  have hnone : t = text → ∃ ex, t = text ++ ex ∧ (∀ rest, Follow rest → ∀ c u, ex ++ rest = c :: u → c.isDigit = false ∧ c ≠ '.') ∧
      ∀ rest, Follow rest → ∀ text, exponentOf text (ex ++ rest) = some (text ++ ex, rest) := by
    intro ht
    refine ⟨[], by rw [ht, append_nil], fun rest hf c u hu => ?_, fun rest hf text => ?_⟩
    · obtain ⟨hd, hp, -, -⟩ := hf c u hu
      exact ⟨hd, hp⟩
    · rw [append_nil]
      cases rest with
      | nil => rfl
      | cons c u =>
        obtain ⟨-, -, he, hE⟩ := hf c u rfl
        exact if_neg (by simp [he, hE])
  cases cs with
  | nil =>
    simp only [exponentOf, Option.some.injEq, Prod.mk.injEq] at h
    exact hnone h.1.symm
  | cons c cs =>
    simp only [exponentOf] at h
    split at h
    · rename_i hc
      obtain ⟨⟨ex, r'⟩, hex, hr⟩ := Option.map_eq_some_iff.1 h
      simp only [Prod.mk.injEq] at hr
      refine ⟨c :: ex, hr.1.symm, fun rest _ d u hu => ?_, fun rest hf text => ?_⟩
      · rw [cons_append, cons.injEq] at hu
        rw [← hu.1]
        rcases hc with rfl | rfl <;> decide
      · rw [cons_append, exponentOf, if_pos hc, readExponent_again hex hf]
        rfl
    · simp only [Option.some.injEq, Prod.mk.injEq] at h
      exact hnone h.1.symm

theorem pointOf_eq_nil {cs : List Char} (h : ∀ c u, cs = c :: u → c ≠ '.') : pointOf cs = some ([], cs) := by
  unfold pointOf
  split
  · exact absurd rfl (h _ _ rfl)
  · rfl

theorem readFraction_again {cs text r : List Char} (h : readFraction cs = some (text, r)) {rest : List Char}
    (hf : Follow rest) : (∀ c t, text ++ rest = c :: t → c.isDigit = false) ∧ readFraction (text ++ rest) = some (text, rest) := by
  rw [readFraction_eq, Option.bind_eq_some_iff] at h
  obtain ⟨⟨p, cs'⟩, hp, hex⟩ := h
  obtain ⟨ex, rfl, hhead, hagain⟩ := exponentOf_again hex
  rw [readFraction_eq]
  unfold pointOf at hp
  split at hp
  · rename_i cs
    simp only at hp
    split at hp
    · cases hp
    · rename_i hne
      obtain ⟨rfl, -⟩ := hp
      refine ⟨fun c t ht => ?_, ?_⟩
      · rw [cons_append, cons_append, cons.injEq] at ht
        rw [← ht.1]
        decide
      · have hpoint : pointOf ('.' :: cs.takeWhile Char.isDigit ++ ex ++ rest) =
            some ('.' :: cs.takeWhile Char.isDigit, ex ++ rest) := by
          rw [append_assoc, cons_append]
          unfold pointOf
          simp only
          cases hrest : ex ++ rest with
          | nil =>
            have hds : ∀ c ∈ cs.takeWhile Char.isDigit, c.isDigit = true := all_takeWhile cs
            rw [Follow.takeWhile hds Follow.nil, Follow.dropWhile hds Follow.nil, if_neg hne]
          | cons c u =>
            obtain ⟨ht, hd⟩ := @takeWhile_digits_cons _ u _ (all_takeWhile cs) (hhead rest hf c u hrest).1
            rw [ht, hd, if_neg hne]
        rw [hpoint, Option.bind_some, hagain rest hf]
  · obtain ⟨rfl, rfl⟩ := hp
    rw [nil_append] at *
    refine ⟨fun c t ht => (hhead rest hf c t ht).1, ?_⟩
    rw [pointOf_eq_nil (fun c u hu => (hhead rest hf c u hu).2), Option.bind_some, hagain rest hf, nil_append]

theorem signOf_append_drop (cs : List Char) : signOf cs ++ cs.drop (signOf cs).length = cs := by
  cases cs with
  | nil => rfl
  | cons c t => by_cases hc : (c == '+' || c == '-') = true <;> simp [signOf, hc]

theorem readExponent_text {cs text r : List Char} (h : readExponent cs = some (text, r)) : cs = text ++ r := by
  unfold readExponent at h
  simp only at h
  split at h
  · cases h
  · cases h
    rw [append_assoc, takeWhile_append_dropWhile]
    exact (signOf_append_drop cs).symm

theorem readFraction_text {cs text r : List Char} (h : readFraction cs = some (text, r)) : cs = text ++ r := by
  rw [readFraction_eq, Option.bind_eq_some_iff] at h
  obtain ⟨⟨p, cs'⟩, hp, hex⟩ := h
  have hpoint : cs = p ++ cs' := by
    unfold pointOf at hp
    split at hp
    · simp only at hp
      split at hp
      · cases hp
      · cases hp
        rw [cons_append, takeWhile_append_dropWhile]
    · cases hp
      rfl
  cases cs' with
  | nil =>
    cases hex
    exact hpoint
  | cons c cs' =>
    simp only [exponentOf] at hex
    split at hex
    · obtain ⟨q, hq, heq⟩ := Option.map_eq_some_iff.1 hex
      cases heq
      rw [hpoint, append_assoc, cons_append, ← readExponent_text hq]
    · cases hex
      exact hpoint

theorem readDigits_again {cs ds r : List Char} (h : readDigits cs = some (ds, r)) {rest : List Char}
    (hhead : ∀ c t, rest = c :: t → c.isDigit = false) :
    (∃ c t, ds = c :: t ∧ c.isDigit = true) ∧ readDigits (ds ++ rest) = some (ds, rest) := by
  unfold readDigits at h ⊢
  simp only at h ⊢
  split at h
  · cases h
  · rename_i hne
    simp only [Option.some.injEq, Prod.mk.injEq] at h
    have hall := all_takeWhile cs
    rw [h.1] at hne hall
    refine ⟨?_, ?_⟩
    · obtain ⟨c, t, rfl⟩ := exists_cons_of_ne_nil (not_or.1 hne).1
      exact ⟨c, t, rfl, hall c mem_cons_self⟩
    · cases rest with
      | nil => rw [Follow.takeWhile hall Follow.nil, Follow.dropWhile hall Follow.nil, if_neg hne]
      | cons c u =>
        obtain ⟨ht, hd⟩ := @takeWhile_digits_cons _ u _ hall (hhead c u rfl)
        rw [ht, hd, if_neg hne]

theorem numberOf_cases {neg : Bool} {ds frac : List Char} {j : Json} (h : numberOf neg ds frac = some j) :
    j = .float (numberText neg ds frac) ∨ ∃ n, j = .int n ∧ -(2 ^ 63) ≤ n ∧ n < 2 ^ 64 := by
  have hfloat : floatOf neg ds frac = some j → j = .float (numberText neg ds frac) := by
    unfold floatOf
    split
    · exact nofun
    · exact fun h => (Option.some.inj h).symm
  unfold numberOf at h
  dsimp only at h
  split_ifs at h with h1 h2 h3 h4
  · exact .inl (hfloat h)
  · cases h
    exact .inr ⟨_, rfl, by omega, by omega⟩
  · exact .inl (hfloat h)
  · cases h
    exact .inr ⟨_, rfl, by omega, by omega⟩
  · exact .inl (hfloat h)

theorem readNumber_eq_some {neg : Bool} {cs r : List Char} {j : Json} : readNumber neg cs = some (j, r) ↔
    ∃ ds rest frac, readDigits cs = some (ds, rest) ∧ readFraction rest = some (frac, r) ∧ numberOf neg ds frac = some j := by
  unfold readNumber
  rw [Option.bind_eq_some_iff]
  constructor
  · rintro ⟨⟨ds, rest⟩, hds, h⟩
    obtain ⟨⟨frac, r'⟩, hfrac, h⟩ := Option.bind_eq_some_iff.1 h
    obtain ⟨k, hk, h⟩ := Option.map_eq_some_iff.1 h
    cases h
    exact ⟨ds, rest, frac, hds, hfrac, hk⟩
  · rintro ⟨ds, rest, frac, hds, hfrac, hk⟩
    exact ⟨(ds, rest), hds, Option.bind_eq_some_iff.2 ⟨(frac, r), hfrac, Option.map_eq_some_iff.2 ⟨j, hk, rfl⟩⟩⟩

theorem readNumber_again {neg : Bool} {cs r : List Char} {j : Json} (h : readNumber neg cs = some (j, r)) :
    ∃ c t frac, c.isDigit = true ∧ cs = c :: t ++ frac ++ r ∧ numberOf neg (c :: t) frac = some j ∧
      ∀ tail, Follow tail → readNumber neg (c :: t ++ frac ++ tail) = some (j, tail) := by
  obtain ⟨ds, rest, frac, hds, hfrac, hk⟩ := readNumber_eq_some.1 h
  have htext : cs = ds ++ rest := by
    unfold readDigits at hds
    simp only at hds
    split at hds
    · cases hds
    · cases hds
      exact takeWhile_append_dropWhile.symm
  obtain ⟨⟨c, t, rfl, hc⟩, -⟩ := readDigits_again hds
    (show ∀ c t, ([] : List Char) = c :: t → c.isDigit = false from nofun)
  refine ⟨c, t, frac, hc, by rw [append_assoc, ← readFraction_text hfrac]; exact htext, hk, fun tail hf => ?_⟩
  obtain ⟨hhead, hagain⟩ := readFraction_again hfrac hf
  refine readNumber_eq_some.2 ⟨c :: t, frac ++ tail, frac, ?_, hagain, hk⟩
  rw [append_assoc, (readDigits_again hds hhead).2]

theorem readNumber_repr {neg : Bool} {cs r : List Char} {j : Json} (h : readNumber neg cs = some (j, r)) : Repr j ∧ nesting j = 0 := by
  obtain ⟨c, t, frac, hc, -, hk, hread⟩ := readNumber_again h
  rcases numberOf_cases hk with rfl | ⟨n, rfl, hrange⟩
  · exact ⟨⟨neg, c, t ++ frac, by rw [numberText, append_assoc, cons_append], hc, hread⟩, rfl⟩
  · exact ⟨hrange, rfl⟩

/-! ## Values -/

theorem readLiteral_eq_some {word cs r : List Char} {j k : Json} (h : readLiteral word j cs = some (k, r)) : k = j := by
  unfold readLiteral at h
  split at h
  · simp only [Option.some.injEq, Prod.mk.injEq] at h
    exact h.1.symm
  · cases h

mutual
theorem readValue_repr : ∀ (fuel : Nat) {depth : Nat} {cs r : List Char} {j : Json}, 0 < depth →
    readValue fuel depth cs = some (j, r) → Repr j ∧ nesting j < depth
  | 0, _, _, _, _, _, h => by cases h
  | fuel + 1, depth, cs, r, j, hd, h => by
    have hleaf : Repr j ∧ nesting j = 0 → Repr j ∧ nesting j < depth := fun hj => ⟨hj.1, by omega⟩
    rw [readValue] at h
    split at h
    · cases h
    · split_ifs at h with h1 h2 h3 h4 h5 h6 h7 h8 h9
      · obtain ⟨_, -, he⟩ := Option.map_eq_some_iff.1 h
        simp only [Prod.mk.injEq] at he
        rw [← he.1]
        exact ⟨trivial, hd⟩
      · split at h
        · simp only [Option.some.injEq, Prod.mk.injEq] at h
          rw [← h.1]
          exact ⟨trivial, by simp only [nesting, nestingItems]; omega⟩
        · obtain ⟨⟨items, r'⟩, hi, he⟩ := Option.map_eq_some_iff.1 h
          simp only [Prod.mk.injEq] at he
          obtain ⟨hrepr, hnest⟩ := readItems_repr fuel (by omega) hi
          rw [← he.1]
          exact ⟨hrepr, by rw [nesting]; omega⟩
      · split at h
        · simp only [Option.some.injEq, Prod.mk.injEq] at h
          rw [← h.1]
          exact ⟨trivial, by simp only [nesting, nestingFields]; omega⟩
        · obtain ⟨⟨fields, r'⟩, hi, he⟩ := Option.map_eq_some_iff.1 h
          simp only [Prod.mk.injEq] at he
          obtain ⟨hrepr, hnest⟩ := readFields_repr fuel (by omega) hi
          rw [← he.1]
          exact ⟨hrepr, by rw [nesting]; omega⟩
      iterate 3
        rw [readLiteral_eq_some h]
        exact ⟨trivial, hd⟩
      · exact hleaf (readNumber_repr h)
      · exact hleaf (readNumber_repr h)
theorem readItems_repr : ∀ (fuel : Nat) {depth : Nat} {cs r : List Char} {items : List Json}, 0 < depth →
    readItems fuel depth cs = some (items, r) → ReprItems items ∧ nestingItems items < depth
  | 0, _, _, _, _, _, h => by cases h
  | fuel + 1, depth, cs, r, items, hd, h => by
    rw [readItems] at h
    split at h
    · cases h
    · rename_i j rest hj
      obtain ⟨hrepr, hnest⟩ := readValue_repr fuel hd hj
      split at h
      · obtain ⟨⟨items', r'⟩, hi, he⟩ := Option.map_eq_some_iff.1 h
        simp only [Prod.mk.injEq] at he
        obtain ⟨hreprs, hnests⟩ := readItems_repr fuel hd hi
        rw [← he.1]
        exact ⟨⟨hrepr, hreprs⟩, by rw [nestingItems]; omega⟩
      · simp only [Option.some.injEq, Prod.mk.injEq] at h
        rw [← h.1]
        exact ⟨⟨hrepr, trivial⟩, by simp only [nestingItems]; omega⟩
      · cases h
theorem readFields_repr : ∀ (fuel : Nat) {depth : Nat} {cs r : List Char} {fields : List (String × Json)}, 0 < depth →
    readFields fuel depth cs = some (fields, r) → ReprFields fields ∧ nestingFields fields < depth
  | 0, _, _, _, _, _, h => by cases h
  | fuel + 1, depth, cs, r, fields, hd, h => by
    rw [readFields] at h
    split at h
    · split at h
      · cases h
      · split at h
        · split at h
          · cases h
          · rename_i j rest hj
            obtain ⟨hrepr, hnest⟩ := readValue_repr fuel hd hj
            split at h
            · obtain ⟨⟨fields', r'⟩, hi, he⟩ := Option.map_eq_some_iff.1 h
              simp only [Prod.mk.injEq] at he
              obtain ⟨hreprs, hnests⟩ := readFields_repr fuel hd hi
              rw [← he.1]
              exact ⟨⟨hrepr, hreprs⟩, by rw [nestingFields]; omega⟩
            · simp only [Option.some.injEq, Prod.mk.injEq] at h
              rw [← h.1]
              exact ⟨⟨hrepr, trivial⟩, by simp only [nestingFields]; omega⟩
            · cases h
        · cases h
    · cases h
end

theorem fromSlice_repr {bytes : List UInt8} {j : Json} (h : fromSlice bytes = some j) : Repr j ∧ nesting j < maxDepth := by
  obtain ⟨text, -, h⟩ := Option.bind_eq_some_iff.1 h
  unfold parse at h
  split at h
  · rename_i j' rest hread
    split at h
    · cases h
      exact readValue_repr _ (by decide) hread
    · cases h
  · cases h

/-! ## Maps -/

theorem setField_repr {key : String} {j : Json} (hj : Repr j) : ∀ {fields : List (String × Json)}, ReprFields fields →
    ReprFields (setField key j fields) ∧ nestingFields (setField key j fields) ≤ max (nesting j) (nestingFields fields)
  | [], _ => ⟨⟨hj, trivial⟩, Nat.le_refl _⟩
  | (k, v) :: l, h => by
    obtain ⟨ih, hn⟩ := setField_repr hj h.2
    unfold setField
    split_ifs
    · exact ⟨⟨hj, h⟩, by simp only [nestingFields]; omega⟩
    · exact ⟨⟨hj, h.2⟩, by simp only [nestingFields]; omega⟩
    · exact ⟨⟨h.1, ih⟩, by simp only [nestingFields]; omega⟩

mutual
theorem value_repr : ∀ {j : Json}, Repr j → Repr (value j) ∧ nesting (value j) ≤ nesting j
  | .null, h | .bool _, h | .int _, h | .float _, h | .str _, h => ⟨h, Nat.le_refl _⟩
  | .arr items, h => by
    obtain ⟨hr, hn⟩ := valueItems_repr h
    exact ⟨hr, by rw [value, nesting, nesting]; omega⟩
  | .obj fields, h => by
    obtain ⟨hr, hn⟩ := @valueFields_repr _ [] trivial h
    refine ⟨hr, ?_⟩
    rw [value, nesting, nesting]
    simp only [nestingFields] at hn
    omega
theorem valueItems_repr : ∀ {items : List Json}, ReprItems items →
    ReprItems (valueItems items) ∧ nestingItems (valueItems items) ≤ nestingItems items
  | [], _ => ⟨trivial, Nat.le_refl _⟩
  | j :: l, h => by
    obtain ⟨hr, hn⟩ := value_repr h.1
    obtain ⟨hrs, hns⟩ := valueItems_repr h.2
    exact ⟨⟨hr, hrs⟩, by rw [valueItems, nestingItems, nestingItems]; omega⟩
theorem valueFields_repr : ∀ {fields : List (String × Json)} {map : List (String × Json)}, ReprFields map →
    ReprFields fields → ReprFields (valueFields map fields) ∧
      nestingFields (valueFields map fields) ≤ max (nestingFields map) (nestingFields fields)
  | [], _, hm, _ => ⟨hm, Nat.le_max_left _ _⟩
  | (k, j) :: l, map, hm, h => by
    obtain ⟨hr, hn⟩ := value_repr h.1
    obtain ⟨hset, hsetn⟩ := @setField_repr k _ hr _ hm
    obtain ⟨hrs, hns⟩ := valueFields_repr hset h.2
    exact ⟨hrs, by rw [valueFields, nestingFields]; omega⟩
end

theorem valueOf_repr {bytes : List UInt8} {j : Json} (h : valueOf bytes = some j) : Repr j ∧ nesting j < maxDepth := by
  obtain ⟨k, hk, rfl⟩ := Option.map_eq_some_iff.1 h
  obtain ⟨hr, hn⟩ := fromSlice_repr hk
  obtain ⟨hv, hvn⟩ := value_repr hr
  exact ⟨hv, by omega⟩

theorem filter_setField {key name : String} (h : name ≠ key) (j : Json) : ∀ fields : List (String × Json),
    (setField key j fields).filter (fun f => f.1 == name) = fields.filter (fun f => f.1 == name)
  | [] => by simp [setField, Ne.symm h]
  | (k, v) :: l => by
    unfold setField
    split_ifs with h1 h2
    · rw [filter_cons_of_neg (by simpa using Ne.symm h)]
    · subst h2
      rw [filter_cons_of_neg (by simpa using Ne.symm h), filter_cons_of_neg (by simpa using Ne.symm h)]
    · rw [filter_cons, filter_cons, filter_setField h j l]

end Mistl.Json
