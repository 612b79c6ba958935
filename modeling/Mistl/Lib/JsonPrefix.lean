import Mistl.Lib.JsonRead
/-!
# JsonPrefix — a text that goes on

A reader that has come to the end of a value does not look further, a number's apart: what it has read stays when the
text goes on.
-/
open List

namespace Mistl.Json

variable {fields : List (String × Json)} {j : Json}

theorem skipBlanks_more {cs : List Char} (h : skipBlanks cs ≠ []) (t : List Char) : skipBlanks (cs ++ t) = skipBlanks cs ++ t := by
  unfold skipBlanks at h ⊢
  rw [dropWhile_append, if_neg (by rwa [List.isEmpty_iff])]

theorem skipBlanks_cons_more {cs rest t : List Char} {c : Char} (h : skipBlanks cs = c :: rest) :
    skipBlanks (cs ++ t) = c :: (rest ++ t) := by
  rw [skipBlanks_more (by rw [h]; exact cons_ne_nil _ _), h, cons_append]

/-! ## Strings and numbers -/

variable {cs s r : List Char}

theorem readString_more (h : readString cs = some (s, r)) (t : List Char) : readString (cs ++ t) = some (s, r ++ t) := by
  fun_induction readString cs generalizing s r with
  | case2 rest =>
    cases h
    rw [cons_append, readString.eq_def]
    rfl
  | case5 x y z w rest n hn hplain hquote ih =>
    obtain ⟨p, hp, heq⟩ := Option.map_eq_some_iff.1 h
    cases heq
    simp only [cons_append, readString, hn, if_pos hplain, ih hp]
    rfl
  | case8 x y z w n hn hpair hhigh b u x' y' z' w' rest m hm hlow hquote ih =>
    obtain ⟨p, hp, heq⟩ := Option.map_eq_some_iff.1 h
    cases heq
    simp only [cons_append, readString, hn, hm, if_neg hpair, if_neg hhigh, if_pos hlow, ih hp]
    rfl
  | case13 e rest hu c hc hquote ih =>
    obtain ⟨p, hp, heq⟩ := Option.map_eq_some_iff.1 h
    cases heq
    rw [cons_append, cons_append, readString.eq_def]
    simp only [if_neg hquote, if_neg hu, hc, ih hp]
    rfl
  | case15 c rest hquote hescape hcontrol ih =>
    obtain ⟨p, hp, heq⟩ := Option.map_eq_some_iff.1 h
    cases heq
    rw [cons_append, readString.eq_def]
    simp only [if_neg hquote, if_neg hescape, if_neg hcontrol, ih hp]
    rfl
  | _ => cases h

theorem readNumber_more {neg : Bool} {cs r : List Char} (h : readNumber neg cs = some (j, r))
    (hr : ∃ c rest, Follow [c] ∧ skipBlanks r = c :: rest) (t : List Char) : readNumber neg (cs ++ t) = some (j, r ++ t) := by
  obtain ⟨c, u, frac, -, rfl, -, hagain⟩ := readNumber_again h
  rw [append_assoc]
  refine hagain _ fun d v hd => ?_
  obtain ⟨e, rest, hfollow, hskip⟩ := hr
  cases r with
  | nil => cases hskip
  | cons d' r =>
    cases hd
    by_cases hblank : isBlank d = true
    · simp only [isBlank, Bool.or_eq_true, beq_iff_eq] at hblank
      obtain ((rfl | rfl) | rfl) | rfl := hblank <;> decide
    · rw [skipBlanks_cons (Bool.eq_false_iff.2 hblank)] at hskip
      cases hskip
      exact hfollow d [] rfl

theorem readLiteral_more {word cs r : List Char} {j k : Json} (h : readLiteral word j cs = some (k, r)) (t : List Char) :
    readLiteral word j (cs ++ t) = some (k, r ++ t) := by
  unfold readLiteral at h ⊢
  split at h
  · rename_i hstarts
    obtain ⟨u, rfl⟩ := isPrefixOf_iff_prefix.1 hstarts
    cases h
    rw [append_assoc, if_pos ( isPrefixOf_iff_prefix.2 (prefix_append _ _)), drop_left, drop_left]
  · cases h

/-! ## Values -/

theorem readItems_nil (fuel depth : Nat) {p : List Json × List Char} : readItems fuel depth [] ≠ some p := by
  cases fuel with
  | zero => simp [readItems]
  | succ fuel => cases fuel <;> simp [readItems, readValue, skipBlanks]

theorem readFields_nil (fuel depth : Nat) {p : List (String × Json) × List Char} : readFields fuel depth [] ≠ some p := by
  cases fuel <;> simp [readFields, skipBlanks]

theorem not_obj_of_readNumber {neg : Bool} {cs r : List Char} : ¬readNumber neg cs = some (.obj fields, r) := by
  intro h
  obtain ⟨ds, rest, frac, -, -, hj⟩ := readNumber_eq_some.1 h
  rcases numberOf_cases hj with hn | ⟨n, hn, -⟩ <;> cases hn

mutual
/-- **What was read before the end of a text, or up to the brace of an object**, is read when the text goes on. -/
theorem readValue_more : ∀ (fuel : Nat) {more depth : Nat} {cs r : List Char} {j : Json}, fuel ≤ more →
    readValue fuel depth cs = some (j, r) → ((∃ c rest, Follow [c] ∧ skipBlanks r = c :: rest) ∨ ∃ fields, j = .obj fields) → ∀ t : List Char,
    readValue more depth (cs ++ t) = some (j, r ++ t)
  | 0, _, _, _, _, _, _, h, _, _ => by
    rw [readValue] at h
    cases h
  | fuel + 1, more, depth, cs, r, j, hle, h, hr, t => by
    obtain ⟨more, rfl⟩ : ∃ m, more = m + 1 := ⟨more - 1, by omega⟩
    have hle : fuel ≤ more := by omega
    rw [readValue] at h ⊢
    split at h
    · cases h
    · rename_i c rest hskip
      rw [skipBlanks_cons_more hskip]
      simp only
      split_ifs at h ⊢ with h1 h2 h3 h4 h5 h6 h7 h8 h9
      · obtain ⟨p, hp, heq⟩ := Option.map_eq_some_iff.1 h
        cases heq
        rw [readString_more hp t]
        rfl
      · split at h
        · rename_i rest' hskip'
          cases h
          rw [skipBlanks_cons_more hskip']
          rfl
        · rename_i hopen
          obtain ⟨p, hp, heq⟩ := Option.map_eq_some_iff.1 h
          cases heq
          have hne : skipBlanks rest ≠ [] := by
            intro hnil
            rw [hnil] at hp
            exact absurd hp (readItems_nil _ _)
          obtain ⟨d, u, hd⟩ := exists_cons_of_ne_nil hne
          rw [skipBlanks_more hne, hd, cons_append]
          split
          · rename_i hbracket
            cases hbracket
            exact absurd hd (hopen _)
          · rw [← cons_append, ← hd, readItems_more fuel hle hp t]
            rfl
      · split at h
        · rename_i rest' hskip'
          cases h
          rw [skipBlanks_cons_more hskip']
          rfl
        · rename_i hopen
          obtain ⟨p, hp, heq⟩ := Option.map_eq_some_iff.1 h
          cases heq
          have hne : skipBlanks rest ≠ [] := by
            intro hnil
            rw [hnil] at hp
            exact absurd hp (readFields_nil _ _)
          obtain ⟨d, u, hd⟩ := exists_cons_of_ne_nil hne
          rw [skipBlanks_more hne, hd, cons_append]
          split
          · rename_i hbracket
            cases hbracket
            exact absurd hd (hopen _)
          · rw [← cons_append, ← hd, readFields_more fuel hle hp t]
            rfl
      iterate 3 exact readLiteral_more h t
      all_goals
        refine readNumber_more h (hr.resolve_right ?_) t
        rintro ⟨fields, rfl⟩
        exact not_obj_of_readNumber h
theorem readItems_more : ∀ (fuel : Nat) {more depth : Nat} {cs r : List Char} {items : List Json}, fuel ≤ more →
    readItems fuel depth cs = some (items, r) → ∀ t : List Char, readItems more depth (cs ++ t) = some (items, r ++ t)
  | 0, _, _, _, _, _, _, h, _ => by
    rw [readItems] at h
    cases h
  | fuel + 1, more, depth, cs, r, items, hle, h, t => by
    obtain ⟨more, rfl⟩ : ∃ m, more = m + 1 := ⟨more - 1, by omega⟩
    have hle : fuel ≤ more := by omega
    rw [readItems] at h ⊢
    split at h
    · cases h
    · rename_i j rest hj
      split at h
      · rename_i rest' hskip
        obtain ⟨p, hp, heq⟩ := Option.map_eq_some_iff.1 h
        cases heq
        rw [readValue_more fuel hle hj (.inl ⟨_, _, .comma [], hskip⟩) t]
        simp only
        rw [skipBlanks_cons_more hskip]
        simp only
        rw [readItems_more fuel hle hp t]
        rfl
      · rename_i rest' hskip
        cases h
        rw [readValue_more fuel hle hj (.inl ⟨_, _, .bracket [], hskip⟩) t]
        simp only
        rw [skipBlanks_cons_more hskip]
        rfl
      · cases h
theorem readFields_more : ∀ (fuel : Nat) {more depth : Nat} {cs r : List Char} {fields : List (String × Json)}, fuel ≤ more →
    readFields fuel depth cs = some (fields, r) → ∀ t : List Char, readFields more depth (cs ++ t) = some (fields, r ++ t)
  | 0, _, _, _, _, _, _, h, _ => by
    rw [readFields] at h
    cases h
  | fuel + 1, more, depth, cs, r, fields, hle, h, t => by
    obtain ⟨more, rfl⟩ : ∃ m, more = m + 1 := ⟨more - 1, by omega⟩
    have hle : fuel ≤ more := by omega
    rw [readFields] at h ⊢
    split at h
    · rename_i rest hskip
      rw [skipBlanks_cons_more hskip]
      simp only
      split at h
      · cases h
      · rename_i name rest₁ hname
        rw [readString_more hname t]
        simp only
        split at h
        · rename_i rest₂ hskip
          rw [skipBlanks_cons_more hskip]
          simp only
          split at h
          · cases h
          · rename_i j rest₃ hj
            split at h
            · rename_i rest₄ hskip
              obtain ⟨p, hp, heq⟩ := Option.map_eq_some_iff.1 h
              cases heq
              rw [readValue_more fuel hle hj (.inl ⟨_, _, .comma [], hskip⟩) t]
              simp only
              rw [skipBlanks_cons_more hskip]
              simp only
              rw [readFields_more fuel hle hp t]
              rfl
            · rename_i rest₄ hskip
              cases h
              rw [readValue_more fuel hle hj (.inl ⟨_, _, .brace [], hskip⟩) t]
              simp only
              rw [skipBlanks_cons_more hskip]
              rfl
            · cases h
        · cases h
    · cases h
end

/-! ## A text that is cut short -/

theorem readValue_head {fuel depth : Nat} {cs r : List Char} (h : readValue fuel depth cs = some (j, r)) :
    ∃ c rest, skipBlanks cs = c :: rest ∧ (c = '\x7b' ↔ ∃ fields, j = .obj fields) := by
  cases fuel with
  | zero =>
    rw [readValue] at h
    cases h
  | succ fuel =>
    rw [readValue] at h
    split at h
    · cases h
    · rename_i c rest hskip
      refine ⟨c, rest, hskip, ?_⟩
      by_cases hc : c = '\x7b'
      · subst hc
        rw [if_neg (by decide), if_neg (by decide), if_pos rfl] at h
        refine ⟨fun _ => ?_, fun _ => rfl⟩
        split_ifs at h
        split at h
        · cases h
          exact ⟨_, rfl⟩
        · obtain ⟨p, -, heq⟩ := Option.map_eq_some_iff.1 h
          cases heq
          exact ⟨_, rfl⟩
      · refine ⟨fun h => absurd h hc, ?_⟩
        rintro ⟨fields, rfl⟩
        split_ifs at h
        · obtain ⟨p, -, heq⟩ := Option.map_eq_some_iff.1 h
          cases heq
        · split at h
          · cases h
          · obtain ⟨p, -, heq⟩ := Option.map_eq_some_iff.1 h
            cases heq
        · cases readLiteral_eq_some h
        · cases readLiteral_eq_some h
        · cases readLiteral_eq_some h
        · exact absurd h not_obj_of_readNumber
        · exact absurd h not_obj_of_readNumber

theorem parse_cut {cs t : List Char} (hwhole : parse (cs ++ t) = some (.obj fields))
    (hcut : parse cs = some j) : j = .obj fields := by
  unfold parse at hwhole hcut
  split at hwhole
  · rename_i k rest hk
    split at hwhole
    · cases hwhole
      split at hcut
      · rename_i k' rest' hk'
        split at hcut
        · cases hcut
          obtain ⟨c, u, hskip, hobj⟩ := readValue_head hk'
          obtain ⟨d, v, hskip', hobj'⟩ := readValue_head hk
          rw [skipBlanks_more (by rw [hskip]; exact cons_ne_nil _ _), hskip] at hskip'
          cases hskip'
          have hfuel : 2 * cs.length + 2 ≤ 2 * (cs ++ t).length + 2 := by
            rw [length_append]
            omega
          have hmore := readValue_more _ hfuel hk' (.inr (hobj.1 (hobj'.2 ⟨fields, rfl⟩))) t
          rw [hk] at hmore
          cases hmore
          rfl
        · cases hcut
      · cases hcut
    · cases hwhole
  · cases hwhole

theorem fromSlice_eq_some {bytes : List UInt8} (h : fromSlice bytes = some j) :
    ∃ text : List Char, text.utf8Encode = bytes.toByteArray ∧ parse text = some j := by
  obtain ⟨s, hs, hparse⟩ := Option.bind_eq_some_iff.1 h
  unfold String.fromUTF8? at hs
  split at hs
  · cases hs
    exact ⟨_, String.utf8Encode_toList, hparse⟩
  · cases hs

theorem fromSlice_cut {bytes cut : List UInt8} 
    (hwhole : fromSlice bytes = some (.obj fields)) (hstarts : cut <+: bytes) (hcut : fromSlice cut = some j) : j = .obj fields := by
  obtain ⟨more, rfl⟩ := hstarts
  obtain ⟨text, htext, hparse⟩ := fromSlice_eq_some hwhole
  obtain ⟨text', htext', hparse'⟩ := fromSlice_eq_some hcut
  rw [toByteArray_append, ← htext'] at htext
  obtain ⟨t, rfl⟩ := isPrefix_of_utf8Encode_append_eq_utf8Encode _ htext.symm
  exact parse_cut hparse hparse'

end Mistl.Json
