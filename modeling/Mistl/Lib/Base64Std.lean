import Mathlib.Data.List.DropRight
import Mistl.Lib.Base64
/-!
# Base64Std — the standard alphabet with padding

The digits of `Base64` with `+` and `/` for the last two, and `=` up to a whole number of four.  Decoding wants exactly
that padding, so that it undoes encoding.
-/
open List

namespace Mistl.Base64

def toStandard (c : Char) : Char := if c = '-' then '+' else if c = '_' then '/' else c

def ofStandard (c : Char) : Option Char :=
  if c = '+' then some '-' else if c = '/' then some '_' else if c = '-' ∨ c = '_' then none else some c

def padding (n : Nat) : List Char := List.replicate ((4 - n % 4) % 4) '='

def encodeStd (bytes : List UInt8) : List Char := (encode bytes).map toStandard ++ padding (encode bytes).length

def decodeStd (text : List Char) : Option (List UInt8) :=
  let digits := text.rdropWhile (· == '=')
  if text = digits ++ padding digits.length then (digits.mapM ofStandard).bind decode else none

/-- The characters `encode` writes. -/
def isDigitChar (c : Char) : Bool := c.isAlphanum || c == '-' || c == '_'

theorem digit_isDigitChar {n : Nat} (h : n < 64) : isDigitChar (digit n) = true := by
  interval_cases n <;> decide

theorem all_encode : ∀ (bytes : List UInt8), ∀ c ∈ encode bytes, isDigitChar c = true
  | [], c, h => by cases h
  | [a], c, h => by
    have ha := a.toNat_lt
    simp only [encode, mem_cons, not_mem_nil, or_false] at h
    rcases h with rfl | rfl <;> exact digit_isDigitChar (by omega)
  | [a, b], c, h => by
    have ha := a.toNat_lt
    have hb := b.toNat_lt
    simp only [encode, mem_cons, not_mem_nil, or_false] at h
    rcases h with rfl | rfl | rfl <;> exact digit_isDigitChar (by omega)
  | a :: b :: x :: rest, c, h => by
    have ha := a.toNat_lt
    have hb := b.toNat_lt
    have hx := x.toNat_lt
    simp only [encode, mem_cons] at h
    rcases h with rfl | rfl | rfl | rfl | h
    iterate 4 exact digit_isDigitChar (by omega)
    · exact all_encode rest c h

section

variable {c : Char} (h : isDigitChar c = true)

include h

theorem isDigitChar_ne : c ≠ '+' ∧ c ≠ '/' ∧ c ≠ '=' := by
  refine ⟨?_, ?_, ?_⟩ <;> rintro rfl <;> exact absurd h (by decide)

theorem ofStandard_toStandard : ofStandard (toStandard c) = some c := by
  obtain ⟨h1, h2, -⟩ := isDigitChar_ne h
  unfold ofStandard toStandard
  split_ifs with h3 h4 <;> simp_all

theorem toStandard_ne_pad : toStandard c ≠ '=' := by
  obtain ⟨-, -, h3⟩ := isDigitChar_ne h
  unfold toStandard
  split_ifs
  · decide
  · decide
  · exact h3

end

theorem mapM_ofStandard : ∀ {digits : List Char}, (∀ c ∈ digits, isDigitChar c = true) →
    (digits.map toStandard).mapM ofStandard = some digits
  | [], _ => rfl
  | c :: digits, h => by
    rw [map_cons, mapM_cons, ofStandard_toStandard (h c mem_cons_self), mapM_ofStandard (fun c hc => h c (mem_cons_of_mem _ hc))]
    rfl

theorem rdropWhile_padding {digits : List Char} (h : ∀ c ∈ digits, c ≠ '=') (n : Nat) :
    (digits ++ List.replicate n '=').rdropWhile (· == '=') = digits := by
  induction n with
  | zero =>
    rw [replicate_zero, append_nil, rdropWhile_eq_self_iff]
    intro hne hlast
    exact h _ (getLast_mem hne) (eq_of_beq hlast)
  | succ n ih => rw [replicate_succ', ← append_assoc, rdropWhile_concat_pos _ _ _ rfl, ih]

theorem decodeStd_encodeStd (bytes : List UInt8) : decodeStd (encodeStd bytes) = some bytes := by
  have hall := all_encode bytes
  have hdrop : (encodeStd bytes).rdropWhile (· == '=') = (encode bytes).map toStandard := by
    refine rdropWhile_padding (fun c hc => ?_) _
    obtain ⟨d, hd, rfl⟩ := mem_map.1 hc
    exact toStandard_ne_pad (hall d hd)
  unfold decodeStd
  rw [hdrop]
  rw [if_pos (by rw [length_map]; rfl), mapM_ofStandard hall, Option.bind_some, decode_encode]

theorem length_encode : ∀ (bytes : List UInt8), (encode bytes).length = (4 * bytes.length + 2) / 3
  | [] => rfl
  | [a] | [a, b] => by simp [encode]
  | a :: b :: c :: rest => by
    simp only [encode, length_cons, length_encode rest]
    omega

theorem length_encodeStd (bytes : List UInt8) : (encodeStd bytes).length = 4 * ((bytes.length + 2) / 3) := by
  rw [encodeStd, length_append, length_map, padding, length_replicate, length_encode]
  omega

theorem encodeStd_graphic (bytes : List UInt8) : ∀ c ∈ encodeStd bytes, 0x20 < c.toNat ∧ c.toNat < 128 := by
  intro c hc
  rcases mem_append.1 hc with hc | hc
  · obtain ⟨d, hd, rfl⟩ := mem_map.1 hc
    have hgraphic : ∀ d : Char, isDigitChar d = true → 0x20 < d.toNat ∧ d.toNat < 128 := by
      intro d hd
      delta isDigitChar Char.isAlphanum Char.isAlpha Char.isUpper Char.isLower Char.isDigit at hd
      simp only [Bool.or_eq_true, Bool.and_eq_true, decide_eq_true_eq, beq_iff_eq] at hd
      rcases hd with (((⟨hlo, hhi⟩ | ⟨hlo, hhi⟩) | ⟨hlo, hhi⟩) | rfl) | rfl
      iterate 3 exact ⟨Nat.lt_of_lt_of_le (by decide) hlo, Nat.lt_of_le_of_lt hhi (by decide)⟩
      · decide
      · decide
    unfold toStandard
    split_ifs
    · decide
    · decide
    · exact hgraphic d (all_encode bytes d hd)
  · rw [eq_of_mem_replicate hc]
    decide

theorem encodeStd_ascii (bytes : List UInt8) : ∀ c ∈ encodeStd bytes, c.toNat < 128 := fun c hc => (encodeStd_graphic bytes c hc).2

end Mistl.Base64
