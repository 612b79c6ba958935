import Mistl.Lib.JsonCanon
import Mistl.Lib.Lines
/-!
# JsonLine — values written one to a line

A compact text has no line break in it, so a value and a line break are read back as that value from the line alone.
-/
open List

namespace Mistl.Json

def newline : UInt8 := 10

theorem newline_notMem_escape (c : Char) : '\n' ∉ escapeChar c := by
  unfold escapeChar
  repeat' split
  · decide
  · decide
  · decide
  · decide
  · decide
  · decide
  · decide
  · have h2 : c.toNat % 16 < 16 := Nat.mod_lt _ (by decide)
    have hdigit : ∀ n < 16, n.digitChar ≠ '\n' := by decide
    simp only [mem_cons, not_mem_nil, or_false, not_or]
    exact ⟨by decide, by decide, by decide, by decide, (hdigit _ (by omega)).symm, (hdigit _ h2).symm⟩
  · rename_i h _ _ _
    rw [mem_singleton]
    exact fun he => h he.symm

theorem newline_notMem_writeString (s : String) : '\n' ∉ writeString s := by
  simp only [writeString, mem_cons, mem_append, mem_flatMap, not_or]
  refine ⟨by decide, ?_, by decide⟩
  rintro ⟨c, -, hc⟩
  exact newline_notMem_escape c hc

theorem newline_notMem_writeInt (n : Int) : '\n' ∉ writeInt n := by
  have hdigits : '\n' ∉ Nat.toDigits 10 n.natAbs := fun h => absurd (isDigit_toDigits _ _ h) (by decide)
  unfold writeInt
  split
  · rw [mem_cons, not_or]
    exact ⟨by decide, hdigits⟩
  · exact hdigits

mutual
theorem newline_notMem_write : ∀ {j : Json}, Integral j → '\n' ∉ write j
  | .null, _ | .bool true, _ | .bool false, _ => by decide
  | .int n, _ => by exact newline_notMem_writeInt n
  | .float _, h => by exact h.elim
  | .str s, _ => by exact newline_notMem_writeString s
  | .arr items, h => by
    have := newline_notMem_writeItems h
    rw [write]
    simp [this]
  | .obj fields, h => by
    have := newline_notMem_writeFields h
    rw [write]
    simp [this]
theorem newline_notMem_writeItems : ∀ {items : List Json}, IntegralItems items → '\n' ∉ writeItems items
  | [], _ => by exact not_mem_nil
  | [j], h => by
    exact newline_notMem_write h.1
  | j :: k :: l, h => by
    have h1 := newline_notMem_write h.1
    have h2 := newline_notMem_writeItems h.2
    rw [writeItems]
    simp [h1, h2]
theorem newline_notMem_writeFields : ∀ {fields : List (String × Json)}, IntegralFields fields → '\n' ∉ writeFields fields
  | [], _ => by exact not_mem_nil
  | [(n, j)], h => by
    have h1 := newline_notMem_write h.1
    have h2 := newline_notMem_writeString n
    rw [writeFields]
    simp [h1, h2]
  | (n, j) :: k :: l, h => by
    have h1 := newline_notMem_write h.1
    have h2 := newline_notMem_writeString n
    have h3 := newline_notMem_writeFields h.2
    rw [writeFields]
    simp [h1, h2, h3]
end

theorem newline_mem_utf8EncodeChar {c : Char} (h : newline ∈ String.utf8EncodeChar c) : c = '\n' := by
  have hbyte : ∀ n : Nat, 10 < n → n < 256 → newline ≠ UInt8.ofNat n := by
    intro n h1 h2 he
    have := congrArg UInt8.toNat he
    rw [UInt8.toNat_ofNat_of_lt' h2] at this
    exact absurd this (Nat.ne_of_lt h1)
  unfold String.utf8EncodeChar at h
  dsimp only at h
  split at h
  · rw [mem_singleton] at h
    have hn := congrArg UInt8.toNat h
    rw [UInt8.toNat_ofNat_of_lt' (by show _ < 256; omega)] at hn
    exact Char.ext (UInt32.toNat_inj.1 hn.symm)
  · exfalso
    repeat' split at h
    · simp only [mem_cons, not_mem_nil, or_false] at h
      rcases h with h | h <;> exact hbyte _ (by omega) (by omega) h
    · simp only [mem_cons, not_mem_nil, or_false] at h
      rcases h with h | h | h <;> exact hbyte _ (by omega) (by omega) h
    · simp only [mem_cons, not_mem_nil, or_false] at h
      rcases h with h | h | h | h <;> exact hbyte _ (by omega) (by omega) h

theorem newline_notMem_toVec {j : Json} (h : Integral j) : newline ∉ toVec j := by
  intro hmem
  obtain ⟨c, hc, hb⟩ := mem_flatMap.1 hmem
  rw [newline_mem_utf8EncodeChar hb] at hc
  exact newline_notMem_write h hc

mutual
theorem Integral.repr : ∀ {j : Json}, Integral j → Repr j
  | .null, _ | .bool _, _ | .str _, _ => by trivial
  | .int _, h => by exact h
  | .float _, h => by exact h.elim
  | .arr _, h => by exact IntegralItems.repr h
  | .obj _, h => by exact IntegralFields.repr h
theorem IntegralItems.repr : ∀ {items : List Json}, IntegralItems items → ReprItems items
  | [], _ => by trivial
  | _ :: _, h => by exact ⟨Integral.repr h.1, IntegralItems.repr h.2⟩
theorem IntegralFields.repr : ∀ {fields : List (String × Json)}, IntegralFields fields → ReprFields fields
  | [], _ => by trivial
  | (_, _) :: _, h => by exact ⟨Integral.repr h.1, IntegralFields.repr h.2⟩
end

theorem fromSlice_line {j : Json} (h : Integral j) (hd : nesting j < maxDepth) : fromSlice (toVec j ++ [newline]) = some j := by
  have hbytes : toVec j ++ [newline] = utf8 (write j ++ ['\n']) := by rw [utf8_append]; rfl
  have hn := need_le j h.repr
  have hread := readValue_write j (2 * (write j ++ ['\n']).length + 2) maxDepth ['\n'] h.repr hd
    (by rw [length_append]; omega) (Follow.cons (by decide) [])
  rw [fromSlice, hbytes, fromUTF8?_utf8, Option.bind_some, String.toList_ofList]
  rw [parse, hread]
  rfl

end Mistl.Json
