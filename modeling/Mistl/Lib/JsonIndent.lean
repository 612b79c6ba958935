import Mistl.Lib.Serde
/-!
# JsonIndent — the indented writer

Values written with one item or member a line, two blanks for each level, as a standard pretty printer does; that what it writes reads back
as the value, and how many bytes it takes.
-/
open List

namespace Mistl.Json

def line (level : Nat) : List Char := '\x0a' :: List.replicate (2 * level) ' '

def closing (level : Nat) (empty : Bool) : List Char := if empty then [] else line level

mutual
/-- `to_string_pretty` -/
def indent (level : Nat) : Json → List Char
  | .arr items => '[' :: (indentItems (level + 1) items ++ (closing level items.isEmpty ++ [']']))
  | .obj fields => '\x7b' :: (indentFields (level + 1) fields ++ (closing level fields.isEmpty ++ ['\x7d']))
  | .null => write .null
  | .bool b => write (.bool b)
  | .int n => write (.int n)
  | .float text => write (.float text)
  | .str s => write (.str s)
def indentItems (level : Nat) : List Json → List Char
  | [] => []
  | [j] => line level ++ indent level j
  | j :: k :: l => line level ++ (indent level j ++ ',' :: indentItems level (k :: l))
def indentFields (level : Nat) : List (String × Json) → List Char
  | [] => []
  | [(n, j)] => line level ++ (writeString n ++ ':' :: ' ' :: indent level j)
  | (n, j) :: k :: l => line level ++ (writeString n ++ ':' :: ' ' :: (indent level j ++ ',' :: indentFields level (k :: l)))
end

/-! ## Reading back -/

theorem isBlank_line (level : Nat) : ∀ c ∈ line level, isBlank c = true := by
  intro c hc
  rcases mem_cons.1 hc with rfl | hc
  · decide
  · rw [eq_of_mem_replicate hc]
    decide

mutual
theorem layout_indent (level : Nat) : ∀ j : Json, layout line [' '] level j = indent level j
  | .null | .bool _ | .int _ | .float _ | .str _ => by rw [layout, indent]
  | .arr items => by
    rw [layout, layout_indentItems, indent]
    rfl
  | .obj fields => by
    rw [layout, layout_indentFields, indent]
    rfl
theorem layout_indentItems : ∀ (items : List Json) (level : Nat), layoutItems line [' '] level items = indentItems level items
  | [], _ => by rw [layoutItems, indentItems]
  | [j], _ => by rw [layoutItems, indentItems, layout_indent]
  | j :: k :: l, _ => by rw [layoutItems, indentItems, layout_indent, layout_indentItems]
theorem layout_indentFields :
    ∀ (fields : List (String × Json)) (level : Nat), layoutFields line [' '] level fields = indentFields level fields
  | [], _ => by rw [layoutFields, indentFields]
  | [(n, j)], _ => by
    rw [layoutFields, indentFields, layout_indent]
    rfl
  | (n, j) :: k :: l, _ => by
    rw [layoutFields, indentFields, layout_indent, layout_indentFields]
    rfl
end

theorem parse_indent {j : Json} (hr : Repr j) (hd : nesting j < maxDepth) : parse (indent 0 j) = some j := by
  have hneed := @need_le_layout line [' '] j 0 hr
  have hread := @readValue_layout line [' '] ⟨isBlank_line, fun c hc => by rw [mem_singleton.1 hc]; rfl⟩ j 0 (2 * (indent 0 j).length + 2) maxDepth [] hr hd
    (by rw [← layout_indent]; omega) Follow.nil
  rw [append_nil, layout_indent] at hread
  unfold parse
  rw [hread]
  rfl

def toVecPretty (j : Json) : List UInt8 := utf8 (indent 0 j)

theorem fromSlice_toVecPretty {j : Json} (hr : Repr j) (hd : nesting j < maxDepth) : fromSlice (toVecPretty j) = some j := by
  unfold fromSlice toVecPretty
  rw [fromUTF8?_utf8, Option.bind_some, String.toList_ofList, parse_indent hr hd]

/-! ## Sizes -/

theorem length_utf8_line (level : Nat) : (utf8 (line level)).length = 2 * level + 1 := by
  rw [length_utf8_ascii]
  · unfold line
    rw [length_cons, length_replicate]
  · intro c hc
    unfold line at hc
    rcases mem_cons.1 hc with rfl | hc
    · decide
    · rw [eq_of_mem_replicate hc]
      decide

theorem length_indentItems_le {level bound : Nat} : ∀ {items : List Json}, (∀ j ∈ items, (utf8 (indent level j)).length ≤ bound) →
    (utf8 (indentItems level items)).length ≤ items.length * (bound + 2 * level + 2)
  | [], _ => by
    rw [indentItems]
    exact Nat.zero_le _
  | [j], h => by
    have := h j mem_cons_self
    rw [indentItems, utf8_append, length_append, length_utf8_line, length_singleton]
    omega
  | j :: k :: l, h => by
    have := h j mem_cons_self
    have ih : (utf8 (indentItems level (k :: l))).length ≤ (k :: l).length * (bound + 2 * level + 2) :=
      length_indentItems_le (fun j hj => h j (mem_cons_of_mem _ hj))
    rw [indentItems, utf8_append, utf8_append, utf8_cons, length_append, length_append, length_append, length_utf8_line,
      utf8_singleton_length (by decide), length_cons, Nat.add_mul, Nat.one_mul]
    omega

theorem length_indentFields_le (level : Nat) : ∀ fields : List (String × Json), (utf8 (indentFields level fields)).length ≤
    (fields.map (fun f => stringSize f.1 + (utf8 (indent level f.2)).length + 2 * level + 4)).sum
  | [] => by
    rw [indentFields]
    exact Nat.zero_le _
  | [(n, j)] => by
    rw [indentFields, utf8_append, utf8_append, utf8_cons, utf8_cons, length_append, length_append, length_append,
      length_append, length_utf8_line, utf8_singleton_length (by decide), utf8_singleton_length (by decide)]
    simp only [map_cons, map_nil, List.sum_cons, sum_nil, stringSize]
    omega
  | (n, j) :: k :: l => by
    have ih := length_indentFields_le level (k :: l)
    rw [indentFields, utf8_append, utf8_append, utf8_cons, utf8_cons, utf8_append, utf8_cons, length_append, length_append,
      length_append, length_append, length_append, length_append, length_utf8_line,
      utf8_singleton_length (by decide), utf8_singleton_length (by decide), utf8_singleton_length (by decide), map_cons, List.sum_cons]
    simp only [stringSize] at ih ⊢
    omega

theorem length_escapeChar_printed {c : Char} (h : 32 ≤ c.toNat) : (utf8 (escapeChar c)).length ≤ 2 * c.utf8Size := by
  have := c.utf8Size_pos
  have := length_escapeChar c
  omega

end Mistl.Json
