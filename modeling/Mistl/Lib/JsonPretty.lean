import Mistl.Lib.JsonIndent
/-!
# JsonPretty — objects of texts, one member a line

The indented writer, for an object whose members are all texts, and that such an object reads back.
-/
namespace Mistl.Json

def prettyMember (k v : String) : List Char := '\x0a' :: ' ' :: ' ' :: (writeString k ++ ':' :: ' ' :: writeString v)

def prettyMembers : List (String × String) → List Char
  | [] => []
  | [(k, v)] => prettyMember k v ++ ['\x0a']
  | (k, v) :: f :: l => prettyMember k v ++ ',' :: prettyMembers (f :: l)

/-- `to_string_pretty` of an object of texts -/
def prettyObject : List (String × String) → List Char
  | [] => ['\x7b', '\x7d']
  | f :: l => '\x7b' :: (prettyMembers (f :: l) ++ ['\x7d'])

def ofTexts (l : List (String × String)) : Json := .obj (l.map (fun f => (f.1, .str f.2)))

theorem prettyMembers_eq : ∀ l : List (String × String), l ≠ [] →
    prettyMembers l = indentFields 1 (l.map (fun f => (f.1, .str f.2))) ++ line 0
  | [], h => absurd rfl h
  | [(k, v)], _ => by
    rw [prettyMembers, List.map_singleton, indentFields, indent, write]
    simp [prettyMember, line]
  | (k, v) :: f :: l, _ => by
    rw [prettyMembers, prettyMembers_eq (f :: l) (by simp)]
    simp only [List.map_cons]
    rw [indentFields, indent, write]
    simp [prettyMember, line]

variable {l : List (String × String)}

theorem prettyObject_eq (h : l ≠ []) : prettyObject l = indent 0 (ofTexts l) := by
  cases l with
  | nil => exact absurd rfl h
  | cons f l =>
    rw [prettyObject, prettyMembers_eq _ h, ofTexts, indent]
    simp [closing]

theorem ofTexts_repr : ∀ l : List (String × String), Repr (ofTexts l) ∧ nesting (ofTexts l) ≤ 1
  | [] => by
    exact ⟨trivial, Nat.le_refl _⟩
  | f :: l => by
    obtain ⟨hrepr, hnest⟩ := ofTexts_repr l
    rw [ofTexts, nesting] at hnest
    rw [ofTexts, List.map_cons, Repr, ReprFields, nesting, nestingFields, nesting]
    exact ⟨⟨trivial, hrepr⟩, by omega⟩

theorem parse_prettyObject (h : l ≠ []) : parse (prettyObject l) = some (ofTexts l) := by
  obtain ⟨hrepr, hnest⟩ := ofTexts_repr l
  rw [prettyObject_eq h]
  exact parse_indent hrepr (lt_of_le_of_lt hnest (by decide))

end Mistl.Json
