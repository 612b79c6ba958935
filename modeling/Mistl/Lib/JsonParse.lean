import Mathlib.Data.List.DropRight
import Mistl.Lib.Json
import Mathlib.Tactic.IntervalCases
/-!
# JsonParse — reading JSON text back

A recursive-descent reader with a recursion limit; integers in full when they fit in 64 bits, any other number as its text
where a float of 64 bits holds it.
`fuel` bounds the calls, `depth` is the number of containers that may still be opened.  `parse_write`: the compact text of a
representable, shallow value reads back as the value.
-/
open List

namespace Mistl.Json

variable {c : Char}

/-! ## Strings -/

def hexVal (c : Char) : Option Nat :=
  if 48 ≤ c.toNat ∧ c.toNat ≤ 57 then some (c.toNat - 48)
  else if 97 ≤ c.toNat ∧ c.toNat ≤ 102 then some (c.toNat - 87)
  else if 65 ≤ c.toNat ∧ c.toNat ≤ 70 then some (c.toNat - 55)
  else none

def hex4 (a b c d : Char) : Option Nat := do
  let a ← hexVal a
  let b ← hexVal b
  let c ← hexVal c
  let d ← hexVal d
  some (a * 4096 + b * 256 + c * 16 + d)

def unescape (c : Char) : Option Char :=
  if c = '\x22' then some '\x22'
  else if c = '\x5c' then some '\x5c'
  else if c = '/' then some '/'
  else if c = 'b' then some '\x08'
  else if c = 'f' then some '\x0c'
  else if c = 'n' then some '\x0a'
  else if c = 'r' then some '\x0d'
  else if c = 't' then some '\x09'
  else none

def readString : List Char → Option (List Char × List Char)
  | [] => none
  | c :: rest =>
    if c = '\x22' then some ([], rest)
    else if c = '\x5c' then
      match rest with
      | [] => none
      | e :: rest =>
        if e = 'u' then
          match rest with
          | x :: y :: z :: w :: rest =>
            match hex4 x y z w with
            | none => none
            | some n =>
              if n < 0xD800 ∨ 0xDFFF < n then (readString rest).map (fun r => (Char.ofNat n :: r.1, r.2))
              else if 0xDC00 ≤ n then none
              else match rest with
                | b :: u :: x :: y :: z :: w :: rest =>
                  match hex4 x y z w with
                  | none => none
                  | some m =>
                    if b = '\x5c' ∧ u = 'u' ∧ 0xDC00 ≤ m ∧ m ≤ 0xDFFF then
                      (readString rest).map
                        (fun r => (Char.ofNat (0x10000 + (n - 0xD800) * 0x400 + (m - 0xDC00)) :: r.1, r.2))
                    else none
                | _ => none
          | _ => none
        else match unescape e with
          | none => none
          | some c => (readString rest).map (fun r => (c :: r.1, r.2))
    else if c.toNat < 32 then none
    else (readString rest).map (fun r => (c :: r.1, r.2))

/-! ## Numbers -/

/-- An exponent after its `e`: an optional sign and at least one digit. -/
def readExponent (cs : List Char) : Option (List Char × List Char) :=
  let sign := (cs.take 1).filter (fun c => c == '+' || c == '-')
  let cs := cs.drop sign.length
  let ds := cs.takeWhile Char.isDigit
  if ds = [] then none else some (sign ++ ds, cs.dropWhile Char.isDigit)

def readFraction (cs : List Char) : Option (List Char × List Char) := let point : Option (List Char × List Char) :=
    match cs with
    | '.' :: cs =>
      let ds := cs.takeWhile Char.isDigit
      if ds = [] then none else some ('.' :: ds, cs.dropWhile Char.isDigit)
    | cs => some ([], cs)
  match point with
  | none => none
  | some (text, cs) =>
    match cs with
    | c :: cs' => if c = 'e' ∨ c = 'E' then (readExponent cs').map (fun r => (text ++ c :: r.1, r.2)) else some (text, cs)
    | [] => some (text, [])

def readDigits (cs : List Char) : Option (List Char × List Char) :=
  let ds := cs.takeWhile Char.isDigit
  if ds = [] ∨ (ds.head? = some '0' ∧ 1 < ds.length) then none else some (ds, cs.dropWhile Char.isDigit)

/-- The digits after `s` as far as 64 bits hold them, and how many are left out. -/
def significand (s : Nat) : List Char → Nat × Nat
  | [] => (s, 0)
  | c :: ds => if 2 ^ 64 ≤ s * 10 + (c.toNat - 48) then (s, ds.length + 1) else significand (s * 10 + (c.toNat - 48)) ds

/-- The nearest number of 53 bits, of two the even one. -/
def roundF64 (n : Nat) : Nat :=
  let k := n.log2 - 52
  let q := n / 2 ^ k
  let r := n % 2 ^ k
  (if 2 ^ k < 2 * r ∨ (2 ^ k = 2 * r ∧ q % 2 = 1) then q + 1 else q) * 2 ^ k

/-- The power of ten a fraction names. -/
def powerOf (frac : List Char) : Int :=
  match (frac.dropWhile (fun c => c != 'e' && c != 'E')).drop 1 with
  | '-' :: ds => -(Nat.ofDigitChars 10 ds 0 : Int)
  | '+' :: ds => Nat.ofDigitChars 10 ds 0
  | ds => Nat.ofDigitChars 10 ds 0

/-- A number is out of range when its digits times its power of ten, both rounded, round to infinity. -/
def outOfRange (ds frac : List Char) : Bool :=
  let whole := significand 0 ds
  let decimals := match frac with
    | '.' :: cs => cs.takeWhile Char.isDigit
    | _ => []
  let all := significand whole.1 decimals
  let exponent := (whole.2 : Int) - (decimals.length - all.2 : Nat) + powerOf frac
  all.1 != 0 && decide (0 ≤ exponent) &&
    (decide (308 < exponent) || decide (2 ^ 1024 - 2 ^ 970 ≤ roundF64 all.1 * roundF64 (10 ^ exponent.toNat)))

def numberText (neg : Bool) (ds frac : List Char) : List Char := (if neg then ['-'] else []) ++ ds ++ frac

def floatOf (neg : Bool) (ds frac : List Char) : Option Json :=
  if outOfRange ds frac then none else some (.float (numberText neg ds frac))

def numberOf (neg : Bool) (ds frac : List Char) : Option Json :=
  let n := Nat.ofDigitChars 10 ds 0
  if frac ≠ [] then floatOf neg ds frac
  else if neg then if 0 < n ∧ n ≤ 2 ^ 63 then some (.int (-n)) else floatOf neg ds frac
  else if n < 2 ^ 64 then some (.int n)
  else floatOf neg ds frac

def readNumber (neg : Bool) (cs : List Char) : Option (Json × List Char) :=
  (readDigits cs).bind (fun d => (readFraction d.2).bind (fun f => (numberOf neg d.1 f.1).map (fun j => (j, f.2))))

/-! ## Values -/

def isBlank (c : Char) : Bool := c == ' ' || c == '\x09' || c == '\x0a' || c == '\x0d'

def skipBlanks (cs : List Char) : List Char := cs.dropWhile isBlank

def readLiteral (word : List Char) (j : Json) (cs : List Char) : Option (Json × List Char) :=
  if word.isPrefixOf cs then some (j, cs.drop word.length) else none

mutual
def readValue : Nat → Nat → List Char → Option (Json × List Char)
  | 0, _, _ => none
  | fuel + 1, depth, cs =>
    match skipBlanks cs with
    | [] => none
    | c :: rest =>
      if c = '\x22' then (readString rest).map (fun r => (.str (String.ofList r.1), r.2))
      else if c = '[' then
        if depth ≤ 1 then none
        else match skipBlanks rest with
          | ']' :: rest => some (.arr [], rest)
          | rest => (readItems fuel (depth - 1) rest).map (fun r => (.arr r.1, r.2))
      else if c = '\x7b' then
        if depth ≤ 1 then none
        else match skipBlanks rest with
          | '\x7d' :: rest => some (.obj [], rest)
          | rest => (readFields fuel (depth - 1) rest).map (fun r => (.obj r.1, r.2))
      else if c = 'n' then readLiteral ['u', 'l', 'l'] .null rest
      else if c = 't' then readLiteral ['r', 'u', 'e'] (.bool true) rest
      else if c = 'f' then readLiteral ['a', 'l', 's', 'e'] (.bool false) rest
      else if c = '-' then readNumber true rest
      else readNumber false (c :: rest)
def readItems : Nat → Nat → List Char → Option (List Json × List Char)
  | 0, _, _ => none
  | fuel + 1, depth, cs =>
    match readValue fuel depth cs with
    | none => none
    | some (j, rest) =>
      match skipBlanks rest with
      | ',' :: rest => (readItems fuel depth rest).map (fun r => (j :: r.1, r.2))
      | ']' :: rest => some ([j], rest)
      | _ => none
def readFields : Nat → Nat → List Char → Option (List (String × Json) × List Char)
  | 0, _, _ => none
  | fuel + 1, depth, cs =>
    match skipBlanks cs with
    | '\x22' :: rest =>
      match readString rest with
      | none => none
      | some (n, rest) =>
        match skipBlanks rest with
        | ':' :: rest =>
          match readValue fuel depth rest with
          | none => none
          | some (j, rest) =>
            match skipBlanks rest with
            | ',' :: rest => (readFields fuel depth rest).map (fun r => ((String.ofList n, j) :: r.1, r.2))
            | '\x7d' :: rest => some ([(String.ofList n, j)], rest)
            | _ => none
        | _ => none
    | _ => none
end

def maxDepth : Nat := 128

def parse (text : List Char) : Option Json :=
  match readValue (2 * text.length + 2) maxDepth text with
  | some (j, rest) => if skipBlanks rest = [] then some j else none
  | none => none

/-! ## Strings read back -/

theorem hexVal_digitChar {n : Nat} (h : n < 16) : hexVal n.digitChar = some n := by
  interval_cases n <;> decide

theorem readString_escape (c : Char) (rest : List Char) :
    readString (escapeChar c ++ rest) = (readString rest).map (fun r => (c :: r.1, r.2)) := by
  unfold escapeChar
  split_ifs with h1 h2 h3 h4 h5 h6 h7 h8
  · subst h1; rw [readString.eq_def]; rfl
  · subst h2; rw [readString.eq_def]; rfl
  · subst h3; rw [readString.eq_def]; rfl
  · subst h4; rw [readString.eq_def]; rfl
  · subst h5; rw [readString.eq_def]; rfl
  · subst h6; rw [readString.eq_def]; rfl
  · subst h7; rw [readString.eq_def]; rfl
  · have hx : hex4 '0' '0' (c.toNat / 16).digitChar (c.toNat % 16).digitChar = some c.toNat := by
      have h0 : hexVal '0' = some 0 := by decide
      simp only [hex4, h0, hexVal_digitChar (show c.toNat / 16 < 16 by omega),
        hexVal_digitChar (Nat.mod_lt _ (by decide : 0 < 16)), Option.bind_eq_bind, Option.bind_some]
      congr 1
      omega
    rw [readString.eq_def]
    simp only [cons_append, nil_append, hx]
    rw [if_neg (by decide), if_pos trivial, if_pos trivial]
    rw [if_pos (Or.inl (by omega)), Char.ofNat_toNat]
  · rw [singleton_append, readString.eq_def]
    simp only [if_neg h1, if_neg h2, if_neg h8]

theorem readString_write : ∀ (s rest : List Char), readString (s.flatMap escapeChar ++ '\x22' :: rest) = some (s, rest)
  | [], rest => by rw [flatMap_nil, readString.eq_def]; rfl
  | c :: s, rest => by
    rw [flatMap_cons, append_assoc, readString_escape, readString_write s rest]
    rfl

/-! ## Numbers read back -/

def Follow (rest : List Char) : Prop := ∀ c t, rest = c :: t → c.isDigit = false ∧ c ≠ '.' ∧ c ≠ 'e' ∧ c ≠ 'E'

theorem Follow.nil : Follow [] := nofun

theorem Follow.cons (h : c.isDigit = false ∧ c ≠ '.' ∧ c ≠ 'e' ∧ c ≠ 'E') (t : List Char) :
    Follow (c :: t) := fun _ _ e => by cases e; exact h

theorem isDigit_toDigits (n : Nat) : ∀ c ∈ Nat.toDigits 10 n, c.isDigit = true :=
  fun _ hc => Nat.isDigit_of_mem_toDigits (by decide) (by decide) hc

theorem head?_toDigits (n : Nat) (h : 0 < n) : (Nat.toDigits 10 n).head? ≠ some '0' := by
  induction n using Nat.strong_induction_on with
  | _ n ih =>
    by_cases hn : n < 10
    · rw [Nat.toDigits_of_lt_base hn]
      simp only [head?_cons, ne_eq, Option.some.injEq, Nat.digitChar_eq_zero]
      omega
    · rw [Nat.toDigits_of_base_le (by decide) (by omega), head?_append_of_ne_nil _ Nat.toDigits_ne_nil]
      exact ih (n / 10) (by omega) (by omega)

theorem takeWhile_digits (n : Nat) (rest : List Char) (hf : Follow rest) :
    (Nat.toDigits 10 n ++ rest).takeWhile Char.isDigit = Nat.toDigits 10 n := by
  rw [takeWhile_append_of_pos (isDigit_toDigits n)]
  cases rest with
  | nil => simp
  | cons c t => rw [takeWhile_cons_of_neg (by simp [(hf c t rfl).1]), append_nil]

theorem dropWhile_digits (n : Nat) (rest : List Char) (hf : Follow rest) :
    (Nat.toDigits 10 n ++ rest).dropWhile Char.isDigit = rest := by
  rw [dropWhile_append_of_pos (isDigit_toDigits n)]
  cases rest with
  | nil => rfl
  | cons c t => rw [dropWhile_cons_of_neg (by simp [(hf c t rfl).1])]

theorem readDigits_toDigits (n : Nat) (rest : List Char) (hf : Follow rest) :
    readDigits (Nat.toDigits 10 n ++ rest) = some (Nat.toDigits 10 n, rest) := by
  unfold readDigits
  rw [takeWhile_digits n rest hf, dropWhile_digits n rest hf]
  refine if_neg ?_
  rintro (h | ⟨h0, hl⟩)
  · exact Nat.toDigits_ne_nil h
  · rcases Nat.eq_zero_or_pos n with rfl | hn
    · simp at hl
    · exact head?_toDigits n hn h0

theorem readFraction_follow (rest : List Char) (hf : Follow rest) : readFraction rest = some ([], rest) := by
  cases rest with
  | nil => rfl
  | cons c t =>
    obtain ⟨-, hp, he, hE⟩ := hf c t rfl
    unfold readFraction
    split
    · rename_i h; exact absurd (cons.inj h).1 hp
    · simp [he, hE]

theorem readNumber_nat (n : Nat) (hn : n < 2 ^ 64) (rest : List Char) (hf : Follow rest) :
    readNumber false (Nat.toDigits 10 n ++ rest) = some (.int n, rest) := by
  unfold readNumber
  rw [readDigits_toDigits n rest hf, Option.bind_some, readFraction_follow rest hf, Option.bind_some]
  simp only [numberOf, Nat.ofDigitChars_ten_toDigits]
  rw [if_neg (by simp), if_neg (by decide), if_pos hn, Option.map_some]

theorem readNumber_neg (n : Nat) (h0 : 0 < n) (hn : n ≤ 2 ^ 63) (rest : List Char) (hf : Follow rest) :
    readNumber true (Nat.toDigits 10 n ++ rest) = some (.int (-n), rest) := by
  unfold readNumber
  rw [readDigits_toDigits n rest hf, Option.bind_some, readFraction_follow rest hf, Option.bind_some]
  simp only [numberOf, Nat.ofDigitChars_ten_toDigits]
  rw [if_neg (by simp), if_pos trivial, if_pos ⟨h0, hn⟩, Option.map_some]

/-! ## Values read back -/

/-- The text of a number that is kept as text: it reads as itself, whatever follows. -/
def FloatText (text : List Char) : Prop := ∃ neg c t, text = (if neg then ['-'] else []) ++ c :: t ∧ c.isDigit = true ∧
    ∀ rest, Follow rest → readNumber neg (c :: t ++ rest) = some (.float text, rest)

mutual
/-- The values a text can carry: integers of 64 bits, numbers kept as text that read as themselves. -/
def Repr : Json → Prop
  | .null | .bool _ | .str _ => True
  | .int n => -(2 ^ 63) ≤ n ∧ n < 2 ^ 64
  | .float text => FloatText text
  | .arr items => ReprItems items
  | .obj fields => ReprFields fields
def ReprItems : List Json → Prop
  | [] => True
  | j :: l => Repr j ∧ ReprItems l
def ReprFields : List (String × Json) → Prop
  | [] => True
  | (_, j) :: l => Repr j ∧ ReprFields l
end

mutual
def nesting : Json → Nat
  | .null | .bool _ | .int _ | .float _ | .str _ => 0
  | .arr items => nestingItems items + 1
  | .obj fields => nestingFields fields + 1
def nestingItems : List Json → Nat
  | [] => 0
  | j :: l => max (nesting j) (nestingItems l)
def nestingFields : List (String × Json) → Nat
  | [] => 0
  | (_, j) :: l => max (nesting j) (nestingFields l)
end

mutual
def need : Json → Nat
  | .null | .bool _ | .int _ | .float _ | .str _ => 1
  | .arr items => needItems items + 1
  | .obj fields => needFields fields + 1
def needItems : List Json → Nat
  | [] => 0
  | j :: l => need j + needItems l + 1
def needFields : List (String × Json) → Nat
  | [] => 0
  | (_, j) :: l => need j + needFields l + 1
end

theorem skipBlanks_cons (h : isBlank c = false) (t : List Char) : skipBlanks (c :: t) = c :: t := by
  unfold skipBlanks
  rw [dropWhile_cons_of_neg (by simp [h])]

theorem ne_of_isDigit {c d : Char} (h : c.isDigit = true) (hd : d.isDigit = false) : c ≠ d := by
  rintro rfl; rw [h] at hd; cases hd

theorem isBlank_of_isDigit (h : c.isDigit = true) : isBlank c = false := by
  simp only [isBlank, Bool.or_eq_false_iff, beq_eq_false_iff_ne]
  exact ⟨⟨⟨ne_of_isDigit h (by decide), ne_of_isDigit h (by decide)⟩, ne_of_isDigit h (by decide)⟩, ne_of_isDigit h (by decide)⟩

theorem toDigits_cons (n : Nat) : ∃ c t, Nat.toDigits 10 n = c :: t ∧ c.isDigit = true := by
  cases h : Nat.toDigits 10 n with
  | nil => exact absurd h Nat.toDigits_ne_nil
  | cons c t => exact ⟨c, t, rfl, isDigit_toDigits n c (by rw [h]; exact mem_cons_self)⟩

theorem write_cons : ∀ (j : Json), Repr j → ∃ c t, write j = c :: t ∧ isBlank c = false ∧ c ≠ ']'
  | .null, _ | .bool true, _ | .bool false, _ | .str _, _ | .arr _, _ | .obj _, _ => ⟨_, _, rfl, by decide, by decide⟩
  | .int n, _ => by
    obtain ⟨c, t, hct, hc⟩ := toDigits_cons n.natAbs
    rw [write, writeInt]
    split
    · exact ⟨_, _, rfl, by decide, by decide⟩
    · exact ⟨c, t, hct, isBlank_of_isDigit hc, ne_of_isDigit hc (by decide)⟩
  | .float text, h => by
    obtain ⟨neg, c, t, rfl, hc, -⟩ := h
    cases neg with
    | true => exact ⟨_, _, rfl, by decide, by decide⟩
    | false => exact ⟨c, t, rfl, isBlank_of_isDigit hc, ne_of_isDigit hc (by decide)⟩

theorem readValue_digit (fuel depth : Nat) (h : c.isDigit = true) (t : List Char) :
    readValue (fuel + 1) depth (c :: t) = readNumber false (c :: t) := by
  rw [readValue, skipBlanks_cons (isBlank_of_isDigit h)]
  simp only [if_neg (ne_of_isDigit h (show Char.isDigit '\x22' = false by decide)),
    if_neg (ne_of_isDigit h (show Char.isDigit '[' = false by decide)),
    if_neg (ne_of_isDigit h (show Char.isDigit '\x7b' = false by decide)),
    if_neg (ne_of_isDigit h (show Char.isDigit 'n' = false by decide)),
    if_neg (ne_of_isDigit h (show Char.isDigit 't' = false by decide)),
    if_neg (ne_of_isDigit h (show Char.isDigit 'f' = false by decide)),
    if_neg (ne_of_isDigit h (show Char.isDigit '-' = false by decide))]

theorem readValue_minus (fuel depth : Nat) (t : List Char) : readValue (fuel + 1) depth ('-' :: t) = readNumber true t := by
  rfl

theorem readValue_int (n : Int) (fuel depth : Nat) (rest : List Char) (hr : -(2 ^ 63) ≤ n ∧ n < 2 ^ 64)
    (hf : Follow rest) : readValue (fuel + 1) depth (writeInt n ++ rest) = some (.int n, rest) := by
  unfold writeInt
  split
  · rw [cons_append, readValue_minus, readNumber_neg _ (by omega) (by omega) rest hf]
    congr 3
    omega
  · obtain ⟨c, t, hct, hc⟩ := toDigits_cons n.natAbs
    have hread := readNumber_nat n.natAbs (by omega) rest hf
    rw [hct, cons_append] at hread ⊢
    rw [readValue_digit fuel depth hc, hread]
    congr 3
    omega

theorem Follow.comma (t : List Char) : Follow (',' :: t) := Follow.cons (by decide) t
theorem Follow.bracket (t : List Char) : Follow (']' :: t) := Follow.cons (by decide) t
theorem Follow.brace (t : List Char) : Follow ('\x7d' :: t) := Follow.cons (by decide) t

/-! ## Blanks -/

theorem skipBlanks_append {blanks : List Char} (h : ∀ c ∈ blanks, isBlank c = true) (cs : List Char) :
    skipBlanks (blanks ++ cs) = skipBlanks cs :=
  dropWhile_append_of_pos h

theorem skipBlanks_skipBlanks (cs : List Char) : skipBlanks (skipBlanks cs) = skipBlanks cs := dropWhile_idempotent _ _

theorem readValue_skipBlanks (fuel depth : Nat) (cs : List Char) : readValue fuel depth (skipBlanks cs) = readValue fuel depth cs := by
  cases fuel with
  | zero => rw [readValue, readValue]
  | succ fuel => rw [readValue, readValue, skipBlanks_skipBlanks]

theorem readItems_skipBlanks (fuel depth : Nat) (cs : List Char) : readItems fuel depth (skipBlanks cs) = readItems fuel depth cs := by
  cases fuel with
  | zero => rw [readItems, readItems]
  | succ fuel => rw [readItems, readItems, readValue_skipBlanks]

theorem readFields_skipBlanks (fuel depth : Nat) (cs : List Char) :
    readFields fuel depth (skipBlanks cs) = readFields fuel depth cs := by
  cases fuel with
  | zero => rw [readFields, readFields]
  | succ fuel => rw [readFields, readFields, skipBlanks_skipBlanks]

theorem readValue_blanks {blanks : List Char} (h : ∀ c ∈ blanks, isBlank c = true) (fuel depth : Nat) (cs : List Char) :
    readValue fuel depth (blanks ++ cs) = readValue fuel depth cs := by
  rw [← readValue_skipBlanks, skipBlanks_append h, readValue_skipBlanks]

theorem Follow.blanks {blanks rest : List Char} (h : ∀ c ∈ blanks, isBlank c = true) (hrest : Follow rest) :
    Follow (blanks ++ rest) := by
  cases blanks with
  | nil => exact hrest
  | cons c blanks =>
    have hc := h c mem_cons_self
    simp only [isBlank, Bool.or_eq_true, beq_iff_eq] at hc
    refine Follow.cons ?_ _
    rcases hc with ((rfl | rfl) | rfl) | rfl <;> decide

/-! ## A value laid out with blanks -/

mutual
/-- A value as `write` writes it, `gap` in front of its items, its members and its last bracket, `sep` behind a colon. -/
def layout (gap : Nat → List Char) (sep : List Char) (level : Nat) : Json → List Char
  | .arr items => '[' :: (layoutItems gap sep (level + 1) items ++ ((if items.isEmpty then [] else gap level) ++ [']']))
  | .obj fields => '\x7b' :: (layoutFields gap sep (level + 1) fields ++ ((if fields.isEmpty then [] else gap level) ++ ['\x7d']))
  | .null => write .null
  | .bool b => write (.bool b)
  | .int n => write (.int n)
  | .float text => write (.float text)
  | .str s => write (.str s)
def layoutItems (gap : Nat → List Char) (sep : List Char) (level : Nat) : List Json → List Char
  | [] => []
  | [j] => gap level ++ layout gap sep level j
  | j :: k :: l => gap level ++ (layout gap sep level j ++ ',' :: layoutItems gap sep level (k :: l))
def layoutFields (gap : Nat → List Char) (sep : List Char) (level : Nat) : List (String × Json) → List Char
  | [] => []
  | [(n, j)] => gap level ++ (writeString n ++ ':' :: (sep ++ layout gap sep level j))
  | (n, j) :: k :: l =>
    gap level ++ (writeString n ++ ':' :: (sep ++ (layout gap sep level j ++ ',' :: layoutFields gap sep level (k :: l))))
end

mutual
theorem layout_write (level : Nat) : ∀ j : Json, layout (fun _ => []) [] level j = write j
  | .null | .bool _ | .int _ | .float _ | .str _ => by rw [layout]
  | .arr items => by
    rw [layout, layout_writeItems, write, ite_self, nil_append]
  | .obj fields => by
    rw [layout, layout_writeFields, write, ite_self, nil_append]
theorem layout_writeItems : ∀ (items : List Json) (level : Nat), layoutItems (fun _ => []) [] level items = writeItems items
  | [], _ => by rw [layoutItems, writeItems]
  | [j], _ => by rw [layoutItems, writeItems, layout_write, nil_append]
  | j :: k :: l, _ => by rw [layoutItems, writeItems, layout_write, layout_writeItems, nil_append]
theorem layout_writeFields :
    ∀ (fields : List (String × Json)) (level : Nat), layoutFields (fun _ => []) [] level fields = writeFields fields
  | [], _ => by rw [layoutFields, writeFields]
  | [(n, j)], _ => by rw [layoutFields, writeFields, layout_write, nil_append, nil_append]
  | (n, j) :: k :: l, _ => by
    rw [layoutFields, writeFields, layout_write, layout_writeFields, nil_append, nil_append]
end

variable {gap : Nat → List Char} {sep : List Char}

theorem layout_cons (level : Nat) : ∀ j : Json, Repr j → ∃ c t, layout gap sep level j = c :: t ∧ isBlank c = false ∧ c ≠ ']'
  | .arr _, _ | .obj _, _ => ⟨_, _, by rw [layout], by decide, by decide⟩
  | .null, h | .bool _, h | .int _, h | .float _, h | .str _, h => by
    rw [layout]
    exact write_cons _ h

variable (hblank : (∀ n, ∀ c ∈ gap n, isBlank c = true) ∧ ∀ c ∈ sep, isBlank c = true)

include hblank in
theorem layoutItems_cons (level : Nat) {items : List Json} (hne : items ≠ []) (hr : ReprItems items) (rest : List Char) :
    ∃ c t, skipBlanks (layoutItems gap sep level items ++ rest) = c :: t ∧ c ≠ ']' := by
  match items with
  | [j] =>
    obtain ⟨c, t, hct, hb, hc⟩ := @layout_cons gap sep level j hr.1
    rw [layoutItems, append_assoc, skipBlanks_append (hblank.1 _), hct, cons_append, skipBlanks_cons hb]
    exact ⟨c, _, rfl, hc⟩
  | j :: k :: l =>
    obtain ⟨c, t, hct, hb, hc⟩ := @layout_cons gap sep level j hr.1
    rw [layoutItems, append_assoc, skipBlanks_append (hblank.1 _), hct, cons_append, cons_append, skipBlanks_cons hb]
    exact ⟨c, _, rfl, hc⟩

include hblank in
theorem layoutFields_cons (level : Nat) {fields : List (String × Json)} (hne : fields ≠ []) (rest : List Char) :
    ∃ t, skipBlanks (layoutFields gap sep level fields ++ rest) = '\x22' :: t := by
  match fields with
  | [(n, j)] | (n, j) :: k :: l =>
    rw [layoutFields, append_assoc, skipBlanks_append (hblank.1 _), writeString, cons_append, cons_append, skipBlanks_cons (by decide)]
    exact ⟨_, rfl⟩

include hblank in
mutual
theorem readValue_layout : ∀ (j : Json) (level fuel depth : Nat) (rest : List Char), Repr j → nesting j < depth →
    need j ≤ fuel → Follow rest → readValue fuel depth (layout gap sep level j ++ rest) = some (j, rest)
  | .null, _, fuel + 1, depth, rest, _, _, _, _ | .bool true, _, fuel + 1, depth, rest, _, _, _, _
  | .bool false, _, fuel + 1, depth, rest, _, _, _, _ => by
    rw [layout]
    rfl
  | .int n, _, fuel + 1, depth, rest, hr, _, _, hf => by
    rw [layout]
    exact readValue_int n fuel depth rest hr hf
  | .float text, _, fuel + 1, depth, rest, hr, _, _, hf => by
    obtain ⟨neg, c, t, htext, hc, hread⟩ := hr
    rw [layout, write]
    cases neg with
    | true => rw [← hread rest hf, htext, if_pos rfl, singleton_append, cons_append, readValue_minus]
    | false => rw [← hread rest hf, htext, if_neg (by decide), nil_append, cons_append, readValue_digit _ _ hc]
  | .str s, _, fuel + 1, depth, rest, _, _, _, _ => by
    rw [layout, write, writeString, cons_append, readValue, skipBlanks_cons (by decide)]
    simp only [if_true, append_assoc, singleton_append, readString_write, Option.map_some, String.ofList_toList]
  | .arr [], _, fuel + 1, depth, rest, _, hd, _, _ => by
    rw [nesting] at hd
    rw [layout, layoutItems, cons_append, readValue]
    simp only [if_neg (show ¬ depth ≤ 1 by omega)]
    rfl
  | .arr (j :: l), level, fuel + 1, depth, rest, hr, hd, hn, hf => by
    rw [nesting] at hd
    rw [need] at hn
    have hitems := readItems_layout (j :: l) level (level + 1) fuel (depth - 1) rest (by simp) hr (by omega) (by omega)
    obtain ⟨c, t, hct, hne⟩ := layoutItems_cons hblank (level + 1) (cons_ne_nil j l) hr (gap level ++ ']' :: rest)
    rw [layout, cons_append, append_assoc, append_assoc, readValue, skipBlanks_cons (by decide)]
    simp only [if_neg (show ¬ '[' = '\x22' by decide), if_true, if_neg (show ¬ depth ≤ 1 by omega), isEmpty_cons,
      if_neg Bool.false_ne_true, singleton_append]
    rw [← readItems_skipBlanks, hct] at hitems
    rw [hct]
    split
    · rename_i h; exact absurd (cons.inj h).1 hne
    · rw [hitems]; rfl
  | .obj [], _, fuel + 1, depth, rest, _, hd, _, _ => by
    rw [nesting] at hd
    rw [layout, layoutFields, cons_append, readValue]
    simp only [if_neg (show ¬ depth ≤ 1 by omega)]
    rfl
  | .obj (f :: l), level, fuel + 1, depth, rest, hr, hd, hn, hf => by
    rw [nesting] at hd
    rw [need] at hn
    have hfields := readFields_layout (f :: l) level (level + 1) fuel (depth - 1) rest (by simp) hr (by omega) (by omega)
    obtain ⟨t, hct⟩ := layoutFields_cons hblank (level + 1) (cons_ne_nil f l) (gap level ++ '\x7d' :: rest)
    rw [layout, cons_append, append_assoc, append_assoc, readValue, skipBlanks_cons (by decide)]
    simp only [if_neg (show ¬ '\x7b' = '\x22' by decide), if_neg (show ¬ '\x7b' = '[' by decide), if_true,
      if_neg (show ¬ depth ≤ 1 by omega), isEmpty_cons, if_neg Bool.false_ne_true, singleton_append]
    rw [← readFields_skipBlanks, hct] at hfields
    rw [hct]
    split
    · rename_i h; exact absurd (cons.inj h).1 (by decide)
    · rw [hfields]; rfl
  | .null, _, 0, _, _, _, _, hn, _ | .bool _, _, 0, _, _, _, _, hn, _ | .int _, _, 0, _, _, _, _, hn, _
  | .float _, _, 0, _, _, _, _, hn, _ | .str _, _, 0, _, _, _, _, hn, _ | .arr _, _, 0, _, _, _, _, hn, _
  | .obj _, _, 0, _, _, _, _, hn, _ => by rw [need] at hn; omega
theorem readItems_layout : ∀ (items : List Json) (outer level fuel depth : Nat) (rest : List Char), items ≠ [] →
    ReprItems items → nestingItems items < depth → needItems items ≤ fuel →
    readItems fuel depth (layoutItems gap sep level items ++ (gap outer ++ ']' :: rest)) = some (items, rest)
  | [], _, _, _, _, _, h, _, _, _ => absurd rfl h
  | _ :: _, _, _, 0, _, _, _, _, _, hn => by rw [needItems] at hn; omega
  | [j], outer, level, fuel + 1, depth, rest, _, hr, hd, hn => by
    rw [nestingItems] at hd
    rw [needItems] at hn
    rw [layoutItems, append_assoc, readItems, readValue_blanks (hblank.1 _),
      readValue_layout j level fuel depth _ hr.1 (by omega) (by omega) (.blanks (hblank.1 _) (.bracket _))]
    dsimp only
    rw [skipBlanks_append (hblank.1 _), skipBlanks_cons (by decide)]
    rfl
  | j :: k :: l, outer, level, fuel + 1, depth, rest, _, hr, hd, hn => by
    rw [nestingItems] at hd
    rw [needItems] at hn
    rw [layoutItems, append_assoc, append_assoc, cons_append, readItems, readValue_blanks (hblank.1 _),
      readValue_layout j level fuel depth _ hr.1 (by omega) (by omega) (.comma _)]
    dsimp only
    rw [skipBlanks_cons (by decide)]
    simp only [readItems_layout (k :: l) outer level fuel depth rest (by simp) hr.2 (by omega) (by omega), Option.map_some]
theorem readFields_layout : ∀ (fields : List (String × Json)) (outer level fuel depth : Nat) (rest : List Char), fields ≠ [] →
    ReprFields fields → nestingFields fields < depth → needFields fields ≤ fuel →
    readFields fuel depth (layoutFields gap sep level fields ++ (gap outer ++ '\x7d' :: rest)) = some (fields, rest)
  | [], _, _, _, _, _, h, _, _, _ => absurd rfl h
  | _ :: _, _, _, 0, _, _, _, _, _, hn => by rw [needFields] at hn; omega
  | [(n, j)], outer, level, fuel + 1, depth, rest, _, hr, hd, hn => by
    rw [nestingFields] at hd
    rw [needFields] at hn
    rw [layoutFields, append_assoc, readFields, skipBlanks_append (hblank.1 _), writeString, cons_append, cons_append,
      skipBlanks_cons (by decide)]
    simp only [append_assoc, cons_append, nil_append, readString_write]
    rw [skipBlanks_cons (by decide)]
    simp only [readValue_blanks hblank.2, String.ofList_toList,
      readValue_layout j level fuel depth _ hr.1 (by omega) (by omega) (.blanks (hblank.1 _) (.brace _))]
    rw [skipBlanks_append (hblank.1 _), skipBlanks_cons (by decide)]
    rfl
  | (n, j) :: k :: l, outer, level, fuel + 1, depth, rest, _, hr, hd, hn => by
    rw [nestingFields] at hd
    rw [needFields] at hn
    rw [layoutFields, append_assoc, readFields, skipBlanks_append (hblank.1 _), writeString, cons_append, cons_append,
      skipBlanks_cons (by decide)]
    simp only [append_assoc, cons_append, nil_append, readString_write]
    rw [skipBlanks_cons (by decide)]
    simp only [readValue_blanks hblank.2, String.ofList_toList,
      readValue_layout j level fuel depth _ hr.1 (by omega) (by omega) (.comma _)]
    rw [skipBlanks_cons (by decide)]
    simp only [readFields_layout (k :: l) outer level fuel depth rest (by simp) hr.2 (by omega) (by omega), Option.map_some]
end

/-! ## Enough fuel -/

mutual
theorem need_le_layout : ∀ (j : Json) (level : Nat), Repr j → need j ≤ 2 * (layout gap sep level j).length
  | .null, level, h | .bool _, level, h | .int _, level, h | .float _, level, h | .str _, level, h => by
    obtain ⟨c, t, hct, -⟩ := @layout_cons gap sep level _ h
    rw [need, hct, length_cons]
    omega
  | .arr items, level, h => by
    have := needItems_le_layout items (level + 1) h
    rw [need, layout, length_cons, length_append, length_append, length_singleton]
    omega
  | .obj fields, level, h => by
    have := needFields_le_layout fields (level + 1) h
    rw [need, layout, length_cons, length_append, length_append, length_singleton]
    omega
theorem needItems_le_layout : ∀ (items : List Json) (level : Nat), ReprItems items →
    needItems items ≤ 2 * (layoutItems gap sep level items).length + 1
  | [], _, _ => by
    rw [needItems]
    exact Nat.zero_le _
  | [j], level, h => by
    have := need_le_layout j level h.1
    simp only [needItems, layoutItems, length_append]
    omega
  | j :: k :: l, level, h => by
    have h1 := need_le_layout j level h.1
    have h2 := needItems_le_layout (k :: l) level h.2
    rw [needItems, layoutItems, length_append, length_append, length_cons]
    omega
theorem needFields_le_layout : ∀ (fields : List (String × Json)) (level : Nat), ReprFields fields →
    needFields fields ≤ 2 * (layoutFields gap sep level fields).length + 1
  | [], _, _ => by
    rw [needFields]
    exact Nat.zero_le _
  | [(n, j)], level, h => by
    have := need_le_layout j level h.1
    simp only [needFields, layoutFields, length_append, length_cons]
    omega
  | (n, j) :: k :: l, level, h => by
    have h1 := need_le_layout j level h.1
    have h2 := needFields_le_layout (k :: l) level h.2
    simp only [needFields, layoutFields, length_append, length_cons] at h2 ⊢
    omega
end

theorem need_le (j : Json) (h : Repr j) : need j ≤ 2 * (write j).length := by
  rw [← layout_write 0]
  exact need_le_layout j 0 h

theorem readValue_write (j : Json) (fuel depth : Nat) (rest : List Char) (hr : Repr j) (hd : nesting j < depth)
    (hn : need j ≤ fuel) (hf : Follow rest) : readValue fuel depth (write j ++ rest) = some (j, rest) := by
  rw [← layout_write 0]
  exact readValue_layout ⟨fun _ => forall_mem_nil _, forall_mem_nil _⟩ j 0 fuel depth rest hr hd hn hf

def parseWithin (depth : Nat) (text : List Char) : Option Json :=
  match readValue (2 * text.length + 2) depth text with
  | some (j, rest) => if skipBlanks rest = [] then some j else none
  | none => none

theorem parseWithin_write {j : Json} {depth : Nat} (hr : Repr j) (hd : nesting j < depth) : parseWithin depth (write j) = some j := by
  unfold parseWithin
  have hn := need_le j hr
  have hread := readValue_write j (2 * (write j).length + 2) depth [] hr hd (by omega) Follow.nil
  rw [append_nil] at hread
  rw [hread]
  rfl

/-- **Writing then parsing is the identity** on representable values within the recursion limit. -/
theorem parse_write (j : Json) (hr : Repr j) (hd : nesting j < maxDepth) : parse (write j) = some j := parseWithin_write hr hd

/-! ## Bytes -/

def fromSlice (bytes : List UInt8) : Option Json := (String.fromUTF8? bytes.toByteArray).bind fun s => parse s.toList

theorem fromUTF8?_utf8 (text : List Char) : String.fromUTF8? (utf8 text).toByteArray = some (String.ofList text) := by
  have hv : (utf8 text).toByteArray.IsValidUTF8 := .intro text rfl
  unfold String.fromUTF8?
  rw [dif_pos hv]
  rfl

theorem fromSlice_toVec (j : Json) (hr : Repr j) (hd : nesting j < maxDepth) : fromSlice (toVec j) = some j := by
  unfold fromSlice toVec
  rw [fromUTF8?_utf8, Option.bind_some, String.toList_ofList, parse_write j hr hd]

def valueOf (bytes : List UInt8) : Option Json := (fromSlice bytes).map value

end Mistl.Json
