import Mathlib.Algebra.Group.Int.Defs
import Mathlib.Data.List.Basic
/-!
# Json — JSON values and their compact text

A value is what a deserializer hands over: integers in full, a number with a fraction or an exponent as its text, objects as
the list of members in the order written.  `write` is the compact writer, `toVec` its UTF-8.
-/
namespace Mistl

inductive Json where
  | null
  | bool (b : Bool)
  | int (n : Int)
  | float (text : List Char)
  | str (s : String)
  | arr (items : List Json)
  | obj (fields : List (String × Json))

namespace Json

/-! ## Equality -/

mutual
def decEq : (a b : Json) → Decidable (a = b)
  | .null, .null => .isTrue rfl
  | .bool a, .bool b => if h : a = b then .isTrue (by rw [h]) else .isFalse (fun e => h (Json.bool.inj e))
  | .int a, .int b => if h : a = b then .isTrue (by rw [h]) else .isFalse (fun e => h (Json.int.inj e))
  | .float a, .float b => if h : a = b then .isTrue (by rw [h]) else .isFalse (fun e => h (Json.float.inj e))
  | .str a, .str b => if h : a = b then .isTrue (by rw [h]) else .isFalse (fun e => h (Json.str.inj e))
  | .arr a, .arr b => match decEqItems a b with
    | .isTrue h => .isTrue (by rw [h])
    | .isFalse h => .isFalse (fun e => h (Json.arr.inj e))
  | .obj a, .obj b => match decEqFields a b with
    | .isTrue h => .isTrue (by rw [h])
    | .isFalse h => .isFalse (fun e => h (Json.obj.inj e))
  | .null, .bool _ | .null, .int _ | .null, .float _ | .null, .str _ | .null, .arr _ | .null, .obj _
  | .bool _, .null | .bool _, .int _ | .bool _, .float _ | .bool _, .str _ | .bool _, .arr _ | .bool _, .obj _
  | .int _, .null | .int _, .bool _ | .int _, .float _ | .int _, .str _ | .int _, .arr _ | .int _, .obj _
  | .float _, .null | .float _, .bool _ | .float _, .int _ | .float _, .str _ | .float _, .arr _ | .float _, .obj _
  | .str _, .null | .str _, .bool _ | .str _, .int _ | .str _, .float _ | .str _, .arr _ | .str _, .obj _
  | .arr _, .null | .arr _, .bool _ | .arr _, .int _ | .arr _, .float _ | .arr _, .str _ | .arr _, .obj _
  | .obj _, .null | .obj _, .bool _ | .obj _, .int _ | .obj _, .float _ | .obj _, .str _ | .obj _, .arr _ => .isFalse nofun
def decEqItems : (a b : List Json) → Decidable (a = b)
  | [], [] => .isTrue rfl
  | [], _ :: _ => .isFalse nofun
  | _ :: _, [] => .isFalse nofun
  | a :: as, b :: bs => match decEq a b, decEqItems as bs with
    | .isTrue h, .isTrue t => .isTrue (by rw [h, t])
    | .isFalse h, _ => .isFalse (fun e => h (List.cons.inj e).1)
    | _, .isFalse t => .isFalse (fun e => t (List.cons.inj e).2)
def decEqFields : (a b : List (String × Json)) → Decidable (a = b)
  | [], [] => .isTrue rfl
  | [], _ :: _ => .isFalse nofun
  | _ :: _, [] => .isFalse nofun
  | (k, a) :: as, (l, b) :: bs => match decEq a b, decEqFields as bs with
    | .isTrue h, .isTrue t =>
      if hk : k = l then .isTrue (by rw [hk, h, t]) else .isFalse (fun e => hk (Prod.mk.inj (List.cons.inj e).1).1)
    | .isFalse h, _ => .isFalse (fun e => h (Prod.mk.inj (List.cons.inj e).1).2)
    | _, .isFalse t => .isFalse (fun e => t (List.cons.inj e).2)
end

instance : DecidableEq Json := decEq

/-! ## Reading a value -/

/-- A member of an object; the last one written wins, as when a map is filled in order. -/
def get? (j : Json) (key : String) : Option Json :=
  match j with
  | .obj fields => (fields.reverse.find? (fun f => f.1 == key)).map Prod.snd
  | _ => none

def index (j : Json) (key : String) : Json := (j.get? key).getD .null

def asStr : Json → Option String
  | .str s => some s
  | _ => none

def asBool : Json → Option Bool
  | .bool b => some b
  | _ => none

def asArr : Json → Option (List Json)
  | .arr items => some items
  | _ => none

def asI64 : Json → Option Int
  | .int n => if -(2 ^ 63) ≤ n ∧ n < 2 ^ 63 then some n else none
  | _ => none

/-- A number read as an unsigned integer below `bound`. -/
def asUnsigned (bound : Nat) : Json → Option Nat
  | .int n => if 0 ≤ n ∧ n.toNat < bound then some n.toNat else none
  | _ => none

/-! ## Values with maps -/

def setField (key : String) (j : Json) : List (String × Json) → List (String × Json)
  | [] => [(key, j)]
  | (k, v) :: l =>
    if key < k then (key, j) :: (k, v) :: l
    else if key = k then (key, j) :: l
    else (k, v) :: setField key j l

mutual
/-- A parsed text as a value: its objects are maps, a later member over an earlier one of the same key. -/
def value : Json → Json
  | .null => .null
  | .bool b => .bool b
  | .int n => .int n
  | .float text => .float text
  | .str s => .str s
  | .arr items => .arr (valueItems items)
  | .obj fields => .obj (valueFields [] fields)
def valueItems : List Json → List Json
  | [] => []
  | j :: l => value j :: valueItems l
def valueFields (map : List (String × Json)) : List (String × Json) → List (String × Json)
  | [] => map
  | (k, j) :: l => valueFields (setField k (value j) map) l
end

/-! ## The compact writer -/

def escapeChar (c : Char) : List Char :=
  if c = '\x22' then ['\x5c', '\x22']
  else if c = '\x5c' then ['\x5c', '\x5c']
  else if c = '\x08' then ['\x5c', 'b']
  else if c = '\x09' then ['\x5c', 't']
  else if c = '\x0a' then ['\x5c', 'n']
  else if c = '\x0c' then ['\x5c', 'f']
  else if c = '\x0d' then ['\x5c', 'r']
  else if c.toNat < 32 then ['\x5c', 'u', '0', '0', (c.toNat / 16).digitChar, (c.toNat % 16).digitChar]
  else [c]

def writeString (s : String) : List Char := '\x22' :: (s.toList.flatMap escapeChar ++ ['\x22'])

def writeInt (n : Int) : List Char := if n < 0 then '-' :: Nat.toDigits 10 n.natAbs else Nat.toDigits 10 n.natAbs

mutual
def write : Json → List Char
  | .null => ['n', 'u', 'l', 'l']
  | .bool true => ['t', 'r', 'u', 'e']
  | .bool false => ['f', 'a', 'l', 's', 'e']
  | .int n => writeInt n
  | .float text => text
  | .str s => writeString s
  | .arr items => '[' :: (writeItems items ++ [']'])
  | .obj fields => '\x7b' :: (writeFields fields ++ ['\x7d'])
def writeItems : List Json → List Char
  | [] => []
  | [j] => write j
  | j :: k :: l => write j ++ ',' :: writeItems (k :: l)
def writeFields : List (String × Json) → List Char
  | [] => []
  | [(n, j)] => writeString n ++ ':' :: write j
  | (n, j) :: k :: l => writeString n ++ ':' :: (write j ++ ',' :: writeFields (k :: l))
end

def utf8 (text : List Char) : List UInt8 := text.flatMap String.utf8EncodeChar

def toVec (j : Json) : List UInt8 := utf8 j.write

@[simp] theorem utf8_append (a b : List Char) : utf8 (a ++ b) = utf8 a ++ utf8 b := List.flatMap_append

@[simp] theorem utf8_cons (c : Char) (a : List Char) : utf8 (c :: a) = String.utf8EncodeChar c ++ utf8 a := List.flatMap_cons

@[simp] theorem utf8_nil : utf8 [] = [] := rfl

end Json
end Mistl
