import Mistl.Crates
import Mathlib.Data.List.Sort
/-!
# Wiresign — the canonical text that is hashed and signed

`wiresign.rs`.  `stableStringify`: object keys sorted, no blanks, strings escaped as the compact writer escapes them,
integers in decimal.  A number kept as text is written as its text.
-/
namespace Mistl.Wiresign

open Json (writeString writeInt)

def keyLe (a b : String × List Char) : Bool := decide (a.1 ≤ b.1)

def join : List (List Char) → List Char
  | [] => []
  | [p] => p
  | p :: q :: l => p ++ ',' :: join (q :: l)

mutual
def stableStringify : Json → List Char
  | .null => ['n', 'u', 'l', 'l']
  | .bool true => ['t', 'r', 'u', 'e']
  | .bool false => ['f', 'a', 'l', 's', 'e']
  | .int n => writeInt n
  | .float text => text
  | .str s => writeString s
  | .arr items => '[' :: (join (stableItems items) ++ [']'])
  | .obj fields =>
    '\x7b' :: (join (((stableFields fields).insertionSort (fun a b => keyLe a b = true)).map
      (fun p => writeString p.1 ++ ':' :: p.2)) ++ ['\x7d'])
def stableItems : List Json → List (List Char)
  | [] => []
  | j :: l => stableStringify j :: stableItems l
def stableFields : List (String × Json) → List (String × List Char)
  | [] => []
  | (n, j) :: l => (n, stableStringify j) :: stableFields l
end

example : stableStringify (.obj [("b", .int (-2)), ("a", .arr [.null, .str "x"])])
    = "\x7b\"a\":[null,\"x\"],\"b\":-2\x7d".toList := by decide

def signingPayload (fields : List (String × Json)) : List Char := stableStringify (.obj (fields.filter (fun f => f.1 != "signature")))

/-- `ED25519_SIGNATURE_B64URL_LEN` -/
def signatureLen : Nat := 86

/-- `verify_wire`, which never fails -/
def verifyWire (C : Crates) (wire : Json) : Bool :=
  match wire with
  | .obj fields =>
    match (wire.get? "fromId").bind Json.asStr, (wire.get? "signature").bind Json.asStr with
    | some fromId, some signature =>
      if signature.utf8ByteSize ≠ signatureLen ∨ fromId.utf8ByteSize ≠ didKeyLen then false
      else match C.b64Decode signature with
        | none => false
        | some sig => verifyDid C fromId (Json.utf8 (signingPayload fields)) sig
    | _, _ => false
  | _ => false

end Mistl.Wiresign
