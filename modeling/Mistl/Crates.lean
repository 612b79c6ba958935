import Mistl.Lib.Base64
import Mistl.Lib.Json
/-!
# Crates — what the services take from other crates

SHA-256 in hex, base64url without padding, Ed25519, base58, content identifiers and CBOR manifests are parameters.
Everything the repository itself computes from them is defined, here the reading of a `did:key` (`identity/mod.rs`).
-/
namespace Mistl

structure FileManifest where
  name : String
  size : Nat
  chunks : List String

inductive Codec where
  | raw | dagCbor
  deriving DecidableEq

/-- The functions of other crates that the services call. -/
structure Crates where
  /-- `hex::encode(Sha256::digest(bytes))` -/
  digest : List UInt8 → String
  /-- `URL_SAFE_NO_PAD.encode` -/
  b64Encode : List UInt8 → String
  /-- `URL_SAFE_NO_PAD.decode`, an error being no result -/
  b64Decode : String → Option (List UInt8)
  /-- `VerifyingKey::from_bytes(key)` and `verify_strict(payload, sig)`: key, payload, signature -/
  verifyStrict : List UInt8 → List UInt8 → List UInt8 → Bool
  /-- `VerifyingKey::from_bytes(key)`, `Signature::try_from(sig)` and `verify(payload, sig)` -/
  verify : List UInt8 → List UInt8 → List UInt8 → Bool
  /-- `bs58::decode(text).into_vec()`, an error being no result -/
  b58Decode : String → Option (List UInt8)
  /-- `mistlib_core::storage::is_valid_cid` -/
  isValidCid : String → Bool
  /-- `verify_cid(cid, bytes, codec)` -/
  verifyCid : Codec → String → List UInt8 → Bool
  /-- `serde_cbor::from_slice`, the chunk list unchecked -/
  readManifest : List UInt8 → Option FileManifest
  /-- `CHUNK_SIZE` -/
  chunkSize : Nat

/-- Crates for concrete runs: the real base64url, digests looked up in a table, and every signature, identifier and
manifest accepted. -/
def sampleCrates (digests : List (List UInt8 × String)) : Crates where
  digest := fun bytes => (digests.lookup bytes).getD (String.ofList (List.replicate 64 '0'))
  b64Encode := fun bytes => String.ofList (Base64.encode bytes)
  b64Decode := fun text => Base64.decode text.toList
  verifyStrict := fun _ _ _ => true
  verify := fun _ _ _ => true
  b58Decode := fun _ => some (0xed :: 0x01 :: List.replicate 32 0)
  isValidCid := fun _ => true
  verifyCid := fun _ _ _ => true
  readManifest := fun _ => some ⟨"tc-escrow.bin", 4, ["bafkreihnwrswequr4qcty3c6us36wmqn5r3t4effputlsxopavspryyq7a"]⟩
  chunkSize := 1048576

/-! ## Identities -/

/-- `ED25519_DID_KEY_LEN` -/
def didKeyLen : Nat := 56

def pubkeyFromDid (C : Crates) (did : String) : Option (List UInt8) :=
  if did.utf8ByteSize ≠ didKeyLen then none
  else match did.toList with
    | 'd' :: 'i' :: 'd' :: ':' :: 'k' :: 'e' :: 'y' :: ':' :: 'z' :: encoded =>
      match C.b58Decode (String.ofList encoded) with
      | some (0xed :: 0x01 :: key) => if key.length = 32 then some key else none
      | _ => none
    | _ => none

def nodeIdForDid (C : Crates) (did : String) : String := String.ofList ((C.digest (Json.utf8 did.toList)).toList.take 16)

/-- `identity::verify`, an error being no verification -/
def verifyDid (C : Crates) (did : String) (data sig : List UInt8) : Bool := (pubkeyFromDid C did).any fun key => C.verify key data sig

end Mistl
