import Mistl.EscrowProtocol
/-!
# EscrowContent — a generation's blob and manifest

The checks of `escrow/repository.rs` on the two files of a generation, which the archive of a replicated room shares, and
the limits of the service's configuration.
-/
namespace Mistl.Escrow

/-- The limits of `EscrowConfig`. -/
structure Config where
  maxBlobBytes : Nat
  maxTotalBytes : Nat
  maxSlotsPerRoom : Nat

/-- `EscrowConfig::validate`, for the limits. -/
structure Config.Valid (cfg : Config) : Prop where
  blob : 1 ≤ cfg.maxBlobBytes ∧ cfg.maxBlobBytes ≤ 1024 * 1024 * 1024
  total : 1 ≤ cfg.maxTotalBytes ∧ cfg.maxTotalBytes ≤ 2 ^ 40
  slots : 1 ≤ cfg.maxSlotsPerRoom ∧ cfg.maxSlotsPerRoom ≤ 65536

/-- `EscrowConfig::default`, for the limits. -/
def Config.default : Config := ⟨32 * 1024 * 1024, 1024 * 1024 * 1024, 1024⟩

theorem Config.Valid.default : Config.default.Valid := by
  refine ⟨?_, ?_, ?_⟩ <;> decide

def validRoom (room : String) : Bool := room.utf8ByteSize != 0 && decide (room.utf8ByteSize ≤ 96)
    && room.toList.all fun c => c.isAlphanum || "_./:-".toList.contains c

def maxManifest : Nat := 128 * 1024

variable (C : Crates)

/-- `size.div_ceil(CHUNK_SIZE)` -/
def chunkCount (size : Nat) : Nat := (size + C.chunkSize - 1) / C.chunkSize

def manifestLimit (size : Nat) : Nat := min (1024 + chunkCount C size * 128) maxManifest

def validateBlob (head : Head) (blob : List UInt8) : Except Error Unit :=
  if blob.length ≠ head.size ∨ C.digest blob ≠ head.sha256 then .error (.new .hashMismatch) else .ok ()

/-- `serde_cbor::from_slice::<BoundedManifest>`: no more than 1024 chunks, all of them valid identifiers. -/
def boundedManifest (bytes : List UInt8) : Option FileManifest :=
  (C.readManifest bytes).filter (fun m => decide (m.chunks.length ≤ 1024) && m.chunks.all C.isValidCid)

def validateManifest (head : Head) (bytes : List UInt8) : Except Error FileManifest :=
  if manifestLimit C head.size < bytes.length ∨ C.verifyCid .dagCbor head.cid bytes = false then
    .error (.new .hashMismatch)
  else match boundedManifest C bytes with
    | none => .error (.new .fetchFailed)
    | some manifest =>
      if manifest.name ≠ "tc-escrow.bin" ∨ manifest.size ≠ head.size ∨ manifest.chunks.length ≠ chunkCount C head.size
          ∨ manifest.chunks.any (fun c => !C.isValidCid c) = true then .error (.new .hashMismatch)
      else .ok manifest

/-- `blob.chunks(CHUNK_SIZE)`, for the first `n` chunks. -/
def blobChunks (blob : List UInt8) : Nat → List (List UInt8)
  | 0 => []
  | n + 1 => blob.take C.chunkSize :: blobChunks (blob.drop C.chunkSize) n

def chunksVerify (manifest : FileManifest) (blob : List UInt8) : Bool :=
  (manifest.chunks.zip (blobChunks C blob (chunkCount C blob.length))).all fun p => C.verifyCid .raw p.1 p.2

def validateGeneration (head : Head) (blob bytes : List UInt8) : Except Error FileManifest :=
  match validateBlob C head blob with
  | .error e => .error e
  | .ok () =>
    match validateManifest C head bytes with
    | .error e => .error e
    | .ok manifest => if chunksVerify C manifest blob then .ok manifest else .error (.new .hashMismatch)

/-! ## A generation for concrete runs -/

def noteBlob : List UInt8 := [110, 111, 116, 101]

def noteManifest : List UInt8 :=
  [163, 100, 110, 97, 109, 101, 109, 116, 99, 45, 101, 115, 99, 114, 111, 119, 46, 98, 105, 110, 100, 115, 105, 122, 101, 4,
    102, 99, 104, 117, 110, 107, 115, 129, 120, 59, 98, 97, 102, 107, 114, 101, 105, 104, 110, 119, 114, 115, 119, 101, 113,
    117, 114, 52, 113, 99, 116, 121, 51, 99, 54, 117, 115, 51, 54, 119, 109, 113, 110, 53, 114, 51, 116, 52, 101, 102, 102,
    112, 117, 116, 108, 115, 120, 111, 112, 97, 118, 115, 112, 114, 121, 121, 113, 55, 97]

def noteKey : String := "d43a0b2e1c25e46e2434fd184b845022d40254b94cc13d31e1b3a6ddc2f6eee0"

/-- The digests of the generation, of its head, of its slot in the room `notes` and of its directory. -/
def noteCrates : Crates := sampleCrates [(noteBlob, "edb465624291e4053c6c5ea4b7eb320dec773e10a57d26b95dcf0564f8e310f8"),
    (Json.utf8 (Wiresign.stableStringify noteHead.toJson), noteHash),
    (Json.utf8 ("notes\naaaaaaaaaaaaaaaaaaaaaaaaaaaaaaaa".toList), noteKey),
    (Json.utf8 (noteKey.toList ++ '\n' :: noteHash.toList),
      "4ae8eaacad7ed20b6c2293482edec72ec1100f4bc65a4b3a4cd00833b4b62f1b")]

end Mistl.Escrow
