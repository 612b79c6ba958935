import Mistl.FolderPaths
/-!
# DmWire — direct messages and receipts on the wire

`dm/wire.rs`.  A wire is a signed object; `precheck` is every check of it but the signature, which `verify` checks
last.
-/
namespace Mistl.Dm

open Folder (isControl)

def msgTag : String := "mistl-dm-v1"

def ackTag : String := "mistl-dm-ack-v1"

def tagPrefix : String := "mistl-dm-"

def maxWireBytes : Nat := 16 * 1024

def maxTextChars : Nat := 4000

def maxNameChars : Nat := 200

def maxMimeChars : Nat := 100

def maxCidChars : Nat := 128

def maxKeyChars : Nat := 128

def maxFileBytes : Nat := 64 * 1024 * 1024

def maxSkewMs : Nat := 10 * 60 * 1000

structure FileMeta where
  cid : String
  name : String
  size : UInt64
  mime : String
  key : String
  deriving DecidableEq

structure DmMessage where
  fromDid : String
  id : String
  ts : UInt64
  text : Option String
  file : Option FileMeta

structure DmAck where
  fromDid : String
  id : String
  ts : UInt64

inductive Incoming where
  | message (msg : DmMessage)
  | ack (ack : DmAck)

inductive Reject where
  | notOurs | oversized | malformed | nodeMismatch | didMismatch | wrongRecipient | selfSend | stale | badSignature

inductive Kind where
  | message | ack
  deriving DecidableEq

structure Prechecked where
  kind : Kind
  value : Json
  fromDid : String
  id : String
  ts : UInt64
  text : Option String
  file : Option FileMeta

/-! ## Content -/

def isValidId (id : String) : Bool :=
  decide (id.utf8ByteSize = 32) && id.toList.all (fun c => c.isDigit || decide ('a' ≤ c) && decide (c ≤ 'f'))

def hasForbiddenControl (s : String) (allowWhitespace : Bool) : Bool :=
  s.toList.any (fun c => isControl c && !(allowWhitespace && decide (c ∈ ['\n', '\r', '\t'])))

def isCidLike (s : String) : Bool := decide (s ≠ "") && decide (s.utf8ByteSize ≤ maxCidChars) && s.toList.all Char.isAlphanum

def isAsciiPrintable (s : String) : Bool := s.toList.all (fun c => decide (0x20 ≤ c.toNat) && decide (c.toNat < 0x7f))

def validateText (text : String) : Except String Unit := do
  ensure (decide (text.toList.length ≤ maxTextChars)) "text is longer than 4000 characters"
  ensure (!hasForbiddenControl text true) "text contains control characters"

/-- The checks of a file's metadata in `validate_content`. -/
def validateFile (file : FileMeta) : Except String Unit := do
  ensure (isCidLike file.cid) "invalid file cid"
  ensure (decide (file.name.toList.length ≠ 0) && decide (file.name.toList.length ≤ maxNameChars) &&
    !hasForbiddenControl file.name false) "invalid file name"
  ensure (decide (file.mime.toList.length ≤ maxMimeChars) && isAsciiPrintable file.mime) "invalid file mime type"
  ensure (decide (file.size.toNat ≤ maxFileBytes)) "file is larger than 64 MiB"
  ensure (decide (file.key ≠ "") && decide (file.key.utf8ByteSize ≤ maxKeyChars) && isAsciiPrintable file.key)
    "invalid file key"

/-- The checks of the text in `validate_content`. -/
def validateMessageText (text : String) (file : Option FileMeta) : Except String Unit := do
  validateText text
  ensure (decide (text ≠ "") || file.isSome) "empty message"

def validateContent (text : Option String) (file : Option FileMeta) : Except String Unit := do
  ensure (text.isSome || file.isSome) "a message needs text or a file"
  text.elim (.ok ()) (fun text => validateMessageText text file)
  file.elim (.ok ()) validateFile

/-! ## Building -/

/-- `Identity`: its DID and its key's signature -/
structure Identity where
  did : String
  sign : List UInt8 → List UInt8

def Identity.nodeId (C : Crates) (identity : Identity) : String := nodeIdForDid C identity.did

/-- `sign_wire` of an object that has the signer's `fromId` -/
def signWire (C : Crates) (identity : Identity) (fields : List (String × Json)) : Json :=
  let signature := C.b64Encode (identity.sign (Json.utf8 (Wiresign.signingPayload fields)))
  Json.value (.obj (fields ++ [("signature", .str signature)]))

def FileMeta.toJson (file : FileMeta) : Json :=
  .obj [("cid", .str file.cid), ("name", .str file.name), ("size", .int file.size.toNat), ("mime", .str file.mime),
    ("key", .str file.key)]

def wireFields (C : Crates) (identity : Identity) (tag «to» id : String) (ts : UInt64) (text : Option String)
    (file : Option FileMeta) : List (String × Json) :=
  [("t", .str tag), ("node", .str (identity.nodeId C)), ("fromId", .str identity.did), ("to", .str «to»), ("id", .str id),
    ("ts", .int ts.toNat)] ++ (text.map fun text => ("text", Json.str text)).toList ++
    (file.map fun file => ("file", file.toJson)).toList

def buildMessage (C : Crates) (identity : Identity) («to» id : String) (ts : UInt64) (text : Option String)
    (file : Option FileMeta) : Except String (List UInt8) := do
  validateContent text file
  let bytes := (signWire C identity (wireFields C identity msgTag «to» id ts text file)).toVec
  ensure (decide (bytes.length ≤ maxWireBytes)) ("message is too large to send (" ++ toString bytes.length ++ " bytes)")
  return bytes

def buildAck (C : Crates) (identity : Identity) («to» id : String) (ts : UInt64) : List UInt8 :=
  (signWire C identity (wireFields C identity ackTag «to» id ts none none)).toVec

/-! ## Checking -/

def looksLikeDm (data : List UInt8) : Bool := decide (data.length ≤ maxWireBytes) && decide (Json.utf8 tagPrefix.toList <:+: data)

def strField (value : Json) (key : String) : Except Reject String := okOr ((value.get? key).bind Json.asStr) .malformed

def asU64 (j : Json) : Option UInt64 := (j.asUnsigned (2 ^ 64)).map UInt64.ofNat

def isObject : Json → Bool
  | .obj _ => true
  | _ => false

def kindOf (tag : String) : Option Kind := if tag = msgTag then some .message else if tag = ackTag then some .ack else none

def absDiff (a b : UInt64) : Nat := (a.toNat - b.toNat) + (b.toNat - a.toNat)

def readText (value : Json) : Except Reject (Option String) :=
  match value.get? "text" with
  | none => .ok none
  | some text => (okOr text.asStr .malformed).map some

def readFile (value : Json) : Except Reject (Option FileMeta) :=
  match value.get? "file" with
  | none => .ok none
  | some file => do
    ensure (isObject file) Reject.malformed
    let cid ← strField file "cid"
    let name ← strField file "name"
    let size ← okOr ((file.get? "size").bind asU64) .malformed
    let mime ← strField file "mime"
    let key ← strField file "key"
    return some ⟨cid, name, size, mime, key⟩

def readContent (value : Json) : Kind → Except Reject (Option String × Option FileMeta)
  | .ack => .ok (none, none)
  | .message => do
    let text ← readText value
    let file ← readFile value
    ensure (validateContent text file).isOk Reject.malformed
    return (text, file)

def precheck (C : Crates) (data : List UInt8) (sender ourDid : String) (nowMs : UInt64) : Except Reject Prechecked := do
  ensure (decide (data.length ≤ maxWireBytes)) Reject.oversized
  ensure (looksLikeDm data) Reject.notOurs
  let value ← okOr (Json.valueOf data) .notOurs
  ensure (isObject value) Reject.notOurs
  let kind ← okOr (((value.get? "t").bind Json.asStr).bind kindOf) .notOurs
  let node ← strField value "node"
  ensure (decide (node = sender)) Reject.nodeMismatch
  let did ← strField value "fromId"
  ensure (decide (did.utf8ByteSize = didKeyLen) && decide (nodeIdForDid C did = sender)) Reject.didMismatch
  let «to» ← strField value "to"
  ensure (decide («to» = ourDid)) Reject.wrongRecipient
  ensure (decide (did ≠ ourDid)) Reject.selfSend
  let ts ← okOr ((value.get? "ts").bind asU64) .malformed
  ensure (decide (absDiff ts nowMs ≤ maxSkewMs)) Reject.stale
  let id ← strField value "id"
  ensure (isValidId id) Reject.malformed
  let content ← readContent value kind
  return ⟨kind, value, did, id, ts, content.1, content.2⟩

def Prechecked.verify (C : Crates) (pre : Prechecked) : Except Reject Incoming := do
  ensure (Wiresign.verifyWire C pre.value) Reject.badSignature
  return match pre.kind with
    | .message => .message ⟨pre.fromDid, pre.id, pre.ts, pre.text, pre.file⟩
    | .ack => .ack ⟨pre.fromDid, pre.id, pre.ts⟩

/-! ## Two nodes -/

def ann : String := "did:key:z6MkonMAySXtmMvcMvxJZM1G5tTyPXCvr3zwPjzP98wbfv1H"

def bob : String := "did:key:z6MkvRXNYcE7MMduynWTgeKbDaT1iijDSC8pZqXZc8rHPrf2"

def dmCrates : Crates := { sampleCrates [] with
    digest := fun bytes => if bytes = Json.utf8 ann.toList then "a3f0c7d2e9b81456a3f0c7d2e9b81456a3f0c7d2e9b81456a3f0c7d2e9b81456"
      else "5d1e0b7c4a9f83265d1e0b7c4a9f83265d1e0b7c4a9f83265d1e0b7c4a9f8326" }

theorem dmCrates_digest (bytes : List UInt8) : dmCrates.digest bytes ≠ "" := by
  unfold dmCrates
  dsimp only
  split <;> decide

def annIdentity : Identity := ⟨ann, fun _ => List.replicate 64 0⟩

def bobIdentity : Identity := ⟨bob, fun _ => List.replicate 64 0⟩

end Mistl.Dm
