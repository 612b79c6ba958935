import Mistl.DmWire
/-!
# DmHistory — conversations, in memory and on disk

`dm/history.rs`: the bounded table of conversations, the disk work that it owes, and the directory that it is loaded
from.
-/
namespace Mistl.Dm

def maxMessages : Nat := 500

def maxConversations : Nat := 200

def maxConvBytes : Nat := 256 * 1024

def maxFileBytesOnDisk : Nat := 4 * 1024 * 1024

def maxUnread : UInt32 := 9999

inductive Status where
  | sent | delivered | failed | received
  deriving DecidableEq

structure StoredMsg where
  id : String
  mine : Bool
  tsMs : UInt64
  text : Option String
  file : Option FileMeta
  status : Status

def StoredMsg.weight (msg : StoredMsg) : Nat := 64 + msg.text.elim 0 String.utf8ByteSize + msg.file.elim 0 (fun file =>
    file.cid.utf8ByteSize + file.name.utf8ByteSize + file.mime.utf8ByteSize + file.key.utf8ByteSize)

structure Conversation where
  did : String
  unread : UInt32
  updatedMs : UInt64
  messages : List StoredMsg

/-- `Conversation::bytes` of the messages -/
def bytesOf (messages : List StoredMsg) : Nat := (messages.map StoredMsg.weight).sum

def Conversation.solicited (conv : Conversation) : Bool := conv.messages.any StoredMsg.mine

/-- The first loop of `Conversation::trim`. -/
def trimCount : List StoredMsg → List StoredMsg
  | [] => []
  | msg :: messages => if maxMessages < (msg :: messages).length then trimCount messages else msg :: messages

/-- The second loop of `Conversation::trim`, with what is left of the bytes. -/
def trimBytes (bytes : Nat) : List StoredMsg → List StoredMsg
  | [] => []
  | msg :: messages =>
    if maxConvBytes < bytes ∧ 1 < (msg :: messages).length then trimBytes (bytes - msg.weight) messages
    else msg :: messages

def Conversation.trim (conv : Conversation) : Conversation :=
  let messages := trimCount conv.messages
  { conv with messages := trimBytes (bytesOf messages) messages }

inductive AddError where
  | duplicate | full

structure History where
  convs : Table String Conversation
  dirty : Finset String
  removed : Finset String

namespace History

def default : History := ⟨∅, ∅, ∅⟩

/-- A conversation that `make_room` may take: one that no other was updated before, in the order of the hash table. -/
def Oldest (convs : Table String Conversation) (onlyUnsolicited : Bool) : Option String → Prop
  | some did => ∃ conv, convs.get did = some conv ∧ (onlyUnsolicited = true → conv.solicited = false) ∧
      ∀ d c, convs.get d = some c → (onlyUnsolicited = true → c.solicited = false) → conv.updatedMs ≤ c.updatedMs
  | none => ∀ d c, convs.get d = some c → onlyUnsolicited = true ∧ c.solicited = true

/-- `make_room`, where `lru` is the oldest conversation, of all or of the unsolicited ones -/
def makeRoom (h : History) (forRemote : Bool) (lru : Bool → Option String) : Option History :=
  match (lru true).or (if forRemote then none else lru false) with
  | none => none
  | some victim => some ⟨h.convs.erase victim, h.dirty.erase victim, insert victim h.removed⟩

/-- The end of `add`, with room for the conversation. -/
def append (h : History) (did : String) (msg : StoredMsg) (nowMs : UInt64) (remote : Bool) : History :=
  let conv := (h.convs.get did).getD ⟨did, 0, 0, []⟩
  let conv := if remote then { conv with unread := min (conv.unread + 1) maxUnread } else conv
  let conv := { conv with updatedMs := max nowMs conv.updatedMs, messages := conv.messages ++ [msg] }
  ⟨h.convs.insert did conv.trim, insert did h.dirty, h.removed.erase did⟩

def add (h : History) (did : String) (msg : StoredMsg) (nowMs : UInt64) (remote : Bool) (lru : Bool → Option String) :
    Except AddError History :=
  if (h.convs.get did).any (fun conv => conv.messages.any (fun m => m.id = msg.id)) then .error .duplicate
  else if h.convs.get did = none ∧ maxConversations ≤ h.convs.size then
    match h.makeRoom remote lru with
    | none => .error .full
    | some h => .ok (h.append did msg nowMs remote)
  else .ok (h.append did msg nowMs remote)

theorem add_default (did : String) (msg : StoredMsg) (nowMs : UInt64) (remote : Bool) (lru : Bool → Option String) :
    default.add did msg nowMs remote lru = .ok (default.append did msg nowMs remote) := by
  have hroom : ¬(default.convs.get did = none ∧ maxConversations ≤ default.convs.size) := fun h => absurd h.2 (by decide)
  have hdup : ¬(default.convs.get did).any (fun conv => conv.messages.any (fun m => m.id = msg.id)) = true := Bool.noConfusion
  unfold add
  rw [if_neg hdup, if_neg hroom]

def deliver (id : String) : List StoredMsg → Option (List StoredMsg)
  | [] => none
  | msg :: messages =>
    if msg.id = id then
      if msg.mine = true ∧ msg.status = .sent then some ({ msg with status := .delivered } :: messages) else none
    else (deliver id messages).map (msg :: ·)

def markDelivered (h : History) (did id : String) : History × Bool :=
  match h.convs.get did with
  | none => (h, false)
  | some conv =>
    match deliver id conv.messages with
    | none => (h, false)
    | some messages => (⟨h.convs.insert did { conv with messages := messages }, insert did h.dirty, h.removed⟩, true)

def markAllDirty (h : History) : History := { h with dirty := h.dirty ∪ h.convs.keys }

def markRead (h : History) (did : String) : History :=
  match h.convs.get did with
  | none => h
  | some conv => if conv.unread ≠ 0 then ⟨h.convs.insert did { conv with unread := 0 }, insert did h.dirty, h.removed⟩ else h

def clear (h : History) (did : String) : History :=
  if (h.convs.get did).isSome then ⟨h.convs.erase did, h.dirty.erase did, insert did h.removed⟩ else h

end History

/-! ## As text -/

def Status.asStr : Status → String
  | .sent => "sent"
  | .delivered => "delivered"
  | .failed => "failed"
  | .received => "received"

def Status.ofStr (s : String) : Option Status :=
  if s = "sent" then some .sent
  else if s = "delivered" then some .delivered
  else if s = "failed" then some .failed
  else if s = "received" then some .received
  else none

def Status.ofJson : Json → Option Status
  | .str s => Status.ofStr s
  | .obj [(s, .null)] => Status.ofStr s
  | _ => none

def FileMeta.ofJson (j : Json) : Option FileMeta :=
  match Json.structFields ["cid", "name", "size", "mime", "key"] false j with
  | some [some cid, some name, some size, some mime, some key] => do
    some ⟨← cid.asStr, ← name.asStr, ← asU64 size, ← mime.asStr, ← key.asStr⟩
  | _ => none

/-- A field of an `Option` with a default. -/
def readOption {α : Type} (read : Json → Option α) : Option Json → Option (Option α)
  | none | some .null => some none
  | some j => (read j).map some

def readDefault {α : Type} (read : Json → Option α) (default_ : α) : Option Json → Option α
  | none => some default_
  | some j => read j

def StoredMsg.toJson (msg : StoredMsg) : Json :=
  .obj ([("id", .str msg.id), ("mine", .bool msg.mine), ("ts_ms", .int msg.tsMs.toNat)] ++
    (msg.text.map fun text => ("text", Json.str text)).toList ++ (msg.file.map fun file => ("file", file.toJson)).toList ++
    [("status", .str msg.status.asStr)])

def StoredMsg.ofJson (j : Json) : Option StoredMsg :=
  match Json.structFields ["id", "mine", "ts_ms", "text", "file", "status"] false j with
  | some [some id, some mine, some tsMs, text, file, some status] => do
    some ⟨← id.asStr, ← mine.asBool, ← asU64 tsMs, ← readOption Json.asStr text, ← readOption FileMeta.ofJson file,
      ← Status.ofJson status⟩
  | _ => none

def Conversation.toJson (conv : Conversation) : Json :=
  .obj [("did", .str conv.did), ("unread", .int conv.unread.toNat), ("updated_ms", .int conv.updatedMs.toNat),
    ("messages", .arr (conv.messages.map StoredMsg.toJson))]

def asU32 (j : Json) : Option UInt32 := (j.asUnsigned (2 ^ 32)).map UInt32.ofNat

def readMessages (j : Json) : Option (List StoredMsg) := j.asArr.bind fun items => items.mapM StoredMsg.ofJson

def Conversation.ofJson (j : Json) : Option Conversation :=
  match Json.structFields ["did", "unread", "updated_ms", "messages"] false j with
  | some [some did, unread, updatedMs, messages] => do
    some ⟨← did.asStr, ← readDefault asU32 0 unread, ← readDefault asU64 0 updatedMs, ← readDefault readMessages [] messages⟩
  | _ => none

/-! ## On disk -/

/-- The files of the directory. -/
abbrev Dir := Table String (List UInt8)

def fileNameFor (C : Crates) (did : String) : String :=
  String.ofList ((C.digest (Json.utf8 did.toList)).toList.take 32 ++ ".json".toList)

/-- What is to be written to a file, or that it is to be deleted. -/
abbrev Pending := List (String × Option (List UInt8))

/-- `take_pending`, in an order of the two sets -/
def History.pending (C : Crates) (h : History) (removed dirty : List String) : Pending :=
  removed.map (fun did => (fileNameFor C did, none)) ++
    dirty.filterMap fun did => (h.convs.get did).map fun conv => (fileNameFor C did, some conv.toJson.toVec)

/-- `Path::extension` is `json` -/
def isJsonName (name : String) : Bool :=
  match splitLast '.' name.toList with
  | some (stem, extension) => decide (stem ≠ []) && decide (extension = "json".toList)
  | none => false

/-- One entry of the directory in `load`: the conversation, if it is ours. -/
def readEntry (C : Crates) (entry : String × List UInt8) : Option Conversation :=
  if isJsonName entry.1 = false then none
  else if maxFileBytesOnDisk < entry.2.length then none
  else match (Json.fromSlice entry.2).bind Conversation.ofJson with
    | none => none
    | some conv =>
      if conv.did.utf8ByteSize ≠ didKeyLen ∨ entry.1 ≠ fileNameFor C conv.did then none
      else
        let messages := conv.messages.filter fun m =>
          isValidId m.id && m.text.all (fun text => decide (text.toList.length ≤ maxTextChars))
        some ({ conv with messages := messages } : Conversation).trim

/-- `load`, with the entries in the order of the directory -/
def History.load (C : Crates) (entries : List (String × List UInt8)) : History :=
  let loaded := (entries.filterMap (readEntry C)).mergeSort (fun a b => decide (b.updatedMs ≤ a.updatedMs))
  ⟨Table.insertAll Conversation.did (loaded.take maxConversations) ∅, ∅, ∅⟩

structure Dir.Lists (dir : Dir) (entries : List (String × List UInt8)) : Prop where
  names : (entries.map Prod.fst).Nodup
  mem : ∀ name bytes, (name, bytes) ∈ entries ↔ dir.get name = some bytes

/-- One entry of `apply_pending` that succeeds. -/
def Dir.apply (dir : Dir) (entry : String × Option (List UInt8)) : Dir :=
  match entry.2 with
  | some bytes => dir.insert entry.1 bytes
  | none => dir.erase entry.1

end Mistl.Dm
