import Mistl.Lib.Serde
import Mistl.Lib.Checks
/-!
# AiProtocol — the messages of the AI network

The messages a consumer or a speech provider handles (`ai/protocol.rs`), their encoding and `decode`.  `one` says of a
number written with a fraction or an exponent whether it is 1.
-/
open Mistl.Json Option

namespace Mistl.Ai

/-- `ProtocolMessage`, without the requests and the raft payloads -/
inductive ProtocolMessage where
  | providerHello (models services voices : Option (List String))
  | consumerHello
  | llmResponseChunk (id delta : String) (seq : Option Nat)
  | llmResponseDone (id : String) (content : Option String) (toolCalls : Option Json)
  | llmError (id message : String) (code : Option String)
  | ttsResponse (id : String) (seq : Nat) (data : String) (last : Bool) (mime : String)
  | sttRequest (id : String) (seq : Nat) (data : String) (last : Bool) (mime : String) (model fileName : Option String)
  | sttResponse (id text : String)
  | voiceError (id message : String) (code : Option String)
  | oaiResponse (id : String) (seq : Nat) (last : Bool) (data : String) (status : Option Nat) (contentType : Option String)
  | oaiError (id message : String) (code : Option String)
  deriving DecidableEq

/-! ## Reading -/

def anyStr (obj : Json) (key : String) : Option String := (obj.get? key).bind asStr

def nonEmptyStr (obj : Json) (key : String) : Option String := (anyStr obj key).filter fun s => !s.isEmpty

def optStr (obj : Json) (key : String) : Option (Option String) :=
  match obj.get? key with
  | none => some none
  | some v => v.asStr.map some

def asU64Strict : Json → Option Nat := asUnsigned (2 ^ 63)

def getU64 (obj : Json) (key : String) : Option Nat := (obj.get? key).bind asU64Strict

def getBool (obj : Json) (key : String) : Option Bool := (obj.get? key).bind asBool

/-- `str_array_non_empty`, of a field that may be absent -/
def strArrayNonEmpty (obj : Json) (key : String) : Option (List String) :=
  ((obj.get? key).bind asArr).map (fun items => (items.filterMap asStr).filter (fun s => !s.isEmpty))

def optU64 (bound : Nat) (obj : Json) (key : String) : Option (Option Nat) :=
  match obj.get? key with
  | none => some none
  | some v => ((asU64Strict v).filter (· < bound)).map some

def optArr (obj : Json) (key : String) : Option (Option Json) :=
  match obj.get? key with
  | none => some none
  | some v => if v.asArr.isSome then some (some v) else none

def isOne (one : List Char → Bool) : Json → Bool
  | .int n => n == 1
  | .float text => one text
  | _ => false

variable (one : List Char → Bool)

def readMessage (obj : Json) (ty : String) : Option ProtocolMessage := if ty = "provider_hello" then
    some (.providerHello (strArrayNonEmpty obj "models") (strArrayNonEmpty obj "services") (strArrayNonEmpty obj "voices"))
  else if ty = "consumer_hello" then some .consumerHello
  else if ty = "oai_response" then do
    some (.oaiResponse (← nonEmptyStr obj "id") (← getU64 obj "seq") (← getBool obj "last") (← anyStr obj "data")
      (← optU64 (2 ^ 16) obj "status") (← optStr obj "contentType"))
  else if ty = "oai_error" then do
    some (.oaiError (← nonEmptyStr obj "id") (← anyStr obj "message") (← optStr obj "code"))
  else if ty = "llm_response_chunk" then do
    some (.llmResponseChunk (← nonEmptyStr obj "id") (← anyStr obj "delta") (← optU64 (2 ^ 63) obj "seq"))
  else if ty = "llm_response_done" then do
    some (.llmResponseDone (← nonEmptyStr obj "id") (← optStr obj "content") (← optArr obj "tool_calls"))
  else if ty = "llm_error" then do
    some (.llmError (← nonEmptyStr obj "id") (← anyStr obj "message") (anyStr obj "code"))
  else if ty = "tts_response" then do
    some (.ttsResponse (← nonEmptyStr obj "id") (← getU64 obj "seq") (← anyStr obj "data") (← getBool obj "last")
      (← nonEmptyStr obj "mime"))
  else if ty = "stt_request" then do
    some (.sttRequest (← nonEmptyStr obj "id") (← getU64 obj "seq") (← anyStr obj "data") (← getBool obj "last")
      (← nonEmptyStr obj "mime") (← optStr obj "model") (← optStr obj "fileName"))
  else if ty = "stt_response" then do
    some (.sttResponse (← nonEmptyStr obj "id") (← anyStr obj "text"))
  else if ty = "voice_error" then do
    some (.voiceError (← nonEmptyStr obj "id") (← anyStr obj "message") (anyStr obj "code"))
  else none

def decode (bytes : List UInt8) : Option ProtocolMessage :=
  match valueOf bytes with
  | some (.obj fields) =>
    if ((Json.obj fields).get? "v").any (isOne one) then
      (anyStr (.obj fields) "type").bind (readMessage (.obj fields))
    else none
  | _ => none

/-! ## Writing -/

def optField (key : String) (value : Option Json) : List (String × Json) := (value.map (fun j => (key, j))).toList

def optTexts (key : String) (value : Option (List String)) : List (String × Json) :=
  optField key (value.map (fun l => .arr (l.map .str)))

def fieldsOf : ProtocolMessage → List (String × Json)
  | .providerHello models services voices => optTexts "models" models ++ optTexts "services" services ++
      [("type", .str "provider_hello"), ("v", .int 1)] ++ optTexts "voices" voices
  | .consumerHello => [("type", .str "consumer_hello"), ("v", .int 1)]
  | .llmResponseChunk id delta seq => [("delta", .str delta), ("id", .str id)] ++
      optField "seq" (seq.map (fun n : Nat => Json.int n)) ++ [("type", .str "llm_response_chunk"), ("v", .int 1)]
  | .llmResponseDone id content toolCalls => optField "content" (content.map .str) ++ [("id", .str id)] ++
      optField "tool_calls" toolCalls ++ [("type", .str "llm_response_done"), ("v", .int 1)]
  | .llmError id message code => optField "code" (code.map .str) ++ [("id", .str id), ("message", .str message),
      ("type", .str "llm_error"), ("v", .int 1)]
  | .ttsResponse id seq data last mime => [("data", .str data), ("id", .str id), ("last", .bool last), ("mime", .str mime),
      ("seq", .int seq), ("type", .str "tts_response"), ("v", .int 1)]
  | .sttRequest id seq data last mime model fileName => [("data", .str data)] ++ optField "fileName" (fileName.map .str) ++
      [("id", .str id), ("last", .bool last), ("mime", .str mime)] ++ optField "model" (model.map .str) ++
      [("seq", .int seq), ("type", .str "stt_request"), ("v", .int 1)]
  | .sttResponse id text => [("id", .str id), ("text", .str text), ("type", .str "stt_response"), ("v", .int 1)]
  | .voiceError id message code => optField "code" (code.map .str) ++ [("id", .str id), ("message", .str message),
      ("type", .str "voice_error"), ("v", .int 1)]
  | .oaiResponse id seq last data status contentType => optField "contentType" (contentType.map .str) ++
      [("data", .str data), ("id", .str id), ("last", .bool last), ("seq", .int seq)] ++
      optField "status" (status.map (fun n : Nat => Json.int n)) ++ [("type", .str "oai_response"), ("v", .int 1)]
  | .oaiError id message code => optField "code" (code.map .str) ++ [("id", .str id), ("message", .str message),
      ("type", .str "oai_error"), ("v", .int 1)]

def encode (msg : ProtocolMessage) : List UInt8 := toVec (.obj (fieldsOf msg))

/-! ## What is written reads back -/

theorem valueOf_encode {msg : ProtocolMessage} (hr : ReprFields (fieldsOf msg))
    (hd : nestingFields (fieldsOf msg) < 127) (hv : valueFields [] (fieldsOf msg) = fieldsOf msg) :
    valueOf (encode msg) = some (.obj (fieldsOf msg)) := by
  unfold valueOf encode
  rw [fromSlice_toVec (.obj (fieldsOf msg)) hr (by simp only [nesting, maxDepth]; omega)]
  show some (Json.obj (valueFields [] (fieldsOf msg))) = _
  rw [hv]

theorem asU64Strict_int {n : Nat} (h : n < 2 ^ 63) : asU64Strict (.int n) = some n := by
  show (if 0 ≤ (n : Int) ∧ (n : Int).toNat < 2 ^ 63 then some (n : Int).toNat else none) = some n
  rw [Int.toNat_natCast, if_pos ⟨Int.natCast_nonneg n, h⟩]

theorem filter_nonEmpty {s : String} (h : s ≠ "") : (some s).filter (fun s => !s.isEmpty) = some s := by
  have : s.isEmpty = false := by rwa [Bool.eq_false_iff, ne_eq, String.isEmpty_iff]
  simp [this]

variable {last : Bool}

variable {id mime data : String} {seq : Nat}

theorem decode_ttsResponse (hid : id ≠ "") (hseq : seq < 2 ^ 63) : decode one (encode (.ttsResponse id seq data last mime)) =
      if mime = "" then none else some (.ttsResponse id seq data last mime) := by
  have hvalue : valueOf (encode (.ttsResponse id seq data last mime)) =
      some (.obj (fieldsOf (.ttsResponse id seq data last mime))) := by
    refine valueOf_encode ?_ ?_ ?_
    · simp [fieldsOf, ReprFields, Json.Repr]
      omega
    · simp [fieldsOf, nestingFields, nesting]
    · simp +decide [fieldsOf, valueFields, Json.value, setField]
  unfold decode
  rw [hvalue]
  by_cases hmime : mime = ""
  · simp +decide [fieldsOf, get?, anyStr, asStr, readMessage, nonEmptyStr, hmime]
  · simp +decide [fieldsOf, get?, isOne, anyStr, asStr, readMessage, nonEmptyStr, getU64, getBool, asBool,
      asU64Strict_int hseq, filter_nonEmpty hid, filter_nonEmpty hmime, hmime]

theorem decode_sttRequest {model fileName : Option String} (hid : id ≠ "")
    (hseq : seq < 2 ^ 63) : decode one (encode (.sttRequest id seq data last mime model fileName)) =
      if mime = "" then none else some (.sttRequest id seq data last mime model fileName) := by
  have hvalue : valueOf (encode (.sttRequest id seq data last mime model fileName)) =
      some (.obj (fieldsOf (.sttRequest id seq data last mime model fileName))) := by
    refine valueOf_encode ?_ ?_ ?_
    · cases model <;> cases fileName <;> simp [fieldsOf, optField, ReprFields, Json.Repr] <;> omega
    · cases model <;> cases fileName <;> simp [fieldsOf, optField, nestingFields, nesting]
    · cases model <;> cases fileName <;> simp +decide [fieldsOf, optField, valueFields, Json.value, setField]
  unfold decode
  rw [hvalue]
  by_cases hmime : mime = ""
  · cases model <;> cases fileName <;>
      simp +decide [fieldsOf, optField, get?, anyStr, asStr, readMessage, nonEmptyStr, hmime]
  · cases model <;> cases fileName <;>
      simp +decide [fieldsOf, optField, get?, isOne, anyStr, asStr, readMessage, nonEmptyStr, optStr, getU64,
        getBool, asBool, asU64Strict_int hseq, filter_nonEmpty hid, filter_nonEmpty hmime, hmime]

theorem decode_oaiResponse {id data : String} {status : Option Nat} {contentType : Option String}
    (hid : id ≠ "") (hseq : seq < 2 ^ 63) (hstatus : ∀ n, status = some n → n < 2 ^ 16) :
    decode one (encode (.oaiResponse id seq last data status contentType)) =
      some (.oaiResponse id seq last data status contentType) := by
  have hvalue : valueOf (encode (.oaiResponse id seq last data status contentType)) =
      some (.obj (fieldsOf (.oaiResponse id seq last data status contentType))) := by
    refine valueOf_encode ?_ ?_ ?_
    · cases status with
      | none => cases contentType <;> simp [fieldsOf, optField, ReprFields, Json.Repr] <;> omega
      | some n =>
        have := hstatus n rfl
        cases contentType <;> simp [fieldsOf, optField, ReprFields, Json.Repr] <;> omega
    · cases status <;> cases contentType <;> simp [fieldsOf, optField, nestingFields, nesting]
    · cases status <;> cases contentType <;> simp +decide [fieldsOf, optField, valueFields, Json.value, setField]
  unfold decode
  rw [hvalue]
  cases status with
  | none =>
    cases contentType <;>
      simp +decide [fieldsOf, optField, get?, isOne, anyStr, asStr, readMessage, nonEmptyStr, optStr, optU64,
        getU64, getBool, asBool, asU64Strict_int hseq, filter_nonEmpty hid]
  | some n =>
    have hlt : n < 65536 := hstatus n rfl
    have hn : (some n).filter (fun m => decide (m < 65536)) = some n := by
      rw [filter_some, if_pos (decide_eq_true hlt)]
    have hn63 : asU64Strict (.int n) = some n := asU64Strict_int (by omega)
    cases contentType <;>
      simp +decide [fieldsOf, optField, get?, isOne, anyStr, asStr, readMessage, nonEmptyStr, optStr, optU64,
        getU64, getBool, asBool, asU64Strict_int hseq, hn63, hn, filter_nonEmpty hid]

end Mistl.Ai
