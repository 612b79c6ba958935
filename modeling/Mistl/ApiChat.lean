import Mistl.ApiHttp
/-!
# ApiChat — what the endpoints read from a body

`parse_chat_request` and `vision_request`, the speech parameters, the multipart form of a transcription and the
envelope of a decision.
-/
open Mistl.Json

namespace Mistl.Api

open Folder (trim)
open Nostr (splitOnce)
open Dm (readOption readDefault)

structure Reading where
  /-- The text of serde's error for a body. -/
  syntaxError : List UInt8 → String
  /-- `config::valid_tts_speed`, of a number -/
  validTtsSpeed : Json → Bool

def Reading.invalidBody (R : Reading) (body : List UInt8) : String := "invalid request body: " ++ R.syntaxError body

/-! ## Chat -/

structure ChatMessage where
  role : String
  content : String
  toolCalls : Option Json
  toolCallId : Option String

structure ToolOptions where
  reasoningEffort : Option String
  tools : Option Json
  toolChoice : Option Json

structure ParsedChat where
  model : Option String
  messages : List ChatMessage
  tools : ToolOptions
  stream : Bool

structure ApiMessage where
  role : String
  content : Option String
  toolCalls : Option Json
  toolCallId : Option String

structure ChatRequestBody where
  reasoningEffort : Option String
  model : Option String
  messages : List ApiMessage
  stream : Bool
  tools : Option Json
  toolChoice : Option Json

def readValue : Option Json → Option (Option Json) := readOption (fun j => some (Json.value j))

def ApiMessage.ofJson (j : Json) : Option ApiMessage :=
  match structFields ["role", "content", "tool_calls", "tool_call_id"] false j with
  | some [some role, content, toolCalls, toolCallId] => do
    some ⟨← role.asStr, ← readOption asStr content, ← readValue toolCalls, ← readOption asStr toolCallId⟩
  | _ => none

def ChatRequestBody.ofJson (j : Json) : Option ChatRequestBody :=
  match structFields ["reasoning_effort", "model", "messages", "stream", "tools", "tool_choice"] false j with
  | some [reasoningEffort, model, some messages, stream, tools, toolChoice] => do
    some ⟨← readOption asStr reasoningEffort, ← readOption asStr model,
      ← messages.asArr.bind (fun items => items.mapM ApiMessage.ofJson), ← readDefault asBool false stream,
      ← readValue tools, ← readValue toolChoice⟩
  | _ => none

/-- `protocol::MAX_TOOLS`, `MAX_TOOL_CALLS` -/
def maxTools : Nat := 128

def maxToolsBytes : Nat := 256 * 1024

def messageField (i : Nat) (text : String) : String := "messages[" ++ toString i ++ "]." ++ text

/-- One turn of the loop of `parse_chat_request`. -/
def checkMessage (i : Nat) (m : ApiMessage) : Except String ChatMessage := do
  let toolCalls ← match m.toolCalls with
    | none => .ok none
    | some (.arr calls) =>
      if calls.isEmpty then .ok none
      else if maxTools < calls.length then .error (messageField i "tool_calls has more than 128 entries")
      else .ok (some (.arr calls))
    | some _ => .error (messageField i "tool_calls must be an array")
  let content ← match m.content with
    | some c => .ok c
    | none => if m.role = "assistant" ∧ toolCalls.isSome then .ok "" else .error (messageField i "content is required")
  ensure (!(m.role == "tool" && m.toolCallId.isNone)) (messageField i "tool_call_id is required for tool messages")
  .ok ⟨m.role, content, toolCalls, m.toolCallId⟩

def checkMessages : Nat → List ApiMessage → Except String (List ChatMessage)
  | _, [] => .ok []
  | i, m :: l => do
    let m ← checkMessage i m
    let l ← checkMessages (i + 1) l
    .ok (m :: l)

def checkTools : Option Json → Except String (Option Json)
  | none => .ok none
  | some (.arr a) =>
    if a.isEmpty then .ok none
    else if maxTools < a.length then .error "\x60tools\x60 has more than 128 entries"
    else if maxToolsBytes < Json.size (.arr a) then .error "\x60tools\x60 is too large"
    else .ok (some (.arr a))
  | some _ => .error "\x60tools\x60 must be an array"

def checkToolChoice (tools : Option Json) : Option Json → Except String (Option Json)
  | none => .ok none
  | some (.str s) => .ok (if tools.isSome then some (.str s) else none)
  | some (.obj o) => .ok (if tools.isSome then some (.obj o) else none)
  | some _ => .error "\x60tool_choice\x60 must be a string or an object"

def parseChatRequest (R : Reading) (body : List UInt8) : Except String ParsedChat := do
  let req ← okOr ((fromSlice body).bind ChatRequestBody.ofJson) (R.invalidBody body)
  let messages ← checkMessages 0 req.messages
  let tools ← checkTools req.tools
  let toolChoice ← checkToolChoice tools req.toolChoice
  .ok ⟨req.model, messages, ⟨req.reasoningEffort, tools, toolChoice⟩, req.stream⟩

/-! ## Images -/

def isImagePart (part : Json) : Bool := (part.get? "type").bind asStr == some "image_url"

def hasImage (raw : Json) : Bool := ((raw.get? "messages").bind asArr).any (fun messages =>
    messages.any (fun m => ((m.get? "content").bind asArr).any (fun parts => parts.any isImagePart)))

def partsText : List Json → Except String String
  | [] => .ok ""
  | part :: parts =>
    match (part.get? "type").bind asStr with
    | some "text" => do
      let text ← okOr ((part.get? "text").bind asStr) "text part requires text"
      let rest ← partsText parts
      .ok (text ++ rest)
    | some "image_url" =>
      if (((part.get? "image_url").bind (fun p => p.get? "url")).bind asStr).any (fun s => !s.isEmpty) then
        partsText parts
      else .error "invalid image content part"
    | _ => .error "invalid image content part"

def setMember (key : String) (j : Json) : Json → Json
  | .obj fields => .obj (setField key j fields)
  | other => other

def textMessage (message : Json) : Except String Json :=
  match (message.get? "content").bind asArr with
  | none => .ok message
  | some parts => (partsText parts).map (fun content => setMember "content" (.str content) message)

/-- `vision_request`; the request as it came, and its text alone. -/
def visionRequest (R : Reading) (body : List UInt8) : Except String (Option (Json × List UInt8)) := do
  let raw ← okOr (valueOf body) (R.invalidBody body)
  if hasImage raw = false then .ok none
  else
    let messages ← okOr ((raw.get? "messages").bind asArr) "messages must be an array"
    let messages ← messages.mapM textMessage
    .ok (some (raw, toVec (setMember "messages" (.arr messages) raw)))

def visionBody : Json → Json
  | .obj fields => .obj ((setField "stream" (.bool false) fields).filter (fun f => f.1 ≠ "temperature"))
  | other => other

/-! ## Speech -/

structure TtsParams where
  model : String
  voice : String
  input : String
  format : Option String
  speed : Option Json

def validTtsFormat (value : String) : Bool := ["mp3", "opus", "aac", "flac", "wav", "pcm"].contains value

def isNumber : Json → Bool
  | .int _ | .float _ => true
  | _ => false

def textMember (req : Json) (key : String) : Option String := (req.get? key).bind asStr

/-- What `handle_audio_speech` reads of a body: the parameters and the language. -/
def parseSpeech (R : Reading) (body : List UInt8) : Except String (TtsParams × Option String) := do
  let req ← okOr (valueOf body) (R.invalidBody body)
  let input := (textMember req "input").getD ""
  ensure (!(trim input.toList).isEmpty) "\x60input\x60 is required"
  .ok (⟨(textMember req "model").getD "", (textMember req "voice").getD "", input,
    (textMember req "response_format").filter validTtsFormat,
    ((req.get? "speed").filter isNumber).filter R.validTtsSpeed⟩, textMember req "lang")

/-! ## Transcriptions -/

structure SttParams where
  model : String
  audio : List UInt8
  mime : String
  fileName : Option String

structure MultipartPart where
  name : String
  fileName : Option String
  contentType : String
  bytes : List UInt8

/-- The bytes that may follow the first byte of a sequence, as ranges; `none` where it starts none. -/
def continuations (b : UInt8) : Option (List (UInt8 × UInt8)) :=
  if b < 0x80 then some []
  else if 0xc2 ≤ b ∧ b ≤ 0xdf then some [(0x80, 0xbf)]
  else if b = 0xe0 then some [(0xa0, 0xbf), (0x80, 0xbf)]
  else if b = 0xed then some [(0x80, 0x9f), (0x80, 0xbf)]
  else if 0xe1 ≤ b ∧ b ≤ 0xef then some [(0x80, 0xbf), (0x80, 0xbf)]
  else if b = 0xf0 then some [(0x90, 0xbf), (0x80, 0xbf), (0x80, 0xbf)]
  else if 0xf1 ≤ b ∧ b ≤ 0xf3 then some [(0x80, 0xbf), (0x80, 0xbf), (0x80, 0xbf)]
  else if b = 0xf4 then some [(0x80, 0x8f), (0x80, 0xbf), (0x80, 0xbf)]
  else none

def matching : List (UInt8 × UInt8) → List UInt8 → Nat
  | (lo, hi) :: ranges, b :: bytes => if lo ≤ b ∧ b ≤ hi then matching ranges bytes + 1 else 0
  | _, _ => 0

/-- `String::from_utf8_lossy`, by the number of bytes left -/
def lossyLoop : Nat → List UInt8 → List Char
  | 0, _ => []
  | _, [] => []
  | n + 1, b :: bytes =>
    match continuations b with
    | none => '\ufffd' :: lossyLoop n bytes
    | some ranges =>
      let k := matching ranges bytes
      let c := if k < ranges.length then '\ufffd'
        else ((String.fromUTF8? (b :: bytes.take k).toByteArray).bind (fun s => s.toList.head?)).getD '\ufffd'
      c :: lossyLoop n (bytes.drop k)

def fromUtf8Lossy (bytes : List UInt8) : List Char := lossyLoop bytes.length bytes

/-- `str::trim_matches` of quotes -/
def trimQuotes (cs : List Char) : List Char := (cs.dropWhile (· = '"')).rdropWhile (· = '"')

/-- The first parameter of a `;` list under a name, its quotes removed. -/
def findParam (params : List (List Char)) (key : List Char) : Option (List Char) :=
  params.findSome? (fun param => (splitOnce '=' param).bind (fun (k, v) =>
    if eqIgnoreAsciiCase (trim k) key then some (trimQuotes (trim v)) else none))

def multipartBoundary (contentType : List Char) : Option (List Char) :=
  if ((contentType.map Char.toLower).dropInfix? "multipart/form-data".toList).isNone then none
  else (findParam ((contentType.splitOn ';').drop 1) "boundary".toList).filter fun value => !value.isEmpty

def quotedParam (value key : List Char) : Option String := (findParam (value.splitOn ';') key).map String.ofList

/-- `split_on`, by the number of bytes left -/
def splitOnLoop (needle : List UInt8) : Nat → List UInt8 → List (List UInt8)
  | 0, rest => [rest]
  | n + 1, rest =>
    match rest.dropInfix? needle with
    | none => [rest]
    | some (before, after) => before :: splitOnLoop needle n after

/-- `str::lines` -/
def textLines (text : List Char) : List (List Char) :=
  let lines := text.splitOn '\n'
  lines.dropLast.map (fun line => (line.dropSuffix? ['\r']).getD line) ++ (lines.getLast?.filter (· ≠ [])).toList

def partHeaders : List (List Char) → MultipartPart → MultipartPart
  | [], part => part
  | line :: lines, part =>
    partHeaders lines (match splitOnce ':' line with
      | none => part
      | some (key, value) =>
        if eqIgnoreAsciiCase (trim key) "content-disposition".toList then
          { part with name := (quotedParam value "name".toList).getD "", fileName := quotedParam value "filename".toList }
        else if eqIgnoreAsciiCase (trim key) "content-type".toList then
          { part with contentType := String.ofList (trim value) }
        else part)

def readPart (segment : List UInt8) : Option MultipartPart := do
  let segment := if (segment.dropPrefix? [45, 45]).isSome then [] else segment
  let segment := (segment.dropPrefix? [13, 10]).getD segment
  let segment := (segment.dropSuffix? [13, 10]).getD segment
  let (head, bytes) ← segment.dropInfix? [13, 10, 13, 10]
  let part := partHeaders (textLines (fromUtf8Lossy head)) ⟨"", none, "", bytes⟩
  if part.name.isEmpty then none else some part

def parseMultipart (body : List UInt8) (boundary : List Char) : List MultipartPart :=
  ((splitOnLoop (utf8 ("--".toList ++ boundary)) body.length body).drop 1).filterMap readPart

/-- What `handle_audio_transcriptions` reads of a body. -/
def parseTranscription (contentType : String) (body : List UInt8) : Except String SttParams := do
  let boundary ← okOr (multipartBoundary contentType.toList) "expected multipart/form-data with a boundary"
  let parts := parseMultipart body boundary
  let file ← okOr (parts.find? (fun p => p.name == "file")) "missing \x60file\x60 part"
  ensure (!file.bytes.isEmpty) "\x60file\x60 part is empty"
  let model := ((parts.find? (fun p => p.name == "model")).map (fun p => String.ofList (trim (fromUtf8Lossy p.bytes)))).getD ""
  .ok ⟨model, file.bytes, if file.contentType.isEmpty then "application/octet-stream" else file.contentType, file.fileName⟩

/-! ## Decisions -/

/-- The envelope `handle_decision` checks. -/
def decisionEnvelope (body : List UInt8) : Except String Unit := do
  let req ← okOr ((valueOf body).filter (fun j => match j with | .obj _ => true | _ => false))
    "request body must be a JSON object"
  ensure ((req.get? "state").any (fun j => decide (j ≠ .null))) "'state' is required"
  ensure ((req.get? "questions").any (fun j => match j with | .obj q => !q.isEmpty | _ => false))
    "'questions' must be a non-empty object"

end Mistl.Api
