import Mistl.ApiChat
/-!
# ApiServer — what a request does

`route_request` and the four endpoint handlers, as the list of what they do in order: the calls on the authorization
store, the backends invoked, the answer, and the charge the `ApiUsage` of a handler makes when it is dropped.
-/
namespace Mistl.Api

open Authz (Authorized Denied ApiStore)
open Nostr (parseUnsigned)

/-! ## Backends -/

structure ChatOutput where
  content : String
  toolCalls : Option Json
  deriving DecidableEq

/-- The backends behind a route; a chat call sends its deltas before it returns. -/
structure Backends where
  call : List ChatMessage → ToolOptions → Option String → Bool → List String × Except Failure ChatOutput
  models : List String
  tts : TtsParams → Option String → Except Failure TtsAudio
  stt : SttParams → Except Failure String

structure RoomRoutes extends Backends where
  oai : Json → Except Failure TunnelResponse
  decision : List UInt8 → Except Failure TunnelResponse

structure Server where
  reading : Reading
  backends : Backends
  rooms : Option (String → Except Failure (Option RoomRoutes))

inductive Use where
  | chat (messages : List ChatMessage) (tools : ToolOptions) (model : Option String) (stream : Bool)
  | speech (params : TtsParams) (lang : Option String)
  | transcription (params : SttParams)
  | oai (raw : Json)
  | decision (body : List UInt8)

def Use.model : Use → Option String
  | .chat _ _ model _ => model
  | .speech params _ => some params.model
  | .transcription params => some params.model
  | .oai raw => textMember raw "model"
  | .decision body => (Json.valueOf body).bind (textMember · "model")

inductive Event where
  | authorize (authorization model : Option String) (answer : Except Denied Authorized)
  | listModels (authorization : Option String) (answer : Except Denied (Option (List String)))
  | invoke (room : Option String) (use : Use)
  | respond (response : Response)
  | charge (authorized : Authorized) (outputChars : Nat)

/-! ## The store -/

def modelFilter (C : Crates) (s : ApiStore) (authorization : Option String) (now : Int) :
    ApiStore × Except Denied (Option (List String)) :=
  match Authz.lookup C s.tokens authorization s.requireToken now with
  | .error denied => (s, .error denied)
  | .ok none => (s, .ok none)
  | .ok (some token) => (s.touchToken token.id now, .ok (if token.models.isEmpty then none else some token.models))

/-- One request being served: the store and the time it finds, the CORS lines of its answers, the id and the time of a
completion, how many deltas are written before the socket breaks, what the other requests make of the store until the
charge, and the time of the charge. -/
structure Visit where
  store : ApiStore
  now : Int
  cors : String
  id : String
  created : Nat
  held : Nat
  elsewhere : ApiStore → ApiStore
  later : Int

variable (C : Crates) (S : Server) (V : Visit)

def Visit.apply (s : ApiStore) : Event → ApiStore
  | .authorize authorization model _ => (s.authorizeApi C authorization model V.now).1
  | .listModels authorization _ => (modelFilter C s authorization V.now).1
  | .charge authorized outputChars =>
    let s := V.elsewhere s
    { s with toStore := s.toStore.record authorized 1 outputChars V.later }
  | _ => s

def Visit.settled (trace : List Event) : ApiStore := trace.foldl (V.apply C) V.store

/-! ## Handlers -/

structure ApiUsage where
  started : Bool
  outputChars : Nat

/-- `Drop for ApiUsage` -/
def ApiUsage.drop (usage : ApiUsage) (authorized : Authorized) : List Event :=
  if usage.started then [.charge authorized usage.outputChars] else []

/-- A handler from its authorization on: what it does once that is granted, and the usage it drops. -/
def authorized (authorization model : Option String) (next : List Event × ApiUsage) : List Event :=
  match (V.store.authorizeApi C authorization model V.now).2 with
  | .error denied => [.authorize authorization model (.error denied), .respond (writeDenied V.cors denied)]
  | .ok a => .authorize authorization model (.ok a) :: (next.1 ++ next.2.drop a)

def handleAudioSpeech (room : Option String) (b : Backends) (authorization : Option String) (body : List UInt8) : List Event :=
  match parseSpeech S.reading body with
  | .error message => [.respond (writeError V.cors 400 "Bad Request" message)]
  | .ok (params, lang) =>
    authorized C V authorization (some params.model)
      ([.invoke room (.speech params lang), .respond (match b.tts params lang with
          | .ok audio => writeAudio V.cors audio
          | .error e => writeBackendFailure V.cors e)], ⟨true, 0⟩)

def handleAudioTranscriptions (room : Option String) (b : Backends) (authorization : Option String) (contentType : String)
    (body : List UInt8) : List Event :=
  match parseTranscription contentType body with
  | .error message => [.respond (writeError V.cors 400 "Bad Request" message)]
  | .ok params =>
    authorized C V authorization (some params.model)
      ([.invoke room (.transcription params), .respond (match b.stt params with
          | .ok text => writeJsonResponse V.cors 200 "OK" (.obj [("text", .str text)])
          | .error e => writeBackendFailure V.cors e)], ⟨true, 0⟩)

def handleDecision (room : Option String) (decision : Option (List UInt8 → Except Failure TunnelResponse))
    (body : List UInt8) : List Event :=
  match decision with
  | none => [.respond (writeError V.cors 404 "Not Found"
      "decision requests need a room-scoped route: /v1/rooms/<room>/systemone")]
  | some decision =>
    match decisionEnvelope body with
    | .error message => [.respond (writeError V.cors 400 "Bad Request" message)]
    | .ok () => [.invoke room (.decision body), .respond (match decision body with
          | .ok response => writeTunnelResponse V.cors response
          | .error e => writeBackendFailure V.cors e)]

/-! ## Completions -/

def finishReason (output : ChatOutput) : String := if output.toolCalls.isSome then "tool_calls" else "stop"

def completionMessage (output : ChatOutput) : Json :=
  .obj ([("content", if output.toolCalls.isSome && output.content.isEmpty then .null else .str output.content),
    ("role", .str "assistant")] ++ (output.toolCalls.map (fun calls => ("tool_calls", calls))).toList)

def toolCallsStreamDelta (calls : Json) : Json :=
  .obj [("tool_calls", .arr ((calls.asArr.getD []).mapIdx (fun i c => setMember "index" (.int i) c)))]

def completion (req : ParsedChat) (output : ChatOutput) : Json :=
  .obj [("choices", .arr [.obj [("finish_reason", .str (finishReason output)), ("index", .int 0),
      ("message", completionMessage output)]]),
    ("created", .int V.created), ("id", .str V.id), ("model", .str (req.model.getD "mistl")),
    ("object", .str "chat.completion")]

/-- The loop that writes the deltas: the characters counted, and whether the socket held. -/
def writeDeltas : Nat → Nat → List String → Nat × Bool
  | _, chars, [] => (chars, true)
  | 0, chars, delta :: _ => (min (chars + delta.length) (2 ^ 64 - 1), false)
  | held + 1, chars, delta :: deltas => writeDeltas held (min (chars + delta.length) (2 ^ 64 - 1)) deltas

def answer (req : ParsedChat) (deltas : List String) (result : Except Failure ChatOutput) : List Event × ApiUsage :=
  if req.stream = false then
    match result with
    | .ok output => ([.respond (writeJsonResponse V.cors 200 "OK" (completion V req output))], ⟨true, output.content.length⟩)
    | .error e => ([.respond (writeBackendFailure V.cors e)], ⟨true, 0⟩)
  else
    match writeDeltas V.held 0 deltas with
    | (chars, false) => ([.respond ⟨sseResponseHeader V.cors, .events ((deltas.take V.held).map .delta)⟩], ⟨true, chars⟩)
    | (chars, true) =>
      match result with
      | .ok output =>
        ([.respond ⟨sseResponseHeader V.cors, .events (deltas.map .delta ++
            (output.toolCalls.map (fun calls => .toolCalls (toolCallsStreamDelta calls))).toList ++
            [.finish (finishReason output), .done])⟩], ⟨true, max chars output.content.length⟩)
      | .error e =>
        if deltas.isEmpty then ([.respond (writeBackendFailure V.cors e)], ⟨true, chars⟩)
        else ([.respond ⟨sseResponseHeader V.cors, .events (deltas.map .delta ++ [.failed backendErrorMessage])⟩], ⟨true, chars⟩)

def pointerIndex (token : String) : Option Nat :=
  if token.toList.head? = some '+' ∨ token.toList.head? = some '0' ∧ token.length ≠ 1 then none
  else parseUnsigned (2 ^ 64) token.toList

/-- `Value::pointer`, of the tokens of the pointer -/
def pointer : List String → Json → Option Json
  | [], j => some j
  | token :: tokens, .obj fields => ((Json.obj fields).get? token).bind (pointer tokens)
  | token :: tokens, .arr items => (pointerIndex token).bind (fun i => items[i]?.bind (pointer tokens))
  | _ :: _, _ => none

def relayVision (req : ParsedChat) (response : TunnelResponse) : List Event × ApiUsage :=
  if req.stream = false ∨ ¬ (200 ≤ response.status ∧ response.status < 300) then
    ([.respond (writeTunnelResponse V.cors response)],
      ⟨true, (((Json.valueOf response.body).bind (pointer ["choices", "0", "message", "content"])).bind Json.asStr).elim 0
        String.length⟩)
  else
    match (Json.valueOf response.body).bind (pointer ["choices", "0", "message"]) with
    | none => ([.respond (writeError V.cors 502 "Bad Gateway" backendErrorMessage)], ⟨true, 0⟩)
    | some message =>
      let output : ChatOutput := ⟨(textMember message "content").getD "", (message.get? "tool_calls").filter (fun v => v.asArr.isSome)⟩
      answer V req [output.content] (.ok output)

def complete (room : Option String) (b : Backends) (oai : Option (Json → Except Failure TunnelResponse))
    (req : ParsedChat) (vision : Option Json) : List Event × ApiUsage :=
  match vision with
  | none =>
    let r := b.call req.messages req.tools req.model req.stream
    let (events, usage) := answer V req r.1 r.2
    (.invoke room (.chat req.messages req.tools req.model req.stream) :: events, usage)
  | some raw =>
    match oai with
    | none => ([.respond (writeError V.cors 400 "Bad Request"
        "image content requires a room-scoped route and an oai provider")], ⟨false, 0⟩)
    | some oai =>
      let (events, usage) := match oai (visionBody raw) with
        | .error e => ([.respond (writeBackendFailure V.cors e)], ⟨true, 0⟩)
        | .ok response => relayVision V req response
      (.invoke room (.oai (visionBody raw)) :: events, usage)

/-- `handle_chat_completions_with_oai` -/
def handleChatCompletions (room : Option String) (b : Backends) (oai : Option (Json → Except Failure TunnelResponse))
    (authorization : Option String) (body : List UInt8) : List Event :=
  match visionRequest S.reading body with
  | .error message => [.respond (writeError V.cors 400 "Bad Request" message)]
  | .ok vision =>
    match parseChatRequest S.reading ((vision.map Prod.snd).getD body) with
    | .error message => [.respond (writeError V.cors 400 "Bad Request" message)]
    | .ok req => authorized C V authorization req.model (complete V room b oai req (vision.map Prod.fst))

/-! ## Routing -/

def modelsResponse (models : List String) (allowed : Option (List String)) : Json :=
  .obj [("data", .arr ((models.filter (fun id => allowed.all (fun l => l.contains id))).map (fun id =>
    .obj [("id", .str id), ("object", .str "model"), ("owned_by", .str "mistl")]))), ("object", .str "list")]

/-- The endpoints of `route_request`, with the backends of the route. -/
def dispatch (room : Option String) (b : Backends) (oai : Option (Json → Except Failure TunnelResponse))
    (decision : Option (List UInt8 → Except Failure TunnelResponse)) (head : RequestHead) (path : List Char)
    (input : List UInt8) : List Event :=
  match readBody head path input with
  | .error refusal => [.respond (writeRefusal V.cors refusal)]
  | .ok body =>
    if head.isMethod "GET" ∧ path = "/v1/models".toList then
      let answer := (modelFilter C V.store (head.header "authorization") V.now).2
      [.listModels (head.header "authorization") answer, .respond (match answer with
          | .error denied => writeDenied V.cors denied
          | .ok allowed => writeJsonResponse V.cors 200 "OK" (modelsResponse b.models allowed))]
    else if head.isMethod "POST" ∧ path = "/v1/chat/completions".toList then
      handleChatCompletions C S V room b oai (head.header "authorization") body
    else if head.isMethod "POST" ∧ path = "/v1/audio/speech".toList then
      handleAudioSpeech C S V room b (head.header "authorization") body
    else if head.isMethod "POST" ∧ path = "/v1/audio/transcriptions".toList then
      handleAudioTranscriptions C V room b (head.header "authorization") ((head.header "content-type").getD "") body
    else if head.isMethod "POST" ∧ path = "/v1/systemone".toList then handleDecision V room decision body
    else [.respond (writeError V.cors 404 "Not Found" "not found")]

def routeRequest (head : RequestHead) (input : List UInt8) : List Event := if "/v1/rooms/".toList.isPrefixOf head.route then
    match roomRoute head.route with
    | none => [.respond (writeError V.cors 404 "Not Found" "invalid room route")]
    | some (room, endpoint) =>
      match S.rooms with
      | none => [.respond (writeError V.cors 404 "Not Found" "room is not an enabled Room provider in ai.providers")]
      | some rooms =>
        match rooms room with
        | .error e => [.respond (writeBackendFailure V.cors e)]
        | .ok none => [.respond (writeError V.cors 404 "Not Found" "room is not an enabled Room provider in ai.providers")]
        | .ok (some routes) =>
          dispatch C S V (some room) routes.toBackends (some routes.oai) (some routes.decision) head
            ("/v1/" ++ endpoint).toList input
  else dispatch C S V none S.backends none none head head.route input

end Mistl.Api
