import Mistl.DmHistory
import Mistl.NostrStore
/-!
# ApiHttp — the requests of the local API, and the heads of its answers

The request head and its guards, the routes of a room, the rules a body is read by, and every response head
`api_server.rs` writes.
-/
namespace Mistl.Api

open Authz (Denied)
open Folder (trim)
open Nostr (splitOnce parseUnsigned)

/-! ## Texts -/

def eqIgnoreAsciiCase (a b : List Char) : Bool := a.map Char.toLower == b.map Char.toLower

/-- `char::to_digit(16)` of a byte -/
def toDigit16 (b : UInt8) : Option Nat :=
  if 48 ≤ b ∧ b ≤ 57 then some (b.toNat - 48)
  else if 97 ≤ b ∧ b ≤ 102 then some (b.toNat - 87)
  else if 65 ≤ b ∧ b ≤ 70 then some (b.toNat - 55)
  else none

/-! ## The request head -/

structure RequestHead where
  method : String
  path : String
  headers : List (String × String)
  deriving DecidableEq

namespace RequestHead

def header (head : RequestHead) (name : String) : Option String :=
  (head.headers.find? (fun h => eqIgnoreAsciiCase h.1.toList name.toList)).map Prod.snd

def count (head : RequestHead) (name : String) : Nat := (head.headers.filter (fun h => eqIgnoreAsciiCase h.1.toList name.toList)).length

def isMethod (head : RequestHead) (name : String) : Bool := eqIgnoreAsciiCase head.method.toList name.toList

def route (head : RequestHead) : List Char := head.path.toList.takeWhile (· ≠ '?')

end RequestHead

structure Local (Ip : Type) where
  ip : Ip
  port : Nat
  /-- `IpAddr::from_str` -/
  parse : List Char → Option Ip

section Guards
variable {Ip : Type} [DecidableEq Ip] (addr : Local Ip)

def validPort (p : List Char) : Bool := !p.isEmpty && p.all Char.isDigit

def matchesLocal (name : List Char) (port : Option (List Char)) : Bool :=
  match addr.parse name with
  | none => false
  | some ip => decide (ip = addr.ip) && port.all (fun p => parseUnsigned (2 ^ 16) p == some addr.port)

def hostIsAllowed (host : List Char) : Bool :=
  match trim host with
  | [] => false
  | '[' :: rest =>
    match splitOnce ']' rest with
    | none => false
    | some (name, after) =>
      (match after with
        | [] => true
        | ':' :: port => validPort port
        | _ => false) &&
      (name == "::1".toList || matchesLocal addr name none)
  | host =>
    let (name, port) := match splitLast ':' host with
      | some (name, port) => if validPort port then (name, some port) else (host, none)
      | none => (host, none)
    eqIgnoreAsciiCase name "127.0.0.1".toList || eqIgnoreAsciiCase name "localhost".toList || matchesLocal addr name port

def originIsAllowed (origin : List Char) : Bool :=
  match (trim origin).dropPrefix? "http://".toList with
  | none => false
  | some authority =>
    let split := match authority with
      | '[' :: rest => (splitOnce ']' rest).map (fun p => ('[' :: p.1 ++ [']'], p.2.dropPrefix? [':']))
      | _ => match splitLast ':' authority with
        | some (name, port) => some (name, some port)
        | none => some (authority, none)
    match split with
    | none => false
    | some (name, port) =>
      (eqIgnoreAsciiCase name "127.0.0.1".toList || eqIgnoreAsciiCase name "localhost".toList || name == "[::1]".toList) &&
        (match port with
        | some p => parseUnsigned (2 ^ 16) p == some addr.port
        | none => addr.port == 80)

/-- A port the authority of an origin names, unless it is the scheme's own; `none` where it is no port. -/
def readPort (defaultPort : Nat) : Option (List Char) → Option (Option Nat)
  | none => some none
  | some p => if validPort p then (parseUnsigned (2 ^ 16) p).map (fun p => if p = defaultPort then none else some p) else none

def normalizeOrigin (value : List Char) : Option String := do
  let value := trim value
  let (scheme, authority) ← ((value.dropSuffix? ['/']).getD value).dropInfix? "://".toList
  let scheme := scheme.map Char.toLower
  let defaultPort ← if scheme = "http".toList then some 80 else if scheme = "https".toList then some 443 else none
  if authority.isEmpty || !authority.all (fun c => c.isAlphanum || "-.:[]".toList.contains c) then none
  else
    let (host, port) ← match authority.map Char.toLower with
      | '[' :: rest => do
        let (addr, after) ← splitOnce ']' rest
        if addr.isEmpty || addr.contains '[' then none
        else if after.isEmpty then some ('[' :: addr ++ [']'], none)
        else (after.dropPrefix? [':']).map (fun p => ('[' :: addr ++ [']'], some p))
      | authority =>
        let (host, port) := match splitOnce ':' authority with
          | some (h, p) => (h, some p)
          | none => (authority, none)
        if host.isEmpty || host.contains '[' || host.contains ']' then none else some (host, port)
    match ← readPort defaultPort port with
    | some port => some (String.ofList (scheme ++ "://".toList ++ host ++ ":".toList ++ (toString port).toList))
    | none => some (String.ofList (scheme ++ "://".toList ++ host))

def corsOrigin (head : RequestHead) (allowed : List String) : Option String := do
  let origin ← head.header "origin"
  let origin := trim origin.toList
  let normalized ← normalizeOrigin origin
  if allowed.any (fun a => normalizeOrigin a.toList == some normalized) then some (String.ofList origin) else none

structure Refusal where
  status : Nat
  reason : String
  message : String

/-- `check_request_guards`; the origin that is granted. -/
def checkRequestGuards (head : RequestHead) (allowed : List String) : Except Refusal (Option String) :=
  if 1 < head.count "host" || 1 < head.count "content-length" || 0 < head.count "transfer-encoding" then
    .error ⟨400, "Bad Request", "unsupported request framing"⟩
  else if hostIsAllowed addr ((head.header "host").getD "").toList = false then
    .error ⟨403, "Forbidden", "host not allowed"⟩
  else match head.header "origin" with
    | none => .ok none
    | some origin =>
      if originIsAllowed addr origin.toList then .ok none
      else match corsOrigin head allowed with
        | some origin => .ok (some origin)
        | none => .error ⟨403, "Forbidden", "origin not allowed"⟩

end Guards

/-- The lines `CORS_HEADERS` holds for a granted origin. -/
def corsHeaders : Option String → String
  | some origin => "Access-Control-Allow-Origin: " ++ origin ++ "\r\nVary: Origin\r\n"
  | none => ""

/-! ## Routes and bodies -/

/-- The `%` escapes of a room. -/
def decodePercent : List UInt8 → Option (List UInt8)
  | [] => some []
  | b :: bytes =>
    if b = 37 then
      match bytes with
      | hi :: lo :: rest => do
        let hi ← toDigit16 hi
        let lo ← toDigit16 lo
        (decodePercent rest).map (UInt8.ofNat (hi * 16 + lo) :: ·)
      | _ => none
    else (decodePercent bytes).map (b :: ·)

def roomEndpoints : List String := ["models", "chat/completions", "audio/speech", "audio/transcriptions", "systemone"]

def roomRoute (path : List Char) : Option (String × String) := do
  let rest ← path.dropPrefix? "/v1/rooms/".toList
  let (encoded, endpoint) ← splitOnce '/' rest
  if !roomEndpoints.contains (String.ofList endpoint) then none
  else
    let decoded ← decodePercent (Json.utf8 encoded)
    let room ← String.fromUTF8? decoded.toByteArray
    if room.isEmpty then none else some (room, String.ofList endpoint)

def maxBodyBytes : Nat := 10 * 1024 * 1024

def maxJsonBodyBytes : Nat := 2 * 1024 * 1024

def contentTypeIsJson (contentType : Option String) : Bool :=
  contentType.any (fun v => eqIgnoreAsciiCase (trim (v.toList.takeWhile (· ≠ ';'))) "application/json".toList)

/-- The body of a request, of what arrives after its head; a `GET` has none. -/
def readBody (head : RequestHead) (path : List Char) (input : List UInt8) : Except Refusal (List UInt8) :=
  if head.isMethod "POST" = false then .ok []
  else match head.header "content-length" with
    | none => .error ⟨411, "Length Required", "Content-Length required"⟩
    | some v => match parseUnsigned (2 ^ 64) (trim v.toList) with
      | none => .error ⟨400, "Bad Request", "invalid Content-Length"⟩
      | some contentLength =>
        let isTranscription := path == "/v1/audio/transcriptions".toList
        if (if isTranscription then maxBodyBytes else maxJsonBodyBytes) < contentLength then
          .error ⟨413, "Payload Too Large", "request body too large"⟩
        else if !isTranscription && !contentTypeIsJson (head.header "content-type") then
          .error ⟨415, "Unsupported Media Type", "Content-Type must be application/json"⟩
        else if input.length < contentLength then .error ⟨400, "Bad Request", "incomplete request body"⟩
        else .ok (input.take contentLength)

/-! ## Answers -/

inductive SseEvent where
  | delta (content : String)
  | toolCalls (calls : Json)
  | finish (reason : String)
  | failed (message : String)
  | done

inductive Body where
  | json (j : Json)
  | bytes (b : List UInt8)
  | events (l : List SseEvent)

structure Response where
  head : String
  body : Body

def writeJsonResponseWithHeaders (cors : String) (status : Nat) (reason : String) (body : Json) (headers : String) : Response where
  head := "HTTP/1.1 " ++ toString status ++ " " ++ reason ++ "\r\nContent-Type: application/json\r\nContent-Length: " ++
    toString (Json.toVec body).length ++ "\r\n" ++ cors ++ headers ++ "Connection: close\r\n\r\n"
  body := .json body

def writeJsonResponse (cors : String) (status : Nat) (reason : String) (body : Json) : Response :=
  writeJsonResponseWithHeaders cors status reason body ""

def writeError (cors : String) (status : Nat) (reason message : String) : Response :=
  writeJsonResponse cors status reason (.obj [("error", .obj [("message", .str message)])])

def writeRefusal (cors : String) (refusal : Refusal) : Response := writeError cors refusal.status refusal.reason refusal.message

def httpStatus (denied : Denied) : Nat :=
  if denied.code = "unauthorized" then 401 else if denied.code = "usage_limit_exceeded" then 429 else 403

def writeDenied (cors : String) (denied : Denied) : Response :=
  let status := httpStatus denied
  let (reason, headers) :=
    if status = 401 then ("Unauthorized", "WWW-Authenticate: Bearer\r\n")
    else if status = 429 then ("Too Many Requests", "")
    else ("Forbidden", "")
  writeJsonResponseWithHeaders cors status reason (.obj [("error", .obj [("code", .str denied.code),
    ("message", .str denied.message), ("type", .str "invalid_request_error")])]) headers

inductive Failure where
  | modelNotFound (message : String)
  | toolsUnsupported
  | other

def backendErrorMessage : String := "upstream backend error (see the mistl daemon log)"

def writeBackendFailure (cors : String) : Failure → Response
  | .modelNotFound message => writeJsonResponse cors 404 "Not Found" (.obj [("error", .obj [("code", .str "model_not_found"),
      ("message", .str message), ("param", .str "model"), ("type", .str "invalid_request_error")])])
  | .toolsUnsupported => writeJsonResponse cors 400 "Bad Request" (.obj [("error", .obj [("code", .str "tools_unsupported"),
      ("message", .str "the AI provider on the network does not support tools"), ("type", .str "invalid_request_error")])])
  | .other => writeError cors 502 "Bad Gateway" backendErrorMessage

def sseResponseHeader (cors : String) : String :=
  "HTTP/1.1 200 OK\r\nContent-Type: text/event-stream\r\nTransfer-Encoding: chunked\r\nCache-Control: no-cache\r\n" ++
    cors ++ "Connection: close\r\n\r\n"

structure TunnelResponse where
  status : Nat
  contentType : String
  body : List UInt8

def breaksLine (text : String) : Bool := text.toList.any fun c => c == '\r' || c == '\n'

def writeTunnelResponse (cors : String) (response : TunnelResponse) : Response where
  head := "HTTP/1.1 " ++ toString response.status ++ " " ++
    (if 200 ≤ response.status ∧ response.status < 300 then "OK" else "Upstream Error") ++ "\r\nContent-Type: " ++
    (if breaksLine response.contentType then "application/json" else response.contentType) ++ "\r\nContent-Length: " ++
    toString response.body.length ++ "\r\n" ++ cors ++ "Connection: close\r\n\r\n"
  body := .bytes response.body

structure TtsAudio where
  bytes : List UInt8
  mime : String

def writeAudio (cors : String) (audio : TtsAudio) : Response where
  head := "HTTP/1.1 200 OK\r\nContent-Type: " ++ audio.mime ++ "\r\nContent-Length: " ++ toString audio.bytes.length ++
    "\r\n" ++ cors ++ "Connection: close\r\n\r\n"
  body := .bytes audio.bytes

end Mistl.Api
