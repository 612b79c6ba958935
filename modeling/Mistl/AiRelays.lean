import Mistl.AiProtocol
import Mistl.ApiHttp
import Mistl.Lib.Base64Std
import Mistl.Lib.Chunks
import Mistl.Lib.Inbox
/-!
# AiRelays — speech and tunnel responses in chunks

`VoiceConsumer` and `TunnelConsumer` wait for the chunks of one request in a bounded queue the transport fills;
`send_tts_response` and `TunnelProvider` send them.
-/
namespace Mistl.Ai

open Api (TtsAudio TunnelResponse)

/-! ## What reaches a request -/

inductive Arrival where
  | deliver (sender : String) (bytes : List UInt8)
  | peerLeft (peer : String)
  | rejectAll
  | poll
  | timeout

/-- A request that is registered: its id and the peer it was sent to. -/
structure Ticket where
  id : String
  peer : String

variable {ρ : Type} (one : List Char → Bool)

/-- `handle_message` for one request: a message for another one, or from another peer, is not its business. -/
def handleMessage (limit : ProtocolMessage → Option (String × Bool)) (t : Ticket) (sender : String)
    (msg : ProtocolMessage) : List (Exchange.Step ProtocolMessage ρ) :=
  match limit msg with
  | none => []
  | some (id, valid) => if id = t.id ∧ sender = t.peer then [.offer valid msg] else []

def stepsOf (limit : ProtocolMessage → Option (String × Bool)) (timedOut : ρ) (t : Ticket) :
    Arrival → List (Exchange.Step ProtocolMessage ρ)
  | .deliver sender bytes => (decode one bytes).elim [] (handleMessage limit t sender)
  | .peerLeft peer => if peer = t.peer then [.close] else []
  | .rejectAll => [.close]
  | .poll => [.poll]
  | .timeout => [.expire timedOut]

/-! ## Speech -/

def maxAudioBytes : Nat := 32 * 1024 * 1024

def ttsChunkRawBytes : Nat := 9 * 1024

def voiceLimit : ProtocolMessage → Option (String × Bool)
  | .ttsResponse id _ data _ mime => some (id, decide (data.utf8ByteSize ≤ 16 * 1024) && decide (mime.utf8ByteSize ≤ 256))
  | .sttResponse id text => some (id, decide (text.utf8ByteSize ≤ 1024 * 1024))
  | .voiceError id message _ => some (id, decide (message.utf8ByteSize ≤ 4096))
  | _ => none

def voiceQueue : Nat := 8

/-- The turn of `receive` and of the loop of `synthesize` that a message is taken in: the next sequence number and the
bytes so far. -/
def takeSpeech (s : Nat × List UInt8) : ProtocolMessage → (Nat × List UInt8) ⊕ Except String TtsAudio
  | .voiceError _ message code => .inr (.error ("ai: " ++ message ++ " (" ++ code.getD "voice_error" ++ ")"))
  | .ttsResponse _ seq data last mime =>
    if seq < s.1 then .inl s
    else if seq ≠ s.1 then .inr (.error "ai: TTS response sequence gap")
    else match Base64.decodeStd data.toList with
      | none => .inr (.error "ai: invalid TTS base64")
      | some chunk =>
        if maxAudioBytes < s.2.length + chunk.length then .inr (.error "ai: TTS response too large")
        else if last then .inr (.ok ⟨s.2 ++ chunk, mime⟩)
        else .inl (s.1 + 1, s.2 ++ chunk)
  | _ => .inr (.error "ai: unexpected TTS response")

def speechReader : Reader (Nat × List UInt8) ProtocolMessage (Except String TtsAudio) where
  take := takeSpeech
  closed := .error "ai: voice request closed (peer left, queue overflow or invalid response)"

/-- `VoiceConsumer::synthesize` once the request is sent -/
def synthesize (t : Ticket) (arrivals : List Arrival) : Exchange (Nat × List UInt8) ProtocolMessage (Except String TtsAudio) :=
  Exchange.run speechReader voiceQueue (Exchange.start (0, []))
    (arrivals.flatMap (stepsOf one voiceLimit (.error "ai: voice request timed out") t))

def ttsChunks (id mime : String) : Nat → List (List UInt8) → List ProtocolMessage
  | _, [] => []
  | seq, [c] => [.ttsResponse id seq (String.ofList (Base64.encodeStd c)) true mime]
  | seq, c :: d :: l => .ttsResponse id seq (String.ofList (Base64.encodeStd c)) false mime :: ttsChunks id mime (seq + 1) (d :: l)

def sendTtsResponse (id : String) (audio : TtsAudio) : List ProtocolMessage :=
  match Chunks.chunks ttsChunkRawBytes audio.bytes with
  | [] => [.ttsResponse id 0 "" true audio.mime]
  | chunks => ttsChunks id audio.mime 0 chunks

/-! ## The oai tunnel -/

def chunkSize : Nat := 12 * 1024

def maxBase64Chars : Nat := 24 * 1024 * 1024

def maxBytes : Nat := maxBase64Chars / 4 * 3

def maxSeq : Nat := maxBase64Chars / chunkSize

def tunnelLimit : ProtocolMessage → Option (String × Bool)
  | .oaiResponse id seq _ data _ contentType => some (id, decide (data.utf8ByteSize ≤ chunkSize) && decide (seq ≤ maxSeq) &&
      contentType.all (fun s => decide (s.utf8ByteSize ≤ 256)))
  | .oaiError id message code => some (id, decide (message.utf8ByteSize ≤ 4096) && code.all (fun s => decide (s.utf8ByteSize ≤ 256)))
  | _ => none

def tunnelQueue : Nat := 64

/-- `chunks` -/
def tunnelChunks (bytes : List UInt8) : List (List Char) :=
  match Chunks.chunks chunkSize (Base64.encodeStd bytes) with
  | [] => [[]]
  | chunks => chunks

/-- `Assembly`, without the request's own fields; the parts are in the order of a map. -/
structure Assembly where
  parts : List (Nat × String)
  last : Option Nat
  chars : Nat
  deriving DecidableEq

namespace Assembly

def default : Assembly := ⟨[], none, 0⟩

def contains (a : Assembly) (seq : Nat) : Bool := a.parts.any fun p => p.1 == seq

def insertPart (seq : Nat) (data : String) : List (Nat × String) → List (Nat × String)
  | [] => [(seq, data)]
  | (n, d) :: l => if seq < n then (seq, data) :: (n, d) :: l else (n, d) :: insertPart seq data l

/-- `Assembly::push`; whether it is complete. -/
def push (a : Assembly) (seq : Nat) (last : Bool) (data : String) : Except String (Assembly × Bool) :=
  if maxSeq < seq ∨ chunkSize < data.utf8ByteSize ∨ data.toList.all (fun c => decide (c.toNat < 128)) = false then
    .error "request_too_large"
  else if a.contains seq then .ok (a, false)
  else if maxBase64Chars < a.chars + data.utf8ByteSize then .error "request_too_large"
  else if a.last.any (fun «end» => decide («end» < seq) || last && seq != «end») then .error "request_rejected"
  else if last && a.parts.any (fun p => decide (seq < p.1)) then .error "request_rejected"
  else
    let a : Assembly := ⟨insertPart seq data a.parts, if last then some seq else a.last, a.chars + data.utf8ByteSize⟩
    .ok (a, a.last.any (fun n => a.parts.length == n + 1))

def decode (a : Assembly) : Except String (List UInt8) :=
  okOr (Base64.decodeStd (a.parts.flatMap (fun p => p.2.toList))) "Failed to decode request body."

end Assembly

structure Progress where
  assembly : Assembly
  status : Nat
  contentType : String

/-- The turn of the loop of `request` that a message is taken in. -/
def takeTunnel (s : Progress) : ProtocolMessage → Progress ⊕ Except String TunnelResponse
  | .oaiError _ message code => .inr (.error (message ++ " (" ++ code.getD "" ++ ")"))
  | .oaiResponse _ seq last data status contentType =>
    let s := if seq = 0 ∧ s.assembly.contains 0 = false then
      { s with status := status.getD 200, contentType := contentType.getD "application/json" } else s
    match s.assembly.push seq last data with
    | .error e => .inr (.error e)
    | .ok (assembly, false) => .inl { s with assembly := assembly }
    | .ok (assembly, true) =>
      match assembly.decode with
      | .error e => .inr (.error e)
      | .ok body => .inr (.ok ⟨s.status, s.contentType, body⟩)
  | _ => .inr (.error "Unexpected OAI response")

def tunnelReader : Reader Progress ProtocolMessage (Except String TunnelResponse) where
  take := takeTunnel
  closed := .error "OAI response closed"

/-- `TunnelConsumer::request` once the request is sent -/
def request (t : Ticket) (arrivals : List Arrival) : Exchange Progress ProtocolMessage (Except String TunnelResponse) :=
  Exchange.run tunnelReader tunnelQueue (Exchange.start ⟨.default, 200, "application/json"⟩)
    (arrivals.flatMap (stepsOf one tunnelLimit (.error "OAI request timed out") t))

def oaiChunks (id : String) : Nat → List (List Char) → List ProtocolMessage
  | _, [] => []
  | seq, [c] => [.oaiResponse id seq true (String.ofList c) none none]
  | seq, c :: d :: l => .oaiResponse id seq false (String.ofList c) none none :: oaiChunks id (seq + 1) (d :: l)

/-- What `TunnelProvider` sends for a response; the status and the type are on the first chunk. -/
def sendTunnelResponse (id : String) (response : TunnelResponse) : List ProtocolMessage :=
  match tunnelChunks response.body with
  | [] => []
  | c :: rest => .oaiResponse id 0 rest.isEmpty (String.ofList c) (some response.status) (some response.contentType) ::
      oaiChunks id 1 rest

/-! ## Interleavings -/

/-- Messages a peer's transport delivers in order; before the message of number `i` the task is polled `polls i` times. -/
def weave (peer : String) (polls : Nat → Nat) : Nat → List ProtocolMessage → List Arrival
  | _, [] => []
  | i, m :: l => List.replicate (polls i) .poll ++ .deliver peer (encode m) :: weave peer polls (i + 1) l

/-- No message of so many left finds `cap` others waiting, when `n` wait before the polls of number `i`. -/
def noBurst (cap : Nat) (polls : Nat → Nat) : Nat → Nat → Nat → Bool
  | _, _, 0 => true
  | i, n, left + 1 => decide (n - polls i < cap) && noBurst cap polls (i + 1) (n - polls i + 1) left

end Mistl.Ai
