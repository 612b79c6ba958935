import Mistl.AiRelays
import Mistl.ApiChat
/-!
# AiSpeech — speech uploads in chunks

`transcribe` splits an audio into `stt_request` chunks; the room handles each message in a task of its own, which
takes the lock of the provider's buffers when it runs.  A buffer takes its chunks in order only and is dropped at the
first other one.
-/
namespace Mistl.Ai

open Api (SttParams)
open Authz (Denied)

/-! ## The consumer -/

/-- The bound on the audio in `transcribe`. -/
def maxSttAudio : Nat := 25 * 1024 * 1024

def chunkBytes : Nat := 9 * 1024

def sttPieces (audio : List UInt8) : List (List UInt8) :=
  match Chunks.chunks chunkBytes audio with
  | [] => [[]]
  | pieces => pieces

def sttModel (req : SttParams) : Option String := if !req.model.isEmpty && req.model != "network-auto" then some req.model else none

/-- The messages of the chunks from the number `seq` on. -/
def sttRequests (id : String) (req : SttParams) : Nat → List (List UInt8) → List ProtocolMessage
  | _, [] => []
  | seq, piece :: pieces =>
    .sttRequest id seq (String.ofList (Base64.encodeStd piece)) pieces.isEmpty req.mime (sttModel req) req.fileName ::
      sttRequests id req (seq + 1) pieces

/-- What `VoiceConsumer::transcribe` sends. -/
def transcribe (id : String) (req : SttParams) : Except String (List ProtocolMessage) :=
  if maxSttAudio < req.audio.length then .error "ai: STT audio too large"
  else .ok (sttRequests id req 0 (sttPieces req.audio))

/-! ## The provider's buffers -/

def sttMaxBufferedBytes : Nat := 25 * 1024 * 1024

def sttMaxTotalBytes : Nat := 64 * 1024 * 1024

def sttMaxBuffersPerPeer : Nat := 4

def sttMaxBuffersTotal : Nat := 32

def sttBufferTtl : Nat := 60 * 10 ^ 9

structure SttBuffer where
  authorized : Bool
  mime : String
  model : Option String
  fileName : Option String
  bytes : List UInt8
  nextSeq : Nat
  lastUpdate : Nat

def SttBuffer.add (buf : SttBuffer) (seq : Nat) (chunk : List UInt8) (now : Nat) : SttBuffer :=
  { buf with bytes := buf.bytes ++ chunk, nextSeq := min (seq + 1) (2 ^ 64 - 1), lastUpdate := now }

inductive SttReject where
  | streamTooLarge
  | busy
  | outOfOrder

inductive SttPush where
  | waiting
  | ready (buffer : SttBuffer)
  | rejected (reason : SttReject)

structure SttBuffers where
  map : Table (String × String) SttBuffer
  totalBytes : Nat

namespace SttBuffers

def remove (b : SttBuffers) (key : String × String) : SttBuffers :=
  match b.map.get key with
  | none => b
  | some buf => ⟨b.map.erase key, b.totalBytes - buf.bytes.length⟩

def expired (now : Nat) (buf : SttBuffer) : Bool := decide (sttBufferTtl < now - buf.lastUpdate)

def sweep (b : SttBuffers) (now : Nat) : SttBuffers where
  map := b.map.filter (fun _ buf => !expired now buf)
  totalBytes := b.totalBytes - (b.map.filter (fun _ buf => expired now buf)).total fun _ buf => buf.bytes.length

def existingLen (b : SttBuffers) (key : String × String) (seq : Nat) : Except SttReject Nat :=
  match b.map.get key with
  | some buf => if buf.nextSeq ≠ seq then .error .outOfOrder else .ok buf.bytes.length
  | none =>
    if seq ≠ 0 then .error .outOfOrder
    else if sttMaxBuffersTotal ≤ b.map.size ∨ sttMaxBuffersPerPeer ≤ (b.map.filter (fun k _ => k.1 == key.1)).size then .error .busy
    else .ok 0

/-- `SttBuffers::push`; a chunk that is refused takes its buffer with it. -/
def push (b : SttBuffers) (now : Nat) (key : String × String) (seq : Nat) (chunk : List UInt8) (last : Bool)
    (mime : String) (model fileName : Option String) : SttBuffers × SttPush :=
  let b := b.sweep now
  match b.existingLen key seq with
  | .error reason => (b.remove key, .rejected reason)
  | .ok existing =>
    if sttMaxBufferedBytes < existing + chunk.length then (b.remove key, .rejected .streamTooLarge)
    else if sttMaxTotalBytes < b.totalBytes + chunk.length then (b.remove key, .rejected .busy)
    else
      let buf := ((b.map.get key).getD ⟨false, mime, model, fileName, [], 0, now⟩).add seq chunk now
      let b : SttBuffers := ⟨b.map.insert key buf, b.totalBytes + chunk.length⟩
      if last then (b.remove key, .ready buf) else (b, .waiting)

def authorize (b : SttBuffers) (key : String × String) : SttBuffers :=
  match b.map.get key with
  | none => b
  | some buf => { b with map := b.map.insert key { buf with authorized := true } }

end SttBuffers

/-! ## The room's tasks -/

structure SttCall where
  audio : List UInt8
  mime : String
  model : Option String
  fileName : Option String

/-- A task the room has spawned for a message that came, numbered by the messages that came before. -/
structure Task where
  number : Nat
  sender : String
  msg : ProtocolMessage

def maxInflightHandlers : Nat := 64

def maxJobsPerPeer : Nat := 2

def maxConcurrentRemoteJobs : Nat := 8

/-- A room and its provider: the messages that came, the tasks that wait for their turn and those that had it and still hold
a permit, the messages dropped for want of one, the buffers, the jobs of the limiter, the calls of the STT function and
the errors sent. -/
structure VoiceRoom where
  arrived : Nat
  waiting : List Task
  running : List Nat
  dropped : Nat
  buffers : SttBuffers
  jobs : List (Nat × String)
  calls : List ((String × String) × SttCall)
  sent : List (String × ProtocolMessage)

/-- A turn of a task: the times its handler and its push read, and the error when its peer is not granted. -/
structure Turn where
  number : Nat
  now : Nat
  pushed : Nat
  denied : Option Denied

inductive Act where
  | deliver (sender : String) (bytes : List UInt8)
  | turn (t : Turn)
  | finish (number : Nat)

section Room
variable (one : List Char → Bool) (decodeError : String → String)

def busyMessage : String := "The provider is busy; try again later."

def rejectMessage : SttReject → String
  | .streamTooLarge => "ai: stt audio exceeded the maximum buffered size"
  | .busy => busyMessage
  | .outOfOrder => "ai: stt_request chunk out of order"

namespace VoiceRoom

def start : VoiceRoom := ⟨0, [], [], 0, ⟨∅, 0⟩, [], [], []⟩

/-- `handle_room_event` of a raw message; a task is spawned while there are permits. -/
def handleRoomEvent (s : VoiceRoom) (sender : String) (bytes : List UInt8) : VoiceRoom :=
  let arrived := s.arrived + 1
  if 2 * 1024 * 1024 < bytes.length then { s with arrived := arrived }
  else match decode one bytes with
    | none => { s with arrived := arrived }
    | some msg =>
      if s.waiting.length + s.running.length < maxInflightHandlers then
        { s with arrived := arrived, waiting := s.waiting ++ [⟨s.arrived, sender, msg⟩] }
      else { s with arrived := arrived, dropped := s.dropped + 1 }

/-- `JobLimiter::try_acquire` -/
def hasJob (s : VoiceRoom) (peer : String) : Bool :=
  decide ((s.jobs.filter (fun j => j.2 == peer)).length < maxJobsPerPeer) && decide (s.jobs.length < maxConcurrentRemoteJobs)

def refuse (s : VoiceRoom) (peer id message : String) (code : Option String) : VoiceRoom :=
  { s with sent := s.sent ++ [(peer, .voiceError id message code)] }

/-- `handle_stt_request` up to the call of the STT function -/
def handleSttRequest (s : VoiceRoom) (t : Turn) (sender id : String) (seq : Nat) (data : String) (last : Bool)
    (mime : String) (model fileName : Option String) : VoiceRoom :=
  let s := { s with buffers := s.buffers.sweep t.now }
  match t.denied.filter (fun _ => !(s.buffers.map.get (sender, id)).any SttBuffer.authorized) with
  | some denied => s.refuse sender id denied.message (some denied.code)
  | none =>
    match Base64.decodeStd data.toList with
    | none => { s with buffers := s.buffers.remove (sender, id) }.refuse sender id
        ("ai: invalid stt_request chunk encoding: " ++ decodeError data) none
    | some chunk =>
      match s.buffers.push t.pushed (sender, id) seq chunk last mime model fileName with
      | (buffers, .waiting) => { s with buffers := buffers.authorize (sender, id) }
      | (buffers, .rejected reason) => { s with buffers := buffers }.refuse sender id (rejectMessage reason) none
      | (buffers, .ready buf) =>
        let s := { s with buffers := buffers }
        if s.hasJob sender then
          { s with
            jobs := (t.number, sender) :: s.jobs
            calls := s.calls ++ [((sender, id), ⟨buf.bytes, buf.mime, buf.model, buf.fileName⟩)] }
        else s.refuse sender id busyMessage none

/-- `handle_message_in_room` of a task that has its turn; other messages leave the buffers alone. -/
def handleMessage (s : VoiceRoom) (t : Turn) (task : Task) : VoiceRoom :=
  match task.msg with
  | .sttRequest id seq data last mime model fileName =>
    s.handleSttRequest decodeError t task.sender id seq data last mime model fileName
  | _ => s

/-- One step; `none` where there is no such task. -/
def step (s : VoiceRoom) : Act → Option VoiceRoom
  | .deliver sender bytes => some (s.handleRoomEvent one sender bytes)
  | .turn t => (s.waiting.find? (fun task => task.number == t.number)).map (fun task =>
      { s with
        waiting := s.waiting.filter (fun task => task.number != t.number)
        running := t.number :: s.running }.handleMessage decodeError t task)
  | .finish number =>
    if number ∈ s.running then
      some { s with
        running := s.running.filter (· != number)
        jobs := s.jobs.filter (fun j => j.1 != number) }
    else none

def run : VoiceRoom → List Act → Option VoiceRoom
  | s, [] => some s
  | s, act :: acts => (s.step one decodeError act).bind fun s => s.run acts

end VoiceRoom
end Room

end Mistl.Ai
