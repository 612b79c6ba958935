import Mistl.AiRelays
import Mistl.ApiFrames
import Mistl.ApiServer
/-!
# ApiHeads — what a peer can put in a response head

A speech request put to a peer completes on one of its messages, and the answer's head names the type of that message
as it is.
-/
open List

namespace Mistl.Api

open Ai (Arrival ProtocolMessage Ticket)
open Folder (trim)

variable {Ip : Type} [DecidableEq Ip] (addr : Local Ip)

/-! ## Connections -/

def corsAllowHeaders (head : RequestHead) : String :=
  match head.header "access-control-request-headers" with
  | some v =>
    if !(trim v.toList).isEmpty && decide (v.utf8ByteSize ≤ 1024) &&
        v.toList.all (fun c => c.isAlphanum || "-_, ".toList.contains c) then String.ofList (trim v.toList)
    else "authorization, content-type"
  | none => "authorization, content-type"

def writePreflight (cors : String) (head : RequestHead) : Response where
  head := "HTTP/1.1 204 No Content\r\n" ++ cors ++
    "Access-Control-Allow-Methods: GET, POST, OPTIONS\r\nAccess-Control-Allow-Headers: " ++ corsAllowHeaders head ++
    "\r\nAccess-Control-Max-Age: 600\r\n" ++
    (if (head.header "access-control-request-private-network").any (fun v => eqIgnoreAsciiCase (trim v.toList) "true".toList)
      then "Access-Control-Allow-Private-Network: true\r\n" else "") ++ "Content-Length: 0\r\nConnection: close\r\n\r\n"
  body := .bytes []

/-- `handle_connection`, from a request's head on -/
def handleConnection (C : Crates) (S : Server) (V : Visit) (allowed : List String) (head : RequestHead)
    (input : List UInt8) : List Event :=
  match checkRequestGuards addr head allowed with
  | .error refusal => [.respond (writeRefusal "" refusal)]
  | .ok granted =>
    if corsHeaders granted ≠ "" ∧ head.isMethod "OPTIONS" then [.respond (writePreflight (corsHeaders granted) head)]
    else routeRequest C S { V with cors := corsHeaders granted } head input

/-! ## Speech from peers -/

structure HeaderText where
  text : String
  plain : breaksLine text = false

/-- What a speech request comes to: no backend takes it, the upstream of this node answers it, or a peer is asked and these
messages and polls follow. -/
inductive Speech where
  | failed (e : Failure)
  | upstream (bytes : List UInt8) (mime : HeaderText)
  | asked (t : Ticket) (arrivals : List Arrival)

section Peers
variable (one : List Char → Bool)

def speechSteps (t : Ticket) (arrivals : List Arrival) : List (Exchange.Step ProtocolMessage (Except String TtsAudio)) :=
  (arrivals ++ [Arrival.timeout]).flatMap (Ai.stepsOf one Ai.voiceLimit (.error "ai: voice request timed out") t)

def Speech.answer : Speech → Except Failure TtsAudio
  | .failed e => .error e
  | .upstream bytes mime => .ok ⟨bytes, mime.text⟩
  | .asked t arrivals =>
    match (Ai.synthesize one t (arrivals ++ [.timeout])).task with
    | .inr (.ok audio) => .ok audio
    | _ => .error .other

def CompletesOn (t : Ticket) (arrivals : List Arrival) (m : ProtocolMessage) : Prop :=
  ∃ audio, Exchange.EndsOn Ai.speechReader Ai.voiceQueue (Exchange.start (0, [])) (speechSteps one t arrivals) m (.ok audio)

def mimeOf : ProtocolMessage → String
  | .ttsResponse _ _ _ _ mime => mime
  | _ => ""

theorem takeSpeech_ok {s : Nat × List UInt8} {m : ProtocolMessage} {audio : TtsAudio}
    (h : Ai.takeSpeech s m = .inr (.ok audio)) : audio.mime = mimeOf m := by
  unfold Ai.takeSpeech at h
  split at h
  · cases h
  · split at h
    · cases h
    · split at h
      · cases h
      · split at h
        · cases h
        · split at h
          · cases h
          · split at h
            · cases h
              rfl
            · cases h
  · cases h

/-- **A speech request is answered with audio exactly when it completes on a message, which names the audio's type.** -/
theorem asked_answer {t : Ticket} {arrivals : List Arrival} {audio : TtsAudio} :
    (Speech.asked t arrivals).answer one = .ok audio ↔ ∃ m, mimeOf m = audio.mime ∧
      Exchange.EndsOn Ai.speechReader Ai.voiceQueue (Exchange.start (0, [])) (speechSteps one t arrivals) m (.ok audio) := by
  have hanswer : (Speech.asked t arrivals).answer one = .ok audio ↔
      (Exchange.run Ai.speechReader Ai.voiceQueue (Exchange.start (0, [])) (speechSteps one t arrivals)).task = .inr (.ok audio) := by
    unfold Speech.answer
    simp only
    split
    · rename_i audio' h
      rw [show Exchange.run _ _ _ (speechSteps one t arrivals) = Ai.synthesize one t (arrivals ++ [.timeout]) from rfl, h,
        Except.ok.injEq, Sum.inr.injEq, Except.ok.injEq]
    · rename_i h
      exact ⟨fun h' => (by cases h'), fun h' => absurd h' (h audio)⟩
  rw [hanswer]
  constructor
  · intro h
    rcases Exchange.run_endsOn _ _ (s := (0, [])) rfl h with h | h | ⟨m, hm⟩
    · cases h
    · obtain ⟨a, -, ha⟩ := mem_flatMap.1 h
      cases a with
      | deliver sender bytes =>
        have ha : Exchange.Step.expire (Except.ok audio) ∈
            (Ai.decode one bytes).elim [] (Ai.handleMessage Ai.voiceLimit t sender) := ha
        cases hd : Ai.decode one bytes with
        | none => rw [hd] at ha; cases ha
        | some msg =>
          rw [hd, Option.elim_some, Ai.handleMessage] at ha
          split at ha
          · cases ha
          · split_ifs at ha
            · cases mem_singleton.1 ha
            · cases ha
      | peerLeft peer =>
        have ha : Exchange.Step.expire (Except.ok audio) ∈ (if peer = t.peer then [.close] else []) := ha
        split_ifs at ha
        · cases mem_singleton.1 ha
        · cases ha
      | rejectAll | poll | timeout => cases mem_singleton.1 ha
    · obtain ⟨-, -, s, -, -, -, -, ht⟩ := id hm
      exact ⟨m, (takeSpeech_ok ht).symm, hm⟩
  · rintro ⟨m, -, h⟩
    exact h.task

end Peers

/-! ## Answers to invocations -/

/-- A JSON answer, a stream of events or a tunnel's response. -/
inductive Plain (cors : String) : Response → Prop where
  | json (status : Nat) {reason : String} (h : breaks reason = 0) (body : Json) : Plain cors (writeJsonResponse cors status reason body)
  | events (l : List SseEvent) : Plain cors ⟨sseResponseHeader cors, .events l⟩
  | tunnel (response : TunnelResponse) : Plain cors (writeTunnelResponse cors response)

theorem Plain.failure (cors : String) : ∀ e : Failure, Plain cors (writeBackendFailure cors e)
  | .modelNotFound _ => .json 404 rfl _
  | .toolsUnsupported => .json 400 rfl _
  | .other => .json 502 rfl _

variable {response : Response}

theorem Plain.framed {granted : Option String} (hgranted : ∀ origin, granted = some origin → breaks origin = 0)
    (h : Plain (corsHeaders granted) response) :
    Framed response.head (headerNames granted response.body) := by
  cases h with
  | json status hreason body => exact writeJsonResponse_framed hgranted status hreason body
  | events l => exact sseResponseHeader_framed hgranted l
  | tunnel response => exact writeTunnelResponse_framed hgranted response

def writeSpeech (cors : String) : Except Failure TtsAudio → Response
  | .ok audio => writeAudio cors audio
  | .error e => writeBackendFailure cors e

def Replies (cors : String) (tts : TtsParams → Option String → Except Failure TtsAudio) : Use → Response → Prop
  | .speech params lang, response => response = writeSpeech cors (tts params lang)
  | _, response => Plain cors response

def Event.invokes : Event → Bool
  | .invoke _ _ => true
  | _ => false

/-- A trace with no invocation, or with one, which is answered at once. -/
inductive Asks (cors : String) (tts : Option String → TtsParams → Option String → Except Failure TtsAudio) : List Event → Prop where
  | silent {trace : List Event} (h : ∀ e ∈ trace, e.invokes = false) : Asks cors tts trace
  | asked {pre post : List Event} {room : Option String} {use : Use} {response : Response}
    (hpre : ∀ e ∈ pre, e.invokes = false) (hpost : ∀ e ∈ post, e.invokes = false)
    (h : Replies cors (tts room) use response) : Asks cors tts (pre ++ .invoke room use :: .respond response :: post)

section Handlers
variable {C : Crates} {S : Server} {V : Visit} {cors : String}
variable {tts : Option String → TtsParams → Option String → Except Failure TtsAudio}

theorem Asks.respond (response : Response) : Asks cors tts [.respond response] := .silent fun e he => by rw [mem_singleton.1 he]; rfl

variable {room : Option String}

theorem Asks.invoke {use : Use} (h : Replies cors (tts room) use response) : Asks cors tts [.invoke room use, .respond response] :=
  @Asks.asked cors tts [] [] room use response (fun _ h => (not_mem_nil h).elim) (fun _ h => (not_mem_nil h).elim) h

theorem Asks.around {pre trace post : List Event} (h : Asks cors tts trace) (hpre : ∀ e ∈ pre, e.invokes = false)
    (hpost : ∀ e ∈ post, e.invokes = false) : Asks cors tts (pre ++ (trace ++ post)) := by
  cases h with
  | silent htrace =>
    refine .silent (fun e he => ?_)
    rcases mem_append.1 he with he | he
    · exact hpre e he
    · exact (mem_append.1 he).elim (htrace e) (hpost e)
  | @asked pre' post' room use response hpre' hpost' hreply =>
    rw [append_assoc, ← append_assoc]
    refine .asked (fun e he => ?_) (fun e he => ?_) hreply
    · exact (mem_append.1 he).elim (hpre e) (hpre' e)
    · exact (mem_append.1 he).elim (hpost' e) (hpost e)

theorem authorized_asks {authorization model : Option String} {next : List Event × ApiUsage}
    (h : Asks cors tts next.1) : Asks cors tts (authorized C V authorization model next) := by
  unfold authorized
  split
  · refine .silent (fun e he => ?_)
    rcases mem_cons.1 he with rfl | he
    · rfl
    · rw [mem_singleton.1 he]
      rfl
  · refine @Asks.around _ _ [_] _ _ h (fun e he => by rw [mem_singleton.1 he]; rfl) (fun e he => ?_)
    unfold ApiUsage.drop at he
    split at he
    · rw [mem_singleton.1 he]
      rfl
    · cases he

theorem answer_plain (req : ParsedChat) (deltas : List String) (result : Except Failure ChatOutput) :
    ∃ response, (answer V req deltas result).1 = [.respond response] ∧ Plain V.cors response := by
  unfold answer
  split
  · split
    · exact ⟨_, rfl, .json 200 rfl _⟩
    · exact ⟨_, rfl, .failure _ _⟩
  · split
    · exact ⟨_, rfl, .events _⟩
    · split
      · exact ⟨_, rfl, .events _⟩
      · split
        · exact ⟨_, rfl, .failure _ _⟩
        · exact ⟨_, rfl, .events _⟩

theorem relayVision_plain (req : ParsedChat) (response : TunnelResponse) :
    ∃ r, (relayVision V req response).1 = [.respond r] ∧ Plain V.cors r := by
  unfold relayVision
  split
  · exact ⟨_, rfl, .tunnel _⟩
  · split
    · exact ⟨_, rfl, .json 502 rfl _⟩
    · exact answer_plain _ _ _

theorem complete_asks (room : Option String) (b : Backends) (oai : Option (Json → Except Failure TunnelResponse))
    (req : ParsedChat) (vision : Option Json) : Asks V.cors tts (complete V room b oai req vision).1 := by
  unfold complete
  split
  · obtain ⟨response, h, hplain⟩ := answer_plain (V := V) req (b.call req.messages req.tools req.model req.stream).1
      (b.call req.messages req.tools req.model req.stream).2
    simp only [h]
    exact .invoke hplain
  · split
    · exact .respond _
    · rename_i raw _ oai'
      cases oai' (visionBody raw) with
      | error e => exact .invoke (.failure _ e)
      | ok response =>
        obtain ⟨r, h, hplain⟩ := relayVision_plain (V := V) req response
        simp only [h]
        exact .invoke hplain

theorem dispatch_asks {b : Backends} (hb : b.tts = tts room)
    (oai : Option (Json → Except Failure TunnelResponse)) (decision : Option (List UInt8 → Except Failure TunnelResponse))
    (head : RequestHead) (path : List Char) (input : List UInt8) :
    Asks V.cors tts (dispatch C S V room b oai decision head path input) := by
  unfold dispatch
  split
  · exact .respond _
  · rename_i body _
    split_ifs
    · refine .silent (fun e he => ?_)
      rcases mem_cons.1 he with rfl | he
      · rfl
      · rw [mem_singleton.1 he]
        rfl
    · unfold handleChatCompletions
      split
      · exact .respond _
      · split
        · exact .respond _
        · exact authorized_asks (complete_asks room b oai _ _)
    · unfold handleAudioSpeech
      split
      · exact .respond _
      · rename_i params lang _
        refine authorized_asks (.invoke ?_)
        rw [← hb]
        show (match b.tts params lang with
          | .ok audio => writeAudio V.cors audio
          | .error e => writeBackendFailure V.cors e) = writeSpeech V.cors (b.tts params lang)
        cases b.tts params lang <;> rfl
    · unfold handleAudioTranscriptions
      split
      · exact .respond _
      · rename_i params _
        refine authorized_asks (.invoke ?_)
        cases b.stt params with
        | ok text => exact .json 200 rfl _
        | error e => exact .failure _ e
    · unfold handleDecision
      split
      · exact .respond _
      · rename_i decision'
        split
        · exact .respond _
        · refine .invoke ?_
          cases decision' body with
          | ok response => exact .tunnel response
          | error e => exact .failure _ e
    · exact .respond _

end Handlers

/-! ## The heads a connection writes -/

/-- A server, and what the speech requests of its routes come to. -/
structure Mesh where
  server : Server
  speech : Option String → TtsParams → Option String → Speech

def grantedOrigin (head : RequestHead) (allowed : List String) : Option String :=
  match checkRequestGuards addr head allowed with
  | .ok granted => granted
  | .error _ => none

section Connections
variable (one : List Char → Bool) (C : Crates) (V : Visit)

def Mesh.tts (M : Mesh) (room : Option String) (params : TtsParams) (lang : Option String) : Except Failure TtsAudio :=
  (M.speech room params lang).answer one

def Mesh.serve (M : Mesh) : Server := { M.server with
    backends := { M.server.backends with tts := M.tts one none }
    rooms := M.server.rooms.map (fun rooms room => (rooms room).map (Option.map (fun routes =>
      { routes with tts := M.tts one (some room) }))) }

theorem routeRequest_asks (M : Mesh) (head : RequestHead) (input : List UInt8) :
    Asks V.cors (M.tts one) (routeRequest C (M.serve one) V head input) := by
  unfold routeRequest
  split_ifs
  · split
    · exact .respond _
    · split
      · exact .respond _
      · rename_i room _ _ _ rooms hrooms
        obtain ⟨rooms', -, hrooms⟩ := Option.map_eq_some_iff.1 hrooms
        subst hrooms
        split
        · exact .respond _
        · exact .respond _
        · rename_i routes hroutes
          refine dispatch_asks ?_ _ _ _ _ _
          simp only at hroutes
          cases hlookup : rooms' room with
          | error e => rw [hlookup] at hroutes; cases hroutes
          | ok found =>
            rw [hlookup] at hroutes
            obtain ⟨routes', -, rfl⟩ := Option.map_eq_some_iff.1 (Except.ok.inj hroutes)
            rfl
  · exact dispatch_asks rfl _ _ _ _ _

theorem handleConnection_asks (M : Mesh) (allowed : List String) (head : RequestHead) (input : List UInt8) :
    Asks (corsHeaders (grantedOrigin addr head allowed)) (M.tts one)
      (handleConnection addr C (M.serve one) V allowed head input) := by
  unfold handleConnection grantedOrigin
  cases checkRequestGuards addr head allowed with
  | error refusal => exact .respond _
  | ok granted =>
    simp only
    split_ifs
    · exact .respond _
    · exact routeRequest_asks one C { V with cors := corsHeaders granted } M head input

theorem grantedOrigin_plain (head : RequestHead) (allowed : List String) :
    ∀ origin, grantedOrigin addr head allowed = some origin → breaks origin = 0 := by
  unfold grantedOrigin
  split
  · rename_i h
    exact checkRequestGuards_plain addr h
  · exact nofun

theorem infix_asked {pre post : List Event} {room room' : Option String} {use use' : Use} {response response' : Response}
    (hpre : ∀ e ∈ pre, e.invokes = false) (hpost : ∀ e ∈ post, e.invokes = false)
    (h : [.invoke room' use', .respond response'] <:+: pre ++ .invoke room use :: .respond response :: post) :
    room' = room ∧ use' = use ∧ response' = response := by
  induction pre with
  | nil =>
    rcases infix_cons_iff.1 h with h | h
    · rw [cons_prefix_cons, cons_prefix_cons] at h
      obtain ⟨hinvoke, hrespond, -⟩ := h
      cases hinvoke
      cases hrespond
      exact ⟨rfl, rfl, rfl⟩
    · rcases mem_cons.1 (h.subset mem_cons_self) with h | h
      · cases h
      · cases hpost _ h
  | cons e pre ih =>
    rcases infix_cons_iff.1 h with h | h
    · rw [cons_prefix_cons] at h
      obtain ⟨rfl, -⟩ := h
      cases hpre _ mem_cons_self
    · exact ih (fun e he => hpre e (mem_cons_of_mem _ he)) h

/-- **The heads of a connection's answers are framed exactly when every speech request it puts to a peer completes on a
message whose type has no line break**: every other answer is framed whatever the peers send. -/
theorem heads_framed_iff (M : Mesh) (allowed : List String) (head : RequestHead) (input : List UInt8) :
    (∀ room use response, [.invoke room use, .respond response] <:+:
        handleConnection addr C (M.serve one) V allowed head input →
      Framed response.head (headerNames (grantedOrigin addr head allowed) response.body)) ↔
    ∀ room params lang t arrivals m, .invoke room (.speech params lang) ∈ handleConnection addr C (M.serve one) V allowed head input →
      M.speech room params lang = .asked t arrivals → CompletesOn one t arrivals m → breaksLine (mimeOf m) = false := by
  have hgranted := grantedOrigin_plain addr head allowed
  have hasks := handleConnection_asks addr one C V M allowed head input
  generalize handleConnection addr C (M.serve one) V allowed head input = trace at hasks
  cases hasks with
  | silent hsilent =>
    constructor
    · intro _ room params lang t arrivals m h
      cases hsilent _ h
    · intro _ room use response h
      cases hsilent _ (h.subset mem_cons_self)
  | @asked pre post room use response hpre hpost hreply =>
    constructor
    · rintro hframed room' params lang t arrivals m hinvoke hasked ⟨audio, hends⟩
      have hmime : mimeOf m = audio.mime := by
        obtain ⟨-, -, s, -, -, -, -, ht⟩ := id hends
        exact (takeSpeech_ok ht).symm
      have hsame : room' = room ∧ .speech params lang = use := by
        rcases mem_append.1 hinvoke with h | h
        · cases hpre _ h
        · rcases mem_cons.1 h with h | h
          · cases h
            exact ⟨rfl, rfl⟩
          · rcases mem_cons.1 h with h | h
            · cases h
            · cases hpost _ h
      obtain ⟨rfl, rfl⟩ := hsame
      have htts : M.tts one room' params lang = .ok audio := by
        unfold Mesh.tts
        rw [hasked]
        exact (asked_answer one).2 ⟨m, hmime, hends⟩
      have hresponse : response = writeAudio (corsHeaders (grantedOrigin addr head allowed)) audio := by
        rw [show response = writeSpeech _ _ from hreply, htts]
        rfl
      rw [hmime, ← writeAudio_framed hgranted]
      have h := hframed room' (.speech params lang) response ⟨pre, post, by rw [append_assoc]; rfl⟩
      rwa [hresponse] at h
    · intro hplain room' use' response' h
      obtain ⟨rfl, rfl, rfl⟩ := infix_asked hpre hpost h
      cases use' with
      | speech params lang =>
        rw [show response' = writeSpeech _ _ from hreply]
        cases hspeech : M.speech room' params lang with
        | failed e =>
          rw [show M.tts one room' params lang = .error e by unfold Mesh.tts; rw [hspeech]; rfl]
          exact writeBackendFailure_framed hgranted e
        | upstream bytes mime =>
          rw [show M.tts one room' params lang = .ok ⟨bytes, mime.text⟩ by unfold Mesh.tts; rw [hspeech]; rfl]
          exact (writeAudio_framed hgranted _).2 mime.plain
        | asked t arrivals =>
          cases htts : M.tts one room' params lang with
          | error e => exact writeBackendFailure_framed hgranted e
          | ok audio =>
            unfold Mesh.tts at htts
            rw [hspeech] at htts
            obtain ⟨m, hmime, hends⟩ := (asked_answer one).1 htts
            have hm := hplain room' params lang t arrivals m (mem_append_right _ mem_cons_self) hspeech ⟨audio, hends⟩
            rw [hmime] at hm
            exact (writeAudio_framed hgranted audio).2 hm
      | chat messages tools model stream => exact Plain.framed hgranted hreply
      | transcription params => exact Plain.framed hgranted hreply
      | oai raw => exact Plain.framed hgranted hreply
      | decision body => exact Plain.framed hgranted hreply

end Connections

/-! ## A header line from a peer -/

/-- A server whose speech requests go to a peer that answers with one chunk of a type of two lines. -/
def injectingMesh : Mesh where
  server :=
    { reading := ⟨fun _ => "", fun _ => true⟩
      backends := ⟨fun _ _ _ _ => ([], .error .other), [], fun _ _ => .error .other, fun _ => .error .other⟩
      rooms := none }
  speech := fun _ _ _ => .asked ⟨"1", "p"⟩
    [.deliver "p" (Ai.encode (.ttsResponse "1" 0 "" true "audio/mpeg\r\nX-Injected: 1")), .poll]

def openVisit : Visit where
  store := ⟨⟨⟨.default, .default⟩, .default, false, .default, none⟩, [], false, false⟩
  now := 1000
  cors := ""
  id := "chatcmpl-1"
  created := 1000
  held := 0
  elsewhere := id
  later := 1001

def speechHead : RequestHead where
  method := "POST"
  path := "/v1/audio/speech"
  headers := [("host", "localhost"), ("content-type", "application/json"), ("content-length", "13")]

def speechBody : List UInt8 := Json.toVec (.obj [("input", .str "a")])

/-- The speech asked for, in an answer of one header line too many -/
def spoken : List Event → Bool
  | .authorize _ _ _ :: .invoke _ _ :: .respond response :: _ => breaks response.head == 12 && match response.body with
      | .bytes _ => true
      | _ => false
  | _ => false

/-- The peer's type adds a header line to the answer. -/
theorem peer_adds_header : ¬ ∀ room use response, [.invoke room use, .respond response] <:+:
    handleConnection (⟨0, 6478, fun _ => none⟩ : Local Nat) (sampleCrates []) (injectingMesh.serve (fun _ => false)) openVisit
      [] speechHead speechBody →
    Framed response.head (headerNames (grantedOrigin (⟨0, 6478, fun _ => none⟩ : Local Nat) speechHead []) response.body) := by
  have hshape : spoken (handleConnection (⟨0, 6478, fun _ => none⟩ : Local Nat) (sampleCrates [])
      (injectingMesh.serve (fun _ => false)) openVisit [] speechHead speechBody) = true := by decide +kernel
  have hgranted : grantedOrigin (⟨0, 6478, fun _ => none⟩ : Local Nat) speechHead [] = none := by decide +kernel
  intro h
  unfold spoken at hshape
  split at hshape
  · rename_i room use response rest htrace
    rw [Bool.and_eq_true, beq_iff_eq] at hshape
    obtain ⟨hbreaks, hbody⟩ := hshape
    have hframed := (h room use response (by rw [htrace]; exact ⟨[_], rest, rfl⟩)).breaks
    rw [hbreaks] at hframed
    split at hbody
    · rename_i bytes hbytes
      rw [hbytes] at hframed
      exact absurd (show 12 = 10 from hframed) (by decide)
    · cases hbody
  · cases hshape

end Mistl.Api
