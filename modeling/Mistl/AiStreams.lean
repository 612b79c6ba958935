import Mistl.AiRelays
import Mistl.ApiServer
/-!
# AiStreams — a chat answer in numbered chunks

`handle_llm_request` sends the deltas of an answer numbered from 0 and then the whole text; `request_tools` puts the chunks
in order, forwards them as they come in order, and ends at the first `llm_response_done`.
-/
open List Mistl.Table Option

namespace Mistl.Ai

open Api (ChatOutput)

/-! ## The provider -/

/-- The messages of `record_chunk`, from the number `seq` on. -/
def recordChunks (id : String) : Nat → List String → List ProtocolMessage
  | _, [] => []
  | seq, delta :: deltas => .llmResponseChunk id delta (some seq) :: recordChunks id (seq + 1) deltas

/-- What `handle_llm_request` sends for a call that streams `deltas` and returns `output`. -/
def serveLlm (id : String) (deltas : List String) (output : ChatOutput) : List ProtocolMessage :=
  recordChunks id 0 deltas ++ [.llmResponseDone id (some output.content) output.toolCalls]

/-! ## The consumer -/

inductive Event where
  | chunk (delta : String) (seq : Option Nat)
  | done (content : Option String) (toolCalls : Option Json)
  | error (message : String) (code : Option String)
  | rejected (reason : String)

def eventFor : ProtocolMessage → Option (String × Event)
  | .llmResponseChunk id delta seq => some (id, .chunk delta seq)
  | .llmResponseDone id content toolCalls => some (id, .done content toolCalls)
  | .llmError id message code => some (id, .error message code)
  | _ => none

/-- `send_event` for one request: an event of another id, or from another peer, is dropped. -/
def sendEvent (t : Ticket) (sender : String) (msg : ProtocolMessage) : Option Event :=
  (eventFor msg).bind fun p => if p.1 = t.id ∧ sender = t.peer then some p.2 else none

def eventsOf (t : Ticket) (arrivals : List (String × ProtocolMessage)) : List Event := arrivals.filterMap fun a => sendEvent t a.1 a.2

def maxResponseBytes : Nat := 8 * 1024 * 1024

def maxBufferedChunks : Nat := 1024

def maxSeqGap : Nat := 1024

def maxToolCalls : Nat := 128

/-- The variables of the loop of `request_tools`, and what it has sent to `delta_tx`. -/
structure Receiving where
  content : String
  nextSeq : Nat
  buffered : Table Nat String
  sent : List String
  deriving DecidableEq

/-- What was sent to `delta_tx`, and the result. -/
abbrev Outcome := List String × Except String ChatOutput

namespace Receiving

def start : Receiving := ⟨"", 0, ∅, []⟩

def fail (s : Receiving) (message : String) : Receiving ⊕ Outcome := .inr (s.sent, .error message)

def apply (s : Receiving) (delta : String) : Receiving := { s with content := s.content ++ delta, sent := s.sent ++ [delta] }

/-- The inner loop, which applies the chunks that are in order now; each turn takes one out of the buffer. -/
def drain : Nat → Receiving → Receiving ⊕ Outcome
  | 0, s => .inl s
  | turns + 1, s =>
    match s.buffered.get s.nextSeq with
    | none => .inl s
    | some next =>
      if maxResponseBytes < s.content.utf8ByteSize + next.utf8ByteSize then
        s.fail "provider response exceeded the maximum size"
      else drain turns { s.apply next with buffered := s.buffered.erase s.nextSeq, nextSeq := s.nextSeq + 1 }

/-- One turn of the loop of `request_tools`. -/
def take (s : Receiving) : Event → Receiving ⊕ Outcome
  | .chunk delta none =>
    if maxResponseBytes < s.content.utf8ByteSize + delta.utf8ByteSize then
      s.fail "provider response exceeded the maximum size"
    else .inl (s.apply delta)
  | .chunk delta (some seq) =>
    if seq < s.nextSeq then .inl s
    else if s.nextSeq < seq then
      if maxSeqGap < seq - s.nextSeq ∨ maxBufferedChunks ≤ s.buffered.size ∧ s.buffered.contains seq = false then
        s.fail "provider sent too many out-of-order chunks"
      else
        let buffered := s.buffered.insert seq delta
        if maxResponseBytes < s.content.utf8ByteSize + buffered.total (fun _ d => d.utf8ByteSize) then
          s.fail "provider response exceeded the maximum size"
        else .inl { s with buffered := buffered }
    else if maxResponseBytes < s.content.utf8ByteSize + delta.utf8ByteSize then
      s.fail "provider response exceeded the maximum size"
    else drain s.buffered.size { s.apply delta with nextSeq := s.nextSeq + 1 }
  | .done content toolCalls =>
    if toolCalls.any (fun calls => calls.asArr.all (fun a => decide (maxToolCalls < a.length)) ||
        decide (maxResponseBytes < (Json.toVec calls).length)) then
      s.fail "provider response exceeded the maximum size"
    else
      let toolCalls := toolCalls.filter (fun calls => calls.asArr.any (fun a => !a.isEmpty))
      match content with
      | some content =>
        if maxResponseBytes < content.utf8ByteSize then s.fail "provider response exceeded the maximum size"
        else .inr (s.sent, .ok ⟨content, toolCalls⟩)
      | none => .inr (s.sent, .ok ⟨s.content, toolCalls⟩)
  | .error message code => s.fail (match code with
    | some code => message ++ " (code: " ++ code ++ ")"
    | none => message)
  | .rejected reason => s.fail reason

/-- The loop of `request_tools`. -/
def receive : Receiving → List Event → Receiving ⊕ Outcome
  | s, [] => .inl s
  | s, e :: events =>
    match s.take e with
    | .inl s => receive s events
    | .inr r => .inr r

end Receiving

/-- `request_tools` once the request is sent -/
def requestTools (t : Ticket) (arrivals : List (String × ProtocolMessage)) : Receiving ⊕ Outcome :=
  Receiving.start.receive (eventsOf t arrivals)

/-! ## Texts in pieces -/

theorem toList_join (l : List String) : (String.join l).toList = l.flatMap String.toList := by
  rw [String.join_eq, String.toList_ofList]
  rfl

theorem join_eq_empty {l : List String} : String.join l = "" ↔ ∀ s ∈ l, s = "" := by
  rw [← String.toList_inj, toList_join]
  simp only [String.toList_empty, flatMap_eq_nil_iff, String.toList_eq_nil_iff]

theorem join_take {l : List String} {n : Nat} : String.join (l.take n) = String.join l ↔ ∀ s ∈ l.drop n, s = "" := by
  rw [← join_eq_empty, ← String.toList_inj, ← String.toList_inj, toList_join, toList_join, toList_join]
  conv_lhs => rhs; rw [← take_append_drop n l, flatMap_append]
  rw [eq_comm, append_right_eq_self, String.toList_empty]

/-! ## What has come in order -/

theorem mem_recordChunks {id : String} {m : ProtocolMessage} : ∀ {deltas : List String} {seq : Nat},
    m ∈ recordChunks id seq deltas → ∃ i delta, deltas[i]? = some delta ∧ m = .llmResponseChunk id delta (some (seq + i))
  | [], _, h => by cases h
  | delta :: deltas, seq, h => by
    rcases mem_cons.1 h with rfl | h
    · exact ⟨0, delta, rfl, rfl⟩
    · obtain ⟨i, d, hd, rfl⟩ := mem_recordChunks h
      exact ⟨i + 1, d, hd, by rw [Nat.add_right_comm, Nat.add_assoc]⟩

def Event.isDone : Event → Bool
  | .done _ _ => true
  | _ => false

def beforeDone (events : List Event) : List Event := events.takeWhile fun e => !e.isDone

def Timely (deltas : List String) (events : List Event) : Prop :=
  ∀ i delta, deltas[i]? = some delta → delta ≠ "" → ∀ j ≤ i, ∃ d, .chunk d (some j) ∈ beforeDone events

variable {sent : List String} {output : ChatOutput}

namespace Receiving

/-- A state after the events `seen`, of an answer in `deltas`: the deltas below `nextSeq` are sent, and those from it on
that have come are buffered. -/
structure Follows (deltas : List String) (seen : List Event) (s : Receiving) : Prop where
  sent : s.sent = deltas.take s.nextSeq
  bound : s.nextSeq ≤ deltas.length
  buffered : ∀ i delta, s.buffered.get i = some delta → s.nextSeq ≤ i ∧ deltas[i]? = some delta
  seen : ∀ i, (∃ d, .chunk d (some i) ∈ seen) ↔ i < s.nextSeq ∨ s.buffered.get i ≠ none

def Settled (s : Receiving) : Prop := s.buffered.get s.nextSeq = none

theorem start_follows (deltas : List String) : start.Follows deltas [] where
  sent := rfl
  bound := Nat.zero_le _
  buffered := nofun
  seen := fun _ => ⟨fun ⟨_, h⟩ => (by cases h), fun h => h.elim (fun h => absurd h (Nat.not_lt_zero _)) (fun h => absurd rfl h)⟩

variable {delta : String}

theorem take_succ {deltas : List String} {n : Nat} (h : deltas[n]? = some delta) : deltas.take (n + 1) = deltas.take n ++ [delta] := by
  rw [take_add_one, h]
  rfl

variable {deltas : List String} {seen : List Event} {s s' : Receiving}

theorem drain_follows : ∀ {turns : Nat} {s : Receiving}, s.Follows deltas seen → s.buffered.size ≤ turns →
    drain turns s = .inl s' → s'.Follows deltas seen ∧ s'.Settled
  | 0, s, h, hsize, hd => by
    cases hd
    refine ⟨h, ?_⟩
    unfold Settled
    rw [size_eq_zero.1 (Nat.le_zero.1 hsize)]
    rfl
  | turns + 1, s, h, hsize, hd => by
    unfold drain at hd
    split at hd
    · rename_i hnone
      cases hd
      exact ⟨h, hnone⟩
    · rename_i next hnext
      split at hd
      · cases hd
      · refine drain_follows (s := { s.apply next with
          buffered := s.buffered.erase s.nextSeq, nextSeq := s.nextSeq + 1 }) ⟨?_, ?_, ?_, ?_⟩ ?_ hd
        · show s.sent ++ [next] = deltas.take (s.nextSeq + 1)
          rw [h.sent, take_succ (h.buffered _ _ hnext).2]
        · exact (List.getElem?_eq_some_iff.1 (h.buffered _ _ hnext).2).1
        · intro i delta hi
          obtain ⟨hne, hi⟩ := of_get_erase hi
          obtain ⟨hle, hdelta⟩ := h.buffered i delta hi
          exact ⟨Nat.lt_of_le_of_ne hle (Ne.symm hne), hdelta⟩
        · intro i
          rw [h.seen, get_erase]
          show i < s.nextSeq ∨ _ ↔ i < s.nextSeq + 1 ∨ _
          by_cases hi : i = s.nextSeq
          · rw [hi]
            exact iff_of_true (.inr (by rw [hnext]; exact some_ne_none _)) (.inl (Nat.lt_succ_self _))
          · rw [if_neg hi]
            exact or_congr_left (by omega)
        · show (s.buffered.erase s.nextSeq).size ≤ turns
          have := size_erase hnext
          omega

variable {seq : Nat}

theorem seen_append (i : Nat) : (∃ d, Event.chunk d (some i) ∈ seen ++ [.chunk delta (some seq)]) ↔
    (∃ d, Event.chunk d (some i) ∈ seen) ∨ i = seq := by
  simp only [mem_append, mem_singleton, Event.chunk.injEq, Option.some.injEq, exists_or]
  exact or_congr_right ⟨fun ⟨_, _, h⟩ => h, fun h => ⟨delta, rfl, h⟩⟩

/-- **A turn keeps what has come in order**, when it takes a chunk of the answer and goes on. -/
theorem take_follows (h : s.Follows deltas seen) (hs : s.Settled)
    (hdelta : deltas[seq]? = some delta) (ht : s.take (.chunk delta (some seq)) = .inl s') :
    s'.Follows deltas (seen ++ [.chunk delta (some seq)]) ∧ s'.Settled := by
  unfold take at ht
  simp only at ht
  split at ht
  · rename_i hlt
    cases ht
    refine ⟨⟨h.sent, h.bound, h.buffered, fun i => ?_⟩, hs⟩
    rw [seen_append, h.seen]
    exact ⟨fun hi => hi.elim id (fun hi => .inl (hi ▸ hlt)), .inl⟩
  · split at ht
    · rename_i hlt
      split at ht
      · cases ht
      · split at ht
        · cases ht
        · cases ht
          refine ⟨⟨h.sent, h.bound, fun i d hi => ?_, fun i => ?_⟩, ?_⟩
          · rcases of_get_insert hi with ⟨rfl, rfl⟩ | ⟨-, hi⟩
            · exact ⟨Nat.le_of_lt hlt, hdelta⟩
            · exact h.buffered i d hi
          · rw [seen_append, h.seen, get_insert]
            split
            · rename_i heq
              exact iff_of_true (.inr heq) (.inr (some_ne_none _))
            · rename_i hne
              exact or_iff_left hne
          · unfold Settled
            rw [get_insert_ne (Nat.ne_of_lt hlt)]
            exact hs
    · split at ht
      · cases ht
      · have heq : seq = s.nextSeq := by omega
        subst heq
        refine drain_follows (s := { s.apply delta with nextSeq := s.nextSeq + 1 }) ⟨?_, ?_, ?_, ?_⟩ (Nat.le_refl _) ht
        · show s.sent ++ [delta] = deltas.take (s.nextSeq + 1)
          rw [h.sent, take_succ hdelta]
        · exact (List.getElem?_eq_some_iff.1 hdelta).1
        · intro i d hi
          have hi : s.buffered.get i = some d := hi
          obtain ⟨hle, hd⟩ := h.buffered i d hi
          refine ⟨Nat.lt_of_le_of_ne hle (fun he => ?_), hd⟩
          rw [← he, show s.buffered.get s.nextSeq = none from hs] at hi
          cases hi
        · intro i
          rw [seen_append, h.seen]
          show (i < s.nextSeq ∨ s.buffered.get i ≠ none) ∨ i = s.nextSeq ↔ i < s.nextSeq + 1 ∨ s.buffered.get i ≠ none
          rw [or_right_comm]
          exact or_congr_left (by omega)

theorem drain_not_ok : ∀ {turns : Nat} {s : Receiving}, drain turns s ≠ .inr (sent, .ok output)
  | 0, _ => nofun
  | turns + 1, s => by
    unfold drain
    split
    · exact nofun
    · split
      · exact nofun
      · exact drain_not_ok

theorem take_chunk_not_ok : s.take (.chunk delta (some seq)) ≠ .inr (sent, .ok output) := by
  unfold take
  simp only
  split
  · exact fun h => by cases h
  · split
    · split
      · exact fun h => by cases h
      · split <;> exact fun h => by cases h
    · split
      · exact fun h => by cases h
      · exact drain_not_ok

theorem take_done {content : String} {toolCalls : Option Json} {result : ChatOutput}
    (h : s.take (.done (some content) toolCalls) = .inr (sent, .ok result)) : sent = s.sent ∧ result.content = content := by
  unfold take at h
  simp only at h
  split at h
  · cases h
  · split at h
    · cases h
    · cases h
      exact ⟨rfl, rfl⟩

def OfAnswer (deltas : List String) (output : ChatOutput) (e : Event) : Prop :=
  (∃ seq delta, deltas[seq]? = some delta ∧ e = .chunk delta (some seq)) ∨ e = .done (some output.content) output.toolCalls

/-- **A request that succeeds on the events of an answer returns its text, and has sent what came in order before the first
done.** -/
theorem receive_ok {output result : ChatOutput} : ∀ {events seen : List Event} {s : Receiving},
    s.Follows deltas seen → s.Settled → (∀ e ∈ events, OfAnswer deltas output e) →
    s.receive events = .inr (sent, .ok result) →
    result.content = output.content ∧ ∃ s' : Receiving, s'.Follows deltas (seen ++ beforeDone events) ∧ s'.Settled ∧ s'.sent = sent
  | [], _, _, _, _, _, hr => by cases hr
  | e :: events, seen, s, h, hs, hall, hr => by
    unfold receive at hr
    rcases hall e mem_cons_self with ⟨seq, delta, hdelta, rfl⟩ | rfl
    · cases ht : s.take (.chunk delta (some seq)) with
      | inl s' =>
        rw [ht] at hr
        obtain ⟨hf, hs'⟩ := take_follows h hs hdelta ht
        obtain ⟨hcontent, s'', hf', hrest⟩ := receive_ok hf hs' (fun e he => hall e (mem_cons_of_mem _ he)) hr
        refine ⟨hcontent, s'', ?_, hrest⟩
        rwa [append_assoc] at hf'
      | inr r =>
        rw [ht] at hr
        cases hr
        exact absurd ht take_chunk_not_ok
    · cases ht : s.take (.done (some output.content) output.toolCalls) with
      | inl s' =>
        unfold take at ht
        simp only at ht
        split at ht
        · cases ht
        · split at ht <;> cases ht
      | inr r =>
        rw [ht] at hr
        cases hr
        obtain ⟨hsent, hcontent⟩ := take_done ht
        refine ⟨hcontent, s, ?_, hs, hsent.symm⟩
        rwa [show beforeDone (.done (some output.content) output.toolCalls :: events) = [] from rfl, append_nil]

theorem Follows.join_sent {events : List Event} (h : s.Follows deltas (beforeDone events)) (hs : s.Settled) :
    String.join s.sent = String.join deltas ↔ Timely deltas events := by
  rw [h.sent, join_take]
  constructor
  · intro hrest i delta hi hne j hj
    refine (h.seen j).2 (.inl (Nat.lt_of_le_of_lt hj ?_))
    by_contra hle
    refine hne (hrest delta (mem_of_getElem? (i := i - s.nextSeq) ?_))
    rw [getElem?_drop, Nat.add_sub_cancel' (Nat.le_of_not_lt hle)]
    exact hi
  · intro htimely delta hmem
    obtain ⟨k, hk⟩ := mem_iff_getElem?.1 hmem
    rw [getElem?_drop] at hk
    by_contra hne
    rcases (h.seen s.nextSeq).1 (htimely _ delta hk hne s.nextSeq (Nat.le_add_right _ _)) with hlt | hsome
    · exact absurd hlt (Nat.lt_irrefl _)
    · exact hsome hs

end Receiving

/-! ## Streamed answers -/

def streamText (events : List Api.SseEvent) : String :=
  String.join (events.filterMap (fun | .delta content => some content | _ => none))

theorem writeDeltas_all : ∀ {deltas : List String} {held chars : Nat}, deltas.length ≤ held →
    (Api.writeDeltas held chars deltas).2 = true
  | [], held, _, _ => by cases held <;> rfl
  | _ :: _, 0, _, h => absurd h (Nat.not_succ_le_zero _)
  | delta :: deltas, held + 1, chars, h => by
    rw [Api.writeDeltas]
    exact writeDeltas_all (Nat.le_of_succ_le_succ h)

theorem answer_streamed (V : Api.Visit) {req : Api.ParsedChat} (hstream : req.stream = true)
    (hheld : sent.length ≤ V.held) (result : ChatOutput) : ∃ events,
    (Api.answer V req sent (.ok result)).1 = [.respond ⟨Api.sseResponseHeader V.cors, .events events⟩] ∧
      .finish (Api.finishReason result) ∈ events ∧ streamText events = String.join sent := by
  have hall := @writeDeltas_all sent V.held 0 hheld
  unfold Api.answer
  rw [if_neg (by rw [hstream]; decide)]
  split
  · rename_i hwrite
    rw [hwrite] at hall
    cases hall
  · refine ⟨_, rfl, ?_, ?_⟩
    · simp
    · unfold streamText
      rw [append_assoc, filterMap_append, filterMap_map]
      have hdeltas : List.filterMap ((fun | .delta content => some content | _ => none) ∘ Api.SseEvent.delta) sent = sent :=
        filterMap_some
      rw [hdeltas]
      cases result.toolCalls <;> exact congrArg String.join (append_nil sent)

theorem ofAnswer_eventsOf {t : Ticket} {deltas : List String}
    {arrivals : List (String × ProtocolMessage)} (h : ∀ a ∈ arrivals, a.1 = t.peer → a.2 ∈ serveLlm t.id deltas output) :
    ∀ e ∈ eventsOf t arrivals, Receiving.OfAnswer deltas output e := by
  intro e he
  obtain ⟨⟨sender, msg⟩, hmem, hsend⟩ := mem_filterMap.1 he
  obtain ⟨⟨id, e'⟩, hevent, hif⟩ := bind_eq_some_iff.1 hsend
  split at hif
  · rename_i hown
    cases hif
    rcases mem_append.1 (h _ hmem hown.2) with hchunk | hdone
    · obtain ⟨i, delta, hdelta, hmsg⟩ := mem_recordChunks hchunk
      rw [show msg = _ from hmsg] at hevent
      cases hevent
      exact .inl ⟨0 + i, delta, by rwa [Nat.zero_add], rfl⟩
    · rw [show msg = _ from mem_singleton.1 hdone] at hevent
      cases hevent
      exact .inr rfl
  · cases hif

/-- **A request that succeeds returns the provider's text; what it streams is that text exactly when every chunk up to the
last that has text comes before the first done**, whatever is lost, comes twice or comes out of order, and whatever other
peers send. -/
theorem streamed_iff (t : Ticket) (deltas : List String) (output : ChatOutput) (hcontent : String.join deltas = output.content)
    (arrivals : List (String × ProtocolMessage)) (hflight : ∀ a ∈ arrivals, a.1 = t.peer → a.2 ∈ serveLlm t.id deltas output)
    (sent : List String) (result : ChatOutput) (hok : requestTools t arrivals = .inr (sent, .ok result)) :
    result.content = output.content ∧
    (String.join sent = output.content ↔ Timely deltas (eventsOf t arrivals)) ∧
    ∀ (V : Api.Visit) (req : Api.ParsedChat), req.stream = true → sent.length ≤ V.held → ∃ events,
      (Api.answer V req sent (.ok result)).1 = [.respond ⟨Api.sseResponseHeader V.cors, .events events⟩] ∧
        .finish (Api.finishReason result) ∈ events ∧ (streamText events = output.content ↔ Timely deltas (eventsOf t arrivals)) := by
  obtain ⟨hresult, s, hfollows, hsettled, hsent⟩ := Receiving.receive_ok (Receiving.start_follows deltas) rfl
    (ofAnswer_eventsOf hflight) hok
  have hjoin := hfollows.join_sent hsettled
  rw [hsent, hcontent] at hjoin
  refine ⟨hresult, hjoin, fun V req hstream hheld => ?_⟩
  obtain ⟨events, hanswer, hfinish, htext⟩ := answer_streamed V hstream hheld result
  exact ⟨events, hanswer, hfinish, by rw [htext]; exact hjoin⟩

theorem streamed_iff_reordered : String.join ["Hel", "lo"] = "Hello" ↔ Timely ["Hel", "lo"] (eventsOf ⟨"1", "p"⟩
    [("p", .llmResponseChunk "1" "lo" (some 1)), ("p", .llmResponseChunk "1" "Hel" (some 0)),
      ("p", .llmResponseChunk "1" "lo" (some 1)), ("p", .llmResponseDone "1" (some "Hello") none)]) := by
  refine (streamed_iff ⟨"1", "p"⟩ ["Hel", "lo"] ⟨"Hello", none⟩ (by decide) _ ?_ ["Hel", "lo"] ⟨"Hello", none⟩
    (by decide)).2.1
  decide

/-- A done that overtakes a chunk ends the stream with a part of the text. -/
theorem overtaken_chunk_is_lost : let arrivals := [("p", ProtocolMessage.llmResponseChunk "1" "Hel" (some 0)),
      ("p", .llmResponseDone "1" (some "Hello") none), ("p", .llmResponseChunk "1" "lo" (some 1))]
    (∀ a ∈ arrivals, a.2 ∈ serveLlm "1" ["Hel", "lo"] ⟨"Hello", none⟩) ∧ String.join ["Hel", "lo"] = "Hello" ∧
      requestTools ⟨"1", "p"⟩ arrivals = .inr (["Hel"], .ok ⟨"Hello", none⟩) ∧ String.join ["Hel"] ≠ "Hello" := by
  decide

end Mistl.Ai
