import Mistl.ApiServer
import Mistl.Lib.JsonRead
/-!
# ApiCharge — authorization and charges of the local API

Each endpoint authorizes on its own, after its own parsing, and each handler drops one `ApiUsage`.
-/
open List Mistl.Json Option

namespace Mistl.Api

open Authz (Authorized Denied ApiStore)
open Dm (readOption)

/-! ## Images name the model that was authorized -/

theorem readOption_asStr {o : Option Json} {m : Option String} (h : readOption asStr o = some m) : m = o.bind asStr := by
  unfold readOption at h
  split at h
  · cases h; rfl
  · cases h; rfl
  · obtain ⟨s, hs, rfl⟩ := map_eq_some_iff.1 h
    exact hs.symm

theorem textMember_obj (fields : List (String × Json)) (key : String) : textMember (.obj fields) key =
    ((fields.filter (fun f => f.1 == key)).getLast?.map Prod.snd).bind asStr := by
  rw [textMember, get?, ← head?_filter, filter_reverse, head?_reverse]

theorem textMember_setMember {key name : String} (h : name ≠ key) (j k : Json) :
    textMember (setMember key j k) name = textMember k name := by
  cases k with
  | obj fields => rw [setMember, textMember_obj, textMember_obj, filter_setField h]
  | _ => rfl

theorem textMember_visionBody {name : String} (hs : name ≠ "stream") (ht : name ≠ "temperature") (j : Json) :
    textMember (visionBody j) name = textMember j name := by
  cases j with
  | obj fields =>
    rw [visionBody, textMember_obj, textMember_obj, List.filter_filter, ← filter_setField hs (.bool false) fields]
    congr 3
    refine filter_congr (fun f _ => ?_)
    cases hf : f.1 == name with
    | false => rfl
    | true => rw [eq_of_beq hf, decide_eq_true ht]; rfl
  | _ => rfl

theorem ChatRequestBody.model_of_ofJson {j : Json} {b : ChatRequestBody} (h : ChatRequestBody.ofJson j = some b)
    (hobj : ∃ fields, j = .obj fields) : b.model = textMember j "model" := by
  obtain ⟨fields, rfl⟩ := hobj
  unfold ChatRequestBody.ofJson at h
  split at h
  · rename_i effort model messages stream tools choice hfields
    have hmodel : model = (fields.filter (fun f => f.1 == "model")).getLast?.map Prod.snd := by
      unfold structFields at hfields
      simp only at hfields
      split at hfields
      · cases hfields
      · rename_i hdup
        rw [if_neg (by simp)] at hfields
        simp only [map_cons, Option.some.injEq, cons.injEq] at hfields
        rw [← hfields.2.1, ← head?_filter]
        have hone : (fields.filter (fun f => f.1 == "model")).length ≤ 1 := by
          by_contra hc
          exact hdup (List.any_eq_true.2 ⟨"model", by simp, by simpa using hc⟩)
        cases hf : fields.filter (fun f => f.1 == "model") with
        | nil => rfl
        | cons f l =>
          rw [hf, length_cons] at hone
          rw [length_eq_zero_iff.1 (show l.length = 0 by omega)]
          rfl
    simp only [bind_eq_bind, bind_eq_some_iff, Option.some.injEq] at h
    obtain ⟨_, -, m, hm, _, -, _, -, _, -, _, -, rfl⟩ := h
    rw [textMember_obj, readOption_asStr hm, hmodel]
  · cases h

theorem textMessage_repr {m : Json} {m' : Json} (h : textMessage m = .ok m') (hr : Json.Repr m) :
    Json.Repr m' ∧ nesting m' ≤ nesting m := by
  unfold textMessage at h
  split at h
  · cases h; exact ⟨hr, Nat.le_refl _⟩
  · rename_i parts hparts
    cases htext : partsText parts with
    | error e => rw [htext] at h; cases h
    | ok content =>
      rw [htext] at h
      cases h
      cases m with
      | obj fields =>
        obtain ⟨hs, hn⟩ := @setField_repr "content" (.str content) trivial _ hr
        refine ⟨hs, ?_⟩
        simp only [setMember, nesting] at hn ⊢
        omega
      | _ => exact ⟨hr, Nat.le_refl _⟩

theorem textMessages_repr : ∀ {messages messages' : List Json}, messages.mapM textMessage = .ok messages' →
    ReprItems messages → ReprItems messages' ∧ nestingItems messages' ≤ nestingItems messages
  | [], _, h, _ => by cases h; exact ⟨trivial, Nat.le_refl _⟩
  | m :: messages, _, h, hr => by
    rw [mapM_cons] at h
    obtain ⟨m', hm, h⟩ := bind_eq_ok.1 h
    obtain ⟨ms, hms, h⟩ := bind_eq_ok.1 h
    cases h
    obtain ⟨h1, n1⟩ := textMessage_repr hm hr.1
    obtain ⟨h2, n2⟩ := textMessages_repr hms hr.2
    exact ⟨⟨h1, h2⟩, by rw [nestingItems, nestingItems]; omega⟩

theorem get?_repr {j k : Json} {key : String} (h : j.get? key = some k) (hr : Json.Repr j) :
    (∃ fields, j = .obj fields) ∧ Json.Repr k ∧ nesting k < nesting j := by
  cases j with
  | obj fields =>
    refine ⟨⟨fields, rfl⟩, ?_⟩
    obtain ⟨f, hf, rfl⟩ := map_eq_some_iff.1 h
    have hmem : f ∈ fields := mem_reverse.1 (mem_of_find?_eq_some hf)
    refine ⟨reprFields_iff.1 hr f hmem, ?_⟩
    exact Nat.lt_succ_of_le (nestingFields_le.1 (Nat.le_refl _) f hmem)
  | _ => cases h

/-- **A request with images names, in what goes to the tunnel, the model its text was authorized for.** -/
theorem vision_model {R : Reading} {body bytes : List UInt8} {raw : Json} {req : ParsedChat}
    (hv : visionRequest R body = .ok (some (raw, bytes))) (hp : parseChatRequest R bytes = .ok req) :
    textMember (visionBody raw) "model" = req.model := by
  obtain ⟨raw', hraw, hv⟩ := okOr_bind_eq_ok.1 hv
  split at hv
  · cases hv
  · obtain ⟨messages, hmessages, hv⟩ := okOr_bind_eq_ok.1 hv
    obtain ⟨messages', htext, hv⟩ := bind_eq_ok.1 hv
    cases hv
    obtain ⟨hrepr, hnest⟩ := valueOf_repr hraw
    obtain ⟨items, hitems, harr⟩ := bind_eq_some_iff.1 hmessages
    obtain ⟨⟨fields, rfl⟩, hir, hin⟩ := get?_repr hitems hrepr
    cases items with
    | arr items =>
      cases harr
      obtain ⟨hr', hn'⟩ := textMessages_repr htext hir
      obtain ⟨hset, hsetn⟩ := @setField_repr "messages" (.arr messages') hr' _ hrepr
      have hread : fromSlice (toVec (setMember "messages" (.arr messages') (.obj fields))) =
          some (setMember "messages" (.arr messages') (.obj fields)) := by
        refine fromSlice_toVec _ hset ?_
        simp only [setMember, nesting] at hin hnest hsetn ⊢
        omega
      unfold parseChatRequest at hp
      rw [hread] at hp
      obtain ⟨b, hb, hp⟩ := okOr_bind_eq_ok.1 hp
      obtain ⟨_, -, hp⟩ := bind_eq_ok.1 hp
      obtain ⟨_, -, hp⟩ := bind_eq_ok.1 hp
      obtain ⟨_, -, hp⟩ := bind_eq_ok.1 hp
      cases hp
      rw [textMember_visionBody (by decide) (by decide)]
      rw [ChatRequestBody.model_of_ofJson hb ⟨_, rfl⟩, textMember_setMember (by decide)]
    | _ => cases harr

/-! ## Uses and charges -/

def uses (trace : List Event) : List Use := trace.filterMap fun | .invoke _ use => some use | _ => none

def charges (trace : List Event) : List (Authorized × Nat) :=
  trace.filterMap (fun | .charge a outputChars => some (a, outputChars) | _ => none)

def Answers (events : List Event) : Prop := ∀ e ∈ events, ∃ response, e = .respond response

variable {events : List Event}

theorem Answers.uses (h : Answers events) : uses events = [] := filterMap_eq_nil_iff.2 fun e he => by obtain ⟨r, rfl⟩ := h e he; rfl

theorem Answers.charges (h : Answers events) : charges events = [] :=
  filterMap_eq_nil_iff.2 fun e he => by obtain ⟨r, rfl⟩ := h e he; rfl

theorem answers_one (response : Response) : Answers [.respond response] := fun _ he => ⟨response, mem_singleton.1 he⟩

variable (C : Crates) (S : Server) (V : Visit)

theorem Answers.settled (h : Answers events) (s : ApiStore) : events.foldl (V.apply C) s = s := by
  induction events with
  | nil => rfl
  | cons e events ih =>
    obtain ⟨r, rfl⟩ := h e mem_cons_self
    exact ih (fun e he => h e (mem_cons_of_mem _ he))

/-- What the API owes for a request: a backend is invoked only after the store has granted this header the model the
invocation names; it is the only one, it is charged once, to that grant, and the store ends with that charge. -/
def Metered (authorization : Option String) (trace : List Event) : Prop :=
  ∀ pre room use post, trace = pre ++ .invoke room use :: post → ∃ a outputChars, .authorize authorization use.model (.ok a) ∈ pre ∧
      (V.store.authorizeApi C authorization use.model V.now).2 = .ok a ∧
      uses trace = [use] ∧ charges trace = [(a, outputChars)] ∧
      let s := V.elsewhere (V.store.authorizeApi C authorization use.model V.now).1
      V.settled C trace = { s with toStore := s.toStore.record a 1 outputChars V.later }

theorem metered_of_uses_nil {authorization : Option String} {trace : List Event} (h : uses trace = []) :
    Metered C V authorization trace := by
  rintro pre room use post rfl
  rw [uses, filterMap_append, append_eq_nil_iff] at h
  exact absurd h.2 (cons_ne_nil _ _)

/-- What a handler does after its grant: an answer alone, or one backend invoked, for the model that was granted, and the
usage started. -/
def Spends (model : Option String) (next : List Event × ApiUsage) : Prop :=
  Answers next.1 ∨ ∃ room use rest, next.1 = .invoke room use :: rest ∧ use.model = model ∧ Answers rest ∧ next.2.started = true

theorem authorized_metered {authorization model : Option String} {next : List Event × ApiUsage} (h : Spends model next) :
    Metered C V authorization (authorized C V authorization model next) := by
  unfold authorized
  cases ha : (V.store.authorizeApi C authorization model V.now).2 with
  | error denied => exact metered_of_uses_nil C V rfl
  | ok a =>
    rcases h with h | ⟨room, use, rest, hnext, rfl, hrest, hstarted⟩
    · refine metered_of_uses_nil C V ?_
      show uses (next.1 ++ next.2.drop a) = []
      unfold ApiUsage.drop
      split
      · rw [uses, filterMap_append]
        exact (congrArg (· ++ _) h.uses).trans rfl
      · rw [append_nil]
        exact h.uses
    · show Metered C V authorization (.authorize authorization use.model (.ok a) :: (next.1 ++ next.2.drop a))
      rw [hnext, show next.2.drop a = [.charge a next.2.outputChars] from if_pos hstarted]
      have huses : ∀ tail, uses (rest ++ tail) = uses tail := fun tail => by
        rw [uses, filterMap_append]
        exact (congrArg (· ++ _) hrest.uses).trans (nil_append _)
      have hcharges : charges (rest ++ [.charge a next.2.outputChars]) = [(a, next.2.outputChars)] := by
        rw [charges, filterMap_append]
        exact (congrArg (· ++ _) hrest.charges).trans rfl
      rintro pre room' use' post htrace
      have hmem : .invoke room' use' ∈ rest ∨ use' = use := by
        have hin : Event.invoke room' use' ∈
            Event.authorize authorization use.model (.ok a) :: (.invoke room use :: rest ++ [.charge a next.2.outputChars]) := by
          rw [htrace]
          exact mem_append_right _ mem_cons_self
        rcases mem_cons.1 hin with h | h
        · cases h
        · rcases mem_cons.1 h with h | h
          · cases h
            exact .inr rfl
          · rcases mem_append.1 h with h | h
            · exact .inl h
            · cases mem_singleton.1 h
      rcases hmem with hmem | rfl
      · obtain ⟨r, hr⟩ := hrest _ hmem
        cases hr
      · refine ⟨a, next.2.outputChars, ?_, ha, ?_, hcharges, ?_⟩
        · cases pre with
          | nil => cases htrace
          | cons e pre =>
            rw [(cons.inj htrace).1]
            exact mem_cons_self
        · show use' :: uses (rest ++ _) = [use']
          rw [huses]
          rfl
        · show (rest ++ [_]).foldl (V.apply C) _ = _
          rw [foldl_append, hrest.settled]
          rfl

/-! ## The endpoints -/

theorem answer_spends (req : ParsedChat) (deltas : List String) (result : Except Failure ChatOutput) :
    Answers (answer V req deltas result).1 ∧ (answer V req deltas result).2.started = true := by
  unfold answer
  by_cases hs : req.stream = false
  · rw [if_pos hs]
    cases result <;> exact ⟨answers_one _, rfl⟩
  · rw [if_neg hs]
    cases writeDeltas V.held 0 deltas with
    | mk chars whole =>
      cases whole with
      | false => exact ⟨answers_one _, rfl⟩
      | true =>
        cases result with
        | ok output => exact ⟨answers_one _, rfl⟩
        | error e =>
          simp only
          split <;> exact ⟨answers_one _, rfl⟩

theorem relayVision_spends (req : ParsedChat) (response : TunnelResponse) :
    Answers (relayVision V req response).1 ∧ (relayVision V req response).2.started = true := by
  unfold relayVision
  split_ifs
  · exact ⟨answers_one _, rfl⟩
  · split
    · exact ⟨answers_one _, rfl⟩
    · exact answer_spends V req _ _

theorem complete_spends {room : Option String} {b : Backends} {oai : Option (Json → Except Failure TunnelResponse)}
    {req : ParsedChat} {vision : Option Json}
    (hmodel : ∀ raw, vision = some raw → textMember (visionBody raw) "model" = req.model) :
    Spends req.model (complete V room b oai req vision) := by
  unfold complete
  cases vision with
  | none =>
    obtain ⟨h, hs⟩ := answer_spends V req (b.call req.messages req.tools req.model req.stream).1
      (b.call req.messages req.tools req.model req.stream).2
    exact .inr ⟨room, _, _, rfl, rfl, h, hs⟩
  | some raw =>
    cases oai with
    | none => exact .inl (answers_one _)
    | some oai =>
      simp only
      cases oai (visionBody raw) with
      | error e => exact .inr ⟨room, _, _, rfl, hmodel raw rfl, answers_one _, rfl⟩
      | ok response =>
        obtain ⟨h, hs⟩ := relayVision_spends V req response
        exact .inr ⟨room, _, _, rfl, hmodel raw rfl, h, hs⟩

theorem handleChatCompletions_metered (room : Option String) (b : Backends)
    (oai : Option (Json → Except Failure TunnelResponse)) (authorization : Option String) (body : List UInt8) :
    Metered C V authorization (handleChatCompletions C S V room b oai authorization body) := by
  unfold handleChatCompletions
  cases hv : visionRequest S.reading body with
  | error message => exact metered_of_uses_nil C V rfl
  | ok vision =>
    simp only
    cases hp : parseChatRequest S.reading ((vision.map Prod.snd).getD body) with
    | error message => exact metered_of_uses_nil C V rfl
    | ok req =>
      refine authorized_metered C V (complete_spends V (fun raw hraw => ?_))
      obtain ⟨⟨raw', bytes⟩, rfl, rfl⟩ := map_eq_some_iff.1 hraw
      exact vision_model hv hp

theorem handleAudioSpeech_metered (room : Option String) (b : Backends) (authorization : Option String)
    (body : List UInt8) : Metered C V authorization (handleAudioSpeech C S V room b authorization body) := by
  unfold handleAudioSpeech
  cases parseSpeech S.reading body with
  | error message => exact metered_of_uses_nil C V rfl
  | ok read => exact authorized_metered C V (.inr ⟨room, _, _, rfl, rfl, answers_one _, rfl⟩)

theorem handleAudioTranscriptions_metered (room : Option String) (b : Backends)
    (authorization : Option String) (contentType : String) (body : List UInt8) :
    Metered C V authorization (handleAudioTranscriptions C V room b authorization contentType body) := by
  unfold handleAudioTranscriptions
  cases parseTranscription contentType body with
  | error message => exact metered_of_uses_nil C V rfl
  | ok params => exact authorized_metered C V (.inr ⟨room, _, _, rfl, rfl, answers_one _, rfl⟩)

theorem handleDecision_metered (authorization room : Option String)
    (decision : Option (List UInt8 → Except Failure TunnelResponse)) (body : List UInt8) :
    Metered C V authorization (handleDecision V room decision body) ↔ ¬ (decision.isSome = true ∧ decisionEnvelope body = .ok ()) := by
  unfold handleDecision
  cases decision with
  | none => exact iff_of_true (metered_of_uses_nil C V rfl) (fun h => by cases h.1)
  | some decision =>
    cases henv : decisionEnvelope body with
    | error message => exact iff_of_true (metered_of_uses_nil C V rfl) (fun h => by cases h.2)
    | ok u =>
      refine iff_of_false (fun h => ?_) (fun h => h ⟨rfl, rfl⟩)
      obtain ⟨a, outputChars, hmem, -⟩ := h [] room (.decision body) _ rfl
      cases hmem

theorem roomRoute_starts {path : List Char} {r : String × String} (h : roomRoute path = some r) :
    "/v1/rooms/".toList.isPrefixOf path = true := by
  obtain ⟨rest, hrest, -⟩ := bind_eq_some_iff.1 h
  obtain ⟨start, rfl, hstart⟩ := dropPrefix?_eq_some_iff.1 hrest
  rw [ isPrefixOf_iff_prefix, ← eq_of_beq hstart]
  exact prefix_append _ _

/-- A request whose decision is relayed: a `POST` on the decision route of a room that is there, with a body that can be
read and has its envelope. -/
def RelaysDecision (head : RequestHead) (input : List UInt8) : Prop :=
  ∃ room rooms routes body, head.isMethod "POST" = true ∧ roomRoute head.route = some (room, "systemone") ∧
    S.rooms = some rooms ∧ rooms room = .ok (some routes) ∧ readBody head "/v1/systemone".toList input = .ok body ∧
    decisionEnvelope body = .ok ()

theorem dispatch_metered (room : Option String) (b : Backends) (oai : Option (Json → Except Failure TunnelResponse))
    (decision : Option (List UInt8 → Except Failure TunnelResponse)) (head : RequestHead) (path : List Char)
    (input : List UInt8) : Metered C V (head.header "authorization") (dispatch C S V room b oai decision head path input) ↔
      ¬ (head.isMethod "POST" = true ∧ path = "/v1/systemone".toList ∧ decision.isSome = true ∧
        ∃ body, readBody head path input = .ok body ∧ decisionEnvelope body = .ok ()) := by
  unfold dispatch
  cases hbody : readBody head path input with
  | error refusal =>
    refine iff_of_true (metered_of_uses_nil C V rfl) ?_
    rintro ⟨-, -, -, body, h, -⟩
    cases h
  | ok body =>
    have hother : ∀ p : String, path = p.toList → p ≠ "/v1/systemone" →
        ¬ (head.isMethod "POST" = true ∧ path = "/v1/systemone".toList ∧ decision.isSome = true ∧
          ∃ body', (Except.ok body : Except Refusal (List UInt8)) = .ok body' ∧ decisionEnvelope body' = .ok ()) := by
      rintro p rfl hp ⟨-, h, -⟩
      exact hp (String.toList_inj.1 h)
    split_ifs with h1 h2 h3 h4 h5
    · exact iff_of_true (metered_of_uses_nil C V rfl) (hother _ h1.2 (by decide))
    · exact iff_of_true (handleChatCompletions_metered C S V _ _ _ _ _) (hother _ h2.2 (by decide))
    · exact iff_of_true (handleAudioSpeech_metered C S V _ _ _ _) (hother _ h3.2 (by decide))
    · exact iff_of_true (handleAudioTranscriptions_metered C V _ _ _ _ _) (hother _ h4.2 (by decide))
    · rw [handleDecision_metered]
      refine not_congr ⟨fun h => ⟨h5.1, h5.2, h.1, body, rfl, h.2⟩, ?_⟩
      rintro ⟨-, -, hd, body', hb, henv⟩
      cases hb
      exact ⟨hd, henv⟩
    · exact iff_of_true (metered_of_uses_nil C V rfl) fun h => h5 ⟨h.1, h.2.1⟩

/-- **A request is metered exactly when it relays no decision.** -/
theorem metered_iff (head : RequestHead) (input : List UInt8) :
    Metered C V (head.header "authorization") (routeRequest C S V head input) ↔ ¬ RelaysDecision S head input := by
  unfold routeRequest
  split_ifs with hroom
  · cases hroute : roomRoute head.route with
    | none =>
      refine iff_of_true (metered_of_uses_nil C V rfl) ?_
      rintro ⟨room, rooms, routes, body, -, h, -⟩
      rw [hroute] at h
      cases h
    | some r =>
      obtain ⟨room, endpoint⟩ := r
      cases hrooms : S.rooms with
      | none =>
        refine iff_of_true (metered_of_uses_nil C V rfl) ?_
        rintro ⟨room', rooms, routes, body, -, -, h, -⟩
        rw [hrooms] at h
        cases h
      | some rooms =>
        simp only
        have hnot : (∀ routes, rooms room ≠ .ok (some routes)) → ¬ RelaysDecision S head input := by
          rintro hno ⟨room', rooms', routes, body, -, hr, hs, hl, -⟩
          rw [hroute] at hr
          rw [hrooms] at hs
          cases hr
          cases hs
          exact hno routes hl
        cases hlookup : rooms room with
        | error e => exact iff_of_true (metered_of_uses_nil C V rfl) (hnot (fun routes h => by rw [hlookup] at h; cases h))
        | ok found =>
          cases found with
          | none => exact iff_of_true (metered_of_uses_nil C V rfl) (hnot (fun routes h => by rw [hlookup] at h; cases h))
          | some routes =>
            rw [dispatch_metered]
            refine not_congr ⟨?_, ?_⟩
            · rintro ⟨hpost, hpath, -, body, hbody, henv⟩
              have hend : endpoint = "systemone" := by
                rw [String.toList_append] at hpath
                exact String.toList_inj.1 (append_cancel_left hpath)
              subst hend
              exact ⟨room, rooms, routes, body, hpost, hroute, hrooms, hlookup, hbody, henv⟩
            · rintro ⟨room', rooms', routes', body, hpost, hr, hs, hl, hbody, henv⟩
              rw [hroute] at hr
              rw [hrooms] at hs
              cases hr
              exact ⟨hpost, rfl, rfl, body, hbody, henv⟩
  · rw [dispatch_metered]
    refine iff_of_true (fun h => by cases h.2.2.1) ?_
    rintro ⟨room, rooms, routes, body, -, hr, -⟩
    exact hroom (roomRoute_starts hr)

/-! ## A decision without a token -/

def echo : Backends where
  call := fun _ _ _ _ => ([], .ok ⟨"", none⟩)
  models := []
  tts := fun _ _ => .ok ⟨[], "audio/mpeg"⟩
  stt := fun _ => .ok ""

/-- A server with one room, `team`. -/
def teamServer : Server where
  reading := ⟨fun _ => "", fun _ => true⟩
  backends := echo
  rooms := some (fun room => if room = "team" then
    .ok (some { echo with
      oai := fun _ => .ok ⟨200, "application/json", []⟩
      decision := fun body => .ok ⟨200, "application/json", body⟩ }) else .ok none)

def lockedVisit : Visit where
  store := ⟨⟨⟨.default, .default⟩, .default, false, .default, none⟩, [], true, false⟩
  now := 1000
  cors := ""
  id := "chatcmpl-1"
  created := 1000
  held := 0
  elsewhere := id
  later := 1001

def decisionBody : List UInt8 := toVec (.obj [("questions", .obj [("go", .str "yes or no")]), ("state", .str "ready")])

/-- A decision request without an `Authorization` header. -/
def decisionHead : RequestHead where
  method := "POST"
  path := "/v1/rooms/team/systemone"
  headers := [("host", "localhost"), ("content-type", "application/json"), ("content-length", "48")]

def decided : List Event → Bool
  | [.invoke (some room) (.decision body), .respond _] => room == "team" && body == decisionBody
  | _ => false

/-- A request that passes the guards, and would be refused for its missing token, has its decision relayed, and nothing is
charged. -/
theorem decision_unmetered : (match checkRequestGuards (⟨0, 6478, fun _ => none⟩ : Local Nat) decisionHead [] with
      | .ok none => true | _ => false) = true ∧
    (match (lockedVisit.store.authorizeApi (sampleCrates []) (decisionHead.header "authorization") none 1000).2 with
      | .error denied => httpStatus denied == 401 | .ok _ => false) = true ∧
    (∃ response, routeRequest (sampleCrates []) teamServer lockedVisit decisionHead decisionBody =
      [.invoke (some "team") (.decision decisionBody), .respond response]) ∧
    ¬ Metered (sampleCrates []) lockedVisit (decisionHead.header "authorization")
      (routeRequest (sampleCrates []) teamServer lockedVisit decisionHead decisionBody) := by
  have hshape : decided (routeRequest (sampleCrates []) teamServer lockedVisit decisionHead decisionBody) = true := by
    decide +kernel
  have htrace : ∃ response, routeRequest (sampleCrates []) teamServer lockedVisit decisionHead decisionBody =
      [.invoke (some "team") (.decision decisionBody), .respond response] := by
    unfold decided at hshape
    split at hshape
    · rename_i room body response h
      rw [Bool.and_eq_true, beq_iff_eq, beq_iff_eq] at hshape
      exact ⟨response, by rw [h, hshape.1, hshape.2]⟩
    · cases hshape
  refine ⟨by decide +kernel, by decide +kernel, htrace, fun h => ?_⟩
  obtain ⟨response, htrace⟩ := htrace
  obtain ⟨a, outputChars, hmem, -⟩ := h [] _ _ _ htrace
  cases hmem

end Mistl.Api
