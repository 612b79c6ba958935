import Mistl.DmSigned
/-!
# DmReplay — a signed message is accepted once

The replay cache forgets a message only once its timestamp is out of the accepted window, so the same message is not
accepted again, whatever happens to the history.
-/
open List

namespace Mistl.Dm

/-- The wall clock, in milliseconds, `epoch` nanoseconds ahead of the instants. -/
def wallMs (epoch now : Nat) : Nat := (epoch + now) / nsPerMs

/-- A service, with the messages that it accepted and those that entered its replay cache. -/
structure Inbox where
  service : Service
  now : Nat
  accepted : List DmMessage
  entered : List DmMessage

def acceptedOf : Outcome → Option Incoming → List DmMessage
  | .accepted _ _, some (.message msg) => [msg]
  | _, _ => []

def enteredOf (before after : Dedupe) : Option Incoming → List DmMessage
  | some (.message msg) => if before.contains msg.fromDid msg.id = false ∧ after.contains msg.fromDid msg.id = true then [msg] else []
  | _ => []

/-- A call of `process_inbound` at its own instant, or any change that `dm.clear`, `dm.read` or `dm.send` make to the history. -/
inductive Inbox.Step (C : Crates) (epoch : Nat) (x : Inbox) : Inbox → Prop where
  | inbound {sender : String} {data : List UInt8} {nowMs : UInt64} {now : Nat} {admits : String → Bool}
      {lru : Bool → Option String} {service : Service} {out : Outcome} : x.now ≤ now → nowMs.toNat = wallMs epoch now →
      x.service.processInbound C sender data nowMs now admits lru = (service, out) →
      Step C epoch x ⟨service, now, x.accepted ++ acceptedOf out (incomingOf C data sender x.service.identity.did nowMs),
        x.entered ++ enteredOf x.service.dedupe service.dedupe (incomingOf C data sender x.service.identity.did nowMs)⟩
  | history (h : History) : Step C epoch x { x with service := { x.service with history := h } }

inductive Inbox.Reach (C : Crates) (epoch : Nat) (start : Inbox) : Inbox → Prop where
  | refl : Reach C epoch start start
  | tail {x x' : Inbox} : Reach C epoch start x → x.Step C epoch x' → Reach C epoch start x'

/-- `Service::new` at an instant -/
def Inbox.start (identity : Identity) (history : History) (now : Nat) : Inbox := ⟨⟨identity, history, .empty, .new now⟩, now, [], []⟩

/-- A message is in the cache since an instant at which it was not from the future, or it is out of the window. -/
def Inbox.Remembers (epoch : Nat) (x : Inbox) (msg : DmMessage) : Prop :=
  (∃ instant, (instant, Dedupe.key msg.fromDid msg.id) ∈ x.service.dedupe.order ∧ msg.ts.toNat ≤ wallMs epoch instant + maxSkewMs) ∨
    msg.ts.toNat + maxSkewMs < wallMs epoch x.now

structure Inbox.Kept (epoch : Nat) (x : Inbox) : Prop where
  paired : Paired x.service.dedupe x.service.limiter.overall x.now
  remembered : ∀ msg ∈ x.entered, x.Remembers epoch msg
  accepted : ∀ msg ∈ x.accepted, msg ∈ x.entered
  once : (x.accepted.map fun msg => (msg.fromDid, msg.id, msg.ts)).Nodup

variable {C : Crates} {epoch now : Nat} {x x' : Inbox} {msg : DmMessage}

theorem wallMs_old {instant : Nat} (h : instant + dedupeTtl < now) : wallMs epoch instant + 2 * maxSkewMs < wallMs epoch now := by
  have hadd : wallMs epoch instant + (2 * maxSkewMs + 1) = (epoch + instant + (2 * maxSkewMs + 1) * nsPerMs) / nsPerMs :=
    (Nat.add_mul_div_right _ _ (by decide)).symm
  have hle : (2 * maxSkewMs + 1) * nsPerMs ≤ dedupeTtl := by decide
  have hdiv : (epoch + instant + (2 * maxSkewMs + 1) * nsPerMs) / nsPerMs ≤ (epoch + now) / nsPerMs := Nat.div_le_div_right (by omega)
  unfold wallMs at hadd ⊢
  omega

theorem wallMs_mono {now' : Nat} (h : now ≤ now') : wallMs epoch now ≤ wallMs epoch now' :=
  Nat.div_le_div_right (Nat.add_le_add_left h _)

theorem Inbox.Remembers.mono (h : x.Remembers epoch msg) (hnow : x.now ≤ x'.now)
    (hold : ∀ e ∈ x.service.dedupe.order, e ∈ x'.service.dedupe.order ∨ e.1 + dedupeTtl < x'.now) : x'.Remembers epoch msg := by
  rcases h with ⟨instant, hmem, hts⟩ | hout
  · rcases hold _ hmem with hmem | hold
    · exact .inl ⟨instant, hmem, hts⟩
    · have hwall : wallMs epoch instant + 2 * maxSkewMs < wallMs epoch x'.now := wallMs_old hold
      exact .inr (by omega)
  · exact .inr (lt_of_lt_of_le hout (wallMs_mono hnow))

theorem Paired.allow {s : Service} {before : Nat} (h : Paired s.dedupe s.limiter.overall before) (hnow : before ≤ now)
    (sender : String) : Paired s.dedupe (s.limiter.allow sender now).1.overall now := by
  have hrefresh := h.refresh hnow
  rcases s.limiter.allow_overall sender now with ⟨-, hcount, hoverall⟩ | ⟨-, hoverall⟩
  · rw [hoverall]
    exact ⟨hrefresh.nodup, hrefresh.seen, hrefresh.paced.charge_other hcount, hrefresh.started⟩
  · rwa [hoverall]

theorem Inbox.Kept.idle (hk : x.Kept epoch) (hnow : x.now ≤ now) (history : History) {limiter : RateLimiter}
    (hpaired : Paired x.service.dedupe limiter.overall now) (incoming : Option Incoming) :
    (⟨⟨x.service.identity, history, x.service.dedupe, limiter⟩, now, x.accepted,
      x.entered ++ enteredOf x.service.dedupe x.service.dedupe incoming⟩ : Inbox).Kept epoch := by
  have hnone : enteredOf x.service.dedupe x.service.dedupe incoming = [] := by
    unfold enteredOf
    split
    · refine if_neg fun h => ?_
      rw [h.1] at h
      cases h.2
    · rfl
  rw [hnone, append_nil]
  exact ⟨hpaired, fun msg hmsg => (hk.remembered msg hmsg).mono hnow fun e he => .inl he, hk.accepted, hk.once⟩

theorem le_of_absDiff {a b : UInt64} {n : Nat} (h : absDiff a b ≤ n) : a.toNat ≤ b.toNat + n ∧ b.toNat ≤ a.toNat + n := by
  unfold absDiff at h
  omega

theorem acceptedOf_eq_nil {out : Outcome} (hne : ∀ did id, out ≠ .accepted did id) (incoming : Option Incoming) :
    acceptedOf out incoming = [] := by
  cases out <;> first | rfl | exact absurd rfl (hne _ _)

theorem Inbox.Kept.message (hk : x.Kept epoch) {sender : String} {nowMs : UInt64} {lru : Bool → Option String}
    (hnow : x.now ≤ now) (hwall : nowMs.toNat = wallMs epoch now)
    (hpassed : msg.Passed C sender x.service.identity.did nowMs)
    (hnew : x.service.dedupe.contains msg.fromDid msg.id = false) (hallowed : (x.service.limiter.allow sender now).2 = true)
    {service : Service} {out : Outcome} (hresult : ({ x.service with limiter := (x.service.limiter.allow sender now).1 } :
      Service).acceptMessage msg nowMs now lru = (service, out)) :
    (⟨service, now, x.accepted ++ acceptedOf out (some (.message msg)),
      x.entered ++ enteredOf x.service.dedupe service.dedupe (some (.message msg))⟩ : Inbox).Kept epoch := by
  obtain ⟨hts, hts'⟩ := le_of_absDiff hpassed.skew
  rw [hwall] at hts hts'
  obtain ⟨hcount, hoverall⟩ : (x.service.limiter.overall.refresh windowNs now).count < globalPerWindow ∧
      (x.service.limiter.allow sender now).1.overall = (x.service.limiter.overall.refresh windowNs now).charge := by
    rcases x.service.limiter.allow_overall sender now with ⟨-, hcount, hoverall⟩ | ⟨hrefused, -⟩
    · exact ⟨hcount, hoverall⟩
    · rw [hallowed] at hrefused
      cases hrefused
  obtain ⟨hpaired, hold, htaken⟩ := @Paired.insert _ _ _ msg.fromDid msg.id (hk.paired.refresh hnow) hcount
    (Window.refresh_expired (by decide))
  rw [← hoverall] at hpaired
  obtain ⟨-, hin⟩ := htaken hnew
  -- an earlier acceptance of the same message is in the cache, or this one is out of the window
  have honce : ∀ m ∈ x.accepted, (m.fromDid, m.id, m.ts) ≠ (msg.fromDid, msg.id, msg.ts) := fun m hm he => by
    simp only [Prod.mk.injEq] at he
    obtain ⟨hdid, hid, hsame⟩ := he
    rcases hk.remembered m (hk.accepted m hm) with ⟨instant, hmem, -⟩ | hout
    · rw [hdid, hid] at hmem
      rw [(hk.paired.contains_iff _ _).2 ⟨instant, hmem⟩] at hnew
      cases hnew
    · have := @wallMs_mono epoch _ _ hnow
      rw [hsame] at hout
      omega
  have hcontains := (hpaired.contains_iff msg.fromDid msg.id).2 ⟨now, hin⟩
  have hentered : enteredOf x.service.dedupe (x.service.dedupe.insert msg.fromDid msg.id now).1 (some (.message msg)) = [msg] :=
    if_pos ⟨hnew, hcontains⟩
  have hremembered : ∀ (s : Service) (accepted : List DmMessage), s.dedupe = (x.service.dedupe.insert msg.fromDid msg.id now).1 →
      ∀ m ∈ x.entered ++ [msg], (⟨s, now, accepted, x.entered ++ [msg]⟩ : Inbox).Remembers epoch m := by
    intro s accepted hs m hm
    rcases mem_append.1 hm with hm | hm
    · exact (hk.remembered m hm).mono hnow fun e he => by
        rw [show (⟨s, now, accepted, x.entered ++ [msg]⟩ : Inbox).service.dedupe = _ from hs]
        exact hold e he
    · obtain rfl := mem_singleton.1 hm
      exact .inl ⟨now, by rw [show (⟨s, now, accepted, _⟩ : Inbox).service.dedupe = _ from hs]; exact hin, hts⟩
  rcases acceptMessage_cases { x.service with limiter := (x.service.limiter.allow sender now).1 } msg nowMs now lru with
    ⟨-, history, -, haccepted⟩ | ⟨_, hne, -, hdropped⟩
  · rw [haccepted] at hresult
    cases hresult
    rw [hentered]
    refine ⟨hpaired, hremembered _ _ rfl, fun m hm => ?_, ?_⟩
    · rcases mem_append.1 hm with hm | hm
      · exact mem_append_left _ (hk.accepted m hm)
      · exact mem_append_right _ hm
    · rw [map_append]
      refine hk.once.append (nodup_singleton _) fun t ht ht' => ?_
      obtain ⟨m, hm, rfl⟩ := mem_map.1 ht
      exact honce m hm (mem_singleton.1 ht')
  · rw [hdropped] at hresult
    cases hresult
    rw [hentered, acceptedOf_eq_nil hne, append_nil]
    exact ⟨hpaired, hremembered _ _ rfl, fun m hm => mem_append_left _ (hk.accepted m hm), hk.once⟩

theorem Inbox.Step.kept (hk : x.Kept epoch) (hstep : x.Step C epoch x') : x'.Kept epoch := by
  cases hstep with
  | history h =>
    refine ⟨hk.paired, fun msg hmsg => ?_, hk.accepted, hk.once⟩
    exact (hk.remembered msg hmsg).mono (Nat.le_refl _) fun e he => .inl he
  | @inbound sender data nowMs now admits lru service out hnow hwall hresult =>
    have htook := processInbound_took C x.service sender data nowMs now admits lru
    rw [hresult] at htook
    generalize hpair : (service, out) = pair at htook
    cases htook with
    | stopped haccepted hack =>
      cases hpair
      rw [acceptedOf_eq_nil haccepted, append_nil]
      have hpaired : Paired x.service.dedupe x.service.limiter.overall now :=
        ⟨hk.paired.nodup, hk.paired.seen, hk.paired.paced, hk.paired.started.trans hnow⟩
      exact hk.idle hnow x.service.history hpaired _
    | charged haccepted hack =>
      cases hpair
      rw [acceptedOf_eq_nil haccepted, append_nil]
      exact hk.idle hnow x.service.history (hk.paired.allow hnow sender) _
    | message hincoming hpassed hnew hallowed =>
      rw [hincoming]
      exact hk.message hnow hwall hpassed hnew hallowed hpair.symm
    | @ack ack hincoming hallowed =>
      cases hpair
      rw [acceptedOf_eq_nil fun _ _ h => Outcome.noConfusion h, append_nil]
      exact hk.idle hnow (x.service.history.markDelivered ack.fromDid ack.id).1 (hk.paired.allow hnow sender) _

theorem Inbox.Reach.kept {identity : Identity} {history : History} (hrun : Reach C epoch (.start identity history now) x) :
    x.Kept epoch := by
  induction hrun with
  | refl => refine ⟨.new now, nofun, nofun, nodup_nil⟩
  | tail _ hstep ih => exact hstep.kept ih

/-- **No message is accepted twice under one timestamp**, and what entered the replay cache is in it until it is out of the window. -/
theorem accepted_once {identity : Identity} {history : History} (hrun : Inbox.Reach C epoch (.start identity history now) x) :
    (x.accepted.map fun msg => (msg.fromDid, msg.id, msg.ts)).Nodup ∧
      ∀ msg ∈ x.entered, x.service.dedupe.contains msg.fromDid msg.id = true ∨ msg.ts.toNat + maxSkewMs < wallMs epoch x.now := by
  have hk := hrun.kept
  refine ⟨hk.once, fun msg hmsg => (hk.remembered msg hmsg).imp_left fun ⟨instant, hmem, _⟩ => ?_⟩
  exact (hk.paired.contains_iff _ _).2 ⟨instant, hmem⟩

/-! ## A message offered again -/

/-- Bytes that come in from an admitted sender. -/
def Inbox.offer (C : Crates) (x : Inbox) (sender : String) (data : List UInt8) (nowMs : UInt64) (now : Nat) : Inbox :=
  let result := x.service.processInbound C sender data nowMs now (fun _ => true) (fun _ => none)
  let incoming := incomingOf C data sender x.service.identity.did nowMs
  ⟨result.1, now, x.accepted ++ acceptedOf result.2 incoming, x.entered ++ enteredOf x.service.dedupe result.1.dedupe incoming⟩

/-- `dm.clear` of every conversation -/
def Inbox.clear (x : Inbox) : Inbox := { x with service := { x.service with history := .default } }

variable {x₀ : Inbox} {sender : String} {data : List UInt8} {nowMs : UInt64}

theorem Inbox.Reach.offer (h : Reach C epoch x₀ x) (hnow : x.now ≤ now) (hwall : nowMs.toNat = wallMs epoch now)
    (sender : String) (data : List UInt8) : Reach C epoch x₀ (x.offer C sender data nowMs now) :=
  h.tail (.inbound hnow hwall Prod.mk.eta.symm)

theorem Inbox.Reach.clear (h : Reach C epoch x₀ x) : Reach C epoch x₀ x.clear := h.tail (.history .default)

/-- `offer`, once the bytes are read -/
def Inbox.hear (x : Inbox) (sender : String) (incoming : Incoming) (nowMs : UInt64) (now : Nat) : Inbox :=
  let result := x.service.take sender incoming nowMs now fun _ => none
  ⟨result.1, now, x.accepted ++ acceptedOf result.2 (some incoming),
    x.entered ++ enteredOf x.service.dedupe result.1.dedupe (some incoming)⟩

theorem Inbox.offer_eq {incoming : Incoming}
    (hincoming : incomingOf C data sender x.service.identity.did nowMs = some incoming) :
    x.offer C sender data nowMs now = x.hear sender incoming nowMs now := by
  unfold Inbox.offer Inbox.hear
  rw [processInbound_of_incoming hincoming rfl, hincoming]

def sampleId : String := "0123456789abcdef0123456789abcdef"

def otherId : String := "fedcba9876543210fedcba9876543210"

/-- What ann sends to bob under an id. -/
def hello (id : String) (ts : UInt64) : List UInt8 := (buildMessage dmCrates annIdentity bob id ts (some "hello") none).toOption.getD []

/-- The same, as bob reads it. -/
def heard (id : String) (ts : UInt64) : Incoming := .message ⟨ann, id, ts, some "hello", none⟩

theorem Inbox.offer_hello {id : String} {ts : UInt64} (hidentity : x.service.identity = bobIdentity) (hid : isValidId id = true)
    (hbuild : (buildMessage dmCrates annIdentity bob id ts (some "hello") none).isOk = true)
    (hskew : absDiff ts nowMs ≤ maxSkewMs) :
    x.offer dmCrates (annIdentity.nodeId dmCrates) (hello id ts) nowMs now =
      x.hear (annIdentity.nodeId dmCrates) (heard id ts) nowMs now := by
  obtain ⟨data, hdata⟩ := isOk_eq_true.1 hbuild
  refine Inbox.offer_eq ?_
  rw [hidentity, hello, hdata]
  exact incomingOf_buildMessage annIdentity_signs hdata (show ann ≠ bob by decide) hskew hid

theorem first_isOk : (buildMessage dmCrates annIdentity bob sampleId 0 (some "hello") none).isOk = true := by decide +kernel

/-- In nanoseconds -/
def minute : Nat := 60000 * nsPerMs

/-- ann's message comes in. -/
def Inbox.first : Inbox := (Inbox.start bobIdentity .default 0).hear (annIdentity.nodeId dmCrates) (heard sampleId 0) 0 0

theorem Inbox.reach_first : Reach dmCrates 0 (.start bobIdentity .default 0) .first := by
  have hrun : Reach dmCrates 0 (.start bobIdentity .default 0) _ := Reach.refl.offer (Nat.le_refl 0)
    (show (0 : UInt64).toNat = _ from rfl) (annIdentity.nodeId dmCrates) (hello sampleId 0)
  rw [Inbox.offer_hello] at hrun
  · exact hrun
  · rfl
  · decide
  · exact first_isOk
  · decide

/-- ann's message is offered again after a minute, and once more after another, the history cleared in between. -/
theorem accepted_once_ann : ∃ x, Inbox.Reach dmCrates 0 (.start bobIdentity .default 0) x ∧
    x.accepted = [⟨ann, sampleId, 0, some "hello", none⟩] ∧
    let y := (x.offer dmCrates (annIdentity.nodeId dmCrates) (hello sampleId 0) 60000 minute).clear.offer
      dmCrates (annIdentity.nodeId dmCrates) (hello sampleId 0) 120000 (2 * minute)
    Inbox.Reach dmCrates 0 (.start bobIdentity .default 0) y ∧ y.accepted = [⟨ann, sampleId, 0, some "hello", none⟩] ∧
    (y.accepted.map fun msg => (msg.fromDid, msg.id, msg.ts)).Nodup ∧
      ∀ msg ∈ y.entered, y.service.dedupe.contains msg.fromDid msg.id = true ∨ msg.ts.toNat + maxSkewMs < wallMs 0 y.now := by
  have hrun := ((Inbox.reach_first.offer (Nat.zero_le minute) (show (60000 : UInt64).toNat = _ by decide)
    (annIdentity.nodeId dmCrates) (hello sampleId 0)).clear).offer (show minute ≤ 2 * minute by decide)
    (show (120000 : UInt64).toNat = _ by decide) (annIdentity.nodeId dmCrates) (hello sampleId 0)
  refine ⟨.first, Inbox.reach_first, rfl, hrun, ?_, accepted_once hrun⟩
  rw [Inbox.offer_hello (x := .first), Inbox.offer_hello]
  · rfl
  · rfl
  · decide
  · exact first_isOk
  · decide
  · rfl
  · decide
  · exact first_isOk
  · decide

/-- Once the cache has forgotten a message and the history is cleared, another one of the same id is accepted. -/
theorem id_accepted_twice : ¬ ∀ x, Inbox.Reach dmCrates 0 (.start bobIdentity .default 0) x →
    (x.accepted.map fun msg => (msg.fromDid, msg.id)).Nodup := by
  intro hall
  -- 26 minutes later another message makes the cache forget the first one
  have hnodup := hall _ (((Inbox.reach_first.clear.offer (Nat.zero_le (26 * minute))
    (show (1560000 : UInt64).toNat = _ by decide) (annIdentity.nodeId dmCrates) (hello otherId 1560000)).clear).offer (Nat.le_refl _)
    (show (1560000 : UInt64).toNat = _ by decide) (annIdentity.nodeId dmCrates) (hello sampleId 1560000))
  rw [Inbox.offer_hello (x := Inbox.first.clear), Inbox.offer_hello] at hnodup
  · exact absurd hnodup (by decide)
  · rfl
  · decide
  · decide +kernel
  · decide
  · rfl
  · decide
  · decide +kernel
  · decide

end Mistl.Dm
