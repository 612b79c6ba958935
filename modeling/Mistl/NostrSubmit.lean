import Mistl.ApiHttp
import Mistl.Lib.Recent
import Mistl.Lib.Runs
/-!
# NostrSubmit — events handed in by many callers at once

`Relay::submit` of `nostr/mod.rs`, one section under a lock after the other.  An event the store takes in is handed on by the
call that inserted it; `steady` says of a run that the store takes no event in twice around its recording.
-/
open List Mistl.Table Option

namespace Mistl.Nostr

def seenCapacity : Nat := 16384

def maxFutureSecs : Nat := 15 * 60

/-- The texts of the `Display` of an event's errors. -/
def EventError.text : EventError → String
  | .shape text => "invalid: " ++ text
  | .badId => "invalid: event id does not match"
  | .badSignature => "invalid: bad signature"

def rejectMessage (error : EventError) : String :=
  if "invalid:".toList.isPrefixOf error.text.toList then error.text else "invalid: " ++ error.text

inductive Origin where
  | client
  | mesh (room peer : String)
  | upstream (url : String)

/-- `matches!(origin, Origin::Upstream { .. })` -/
def Origin.isUpstream : Origin → Bool
  | .upstream _ => true
  | _ => false

structure Submitted where
  accepted : Bool
  message : String
  fresh : Bool
  deriving DecidableEq

namespace Submitted

def ok (fresh : Bool) (message : String) : Submitted := ⟨true, message, fresh⟩

def rejected (message : String) : Submitted := ⟨false, message, false⟩

end Submitted

abbrev Seen := Recent String seenCapacity

/-- Where a call stands: before the first section, before the store is asked, before the insertion, before the id is recorded, and
before the event is handed on. -/
inductive Call where
  | arrived (ev : Event) (origin : Origin) (now : Nat)
  | unseen (ev : Event) (origin : Origin) (now : Nat)
  | admitted (ev : Event) (origin : Origin) (now : Nat)
  | inserted (ev : Event) (origin : Origin)
  | recorded (ev : Event) (origin : Origin)

inductive What where
  | fresh
  | recorded
  | live
  | mesh
  | upstream
  | answered (answer : Submitted)
  deriving DecidableEq

structure Entry where
  call : Nat
  what : What
  id : String
  deriving DecidableEq

/-- The relay and the calls under way; `log` is what they have done so far. -/
structure Relay where
  writePubkeys : List String
  meshTx : Bool
  upstreamTx : Bool
  store : Store
  seen : Seen
  accepted : Nat
  rejected : Nat
  calls : Table Nat Call
  next : Nat
  log : List Entry

/-- An event is handed in, a call does its next section, or the log records are taken out or all marked again. -/
inductive Act where
  | submit (ev : Event) (origin : Origin) (now : Nat)
  | go (call : Nat)
  | takePending
  | markAllDirty

namespace Relay

def start (writePubkeys : List String) (meshTx upstreamTx : Bool) (store : Store) : Relay :=
  ⟨writePubkeys, meshTx, upstreamTx, store, .empty String seenCapacity, 0, 0, ∅, 0, []⟩

def advance (x : Relay) (c : Nat) (call : Call) : Relay := { x with calls := x.calls.insert c call }

def answer (x : Relay) (c : Nat) (id : String) (result : Submitted) : Relay := { x with
    accepted := if result.accepted then x.accepted + 1 else x.accepted
    rejected := if result.accepted then x.rejected else x.rejected + 1
    calls := x.calls.erase c
    log := x.log ++ [⟨c, .answered result, id⟩] }

def duplicate : Submitted := .ok false "duplicate: already have this event"

def admission (C : Crates) (schnorr : String → String → String → Bool) (x : Relay) (ev : Event) (now : Nat) : Except Submitted Unit :=
  match ev.verify C schnorr with
  | .error error => .error (.rejected (rejectMessage error))
  | .ok () =>
    if x.writePubkeys ≠ [] ∧ x.writePubkeys.any (fun pk => Api.eqIgnoreAsciiCase pk.toList ev.pubkey.toList) = false then
      .error (.rejected "restricted: this relay only accepts events from listed pubkeys")
    else if now + maxFutureSecs < ev.createdAt then .error (.rejected "invalid: created_at is too far in the future")
    else if expired ev now then .error (.rejected "invalid: event has expired")
    else .ok ()

/-- The event goes to the subscribers, and where there are any to the mesh and, unless it came from one, to the upstreams. -/
def outlets (x : Relay) (c : Nat) (ev : Event) (origin : Origin) : List Entry :=
  ⟨c, .live, ev.id⟩ :: ((if x.meshTx then [⟨c, .mesh, ev.id⟩] else []) ++
    if x.upstreamTx && !origin.isUpstream then [⟨c, .upstream, ev.id⟩] else [])

/-- One section of `submit`. -/
def proceed (C : Crates) (schnorr : String → String → String → Bool) (x : Relay) (c : Nat) : Call → Relay
  | .arrived ev origin now =>
    if ev.computeId C ≠ ev.id then x.answer c ev.id (.rejected (rejectMessage .badId))
    else if x.seen.contains ev.id then x.answer c ev.id duplicate
    else x.advance c (.unseen ev origin now)
  | .unseen ev origin now =>
    if x.store.contains ev.id then x.answer c ev.id duplicate
    else match admission C schnorr x ev now with
      | .error refusal => x.answer c ev.id refusal
      | .ok () => x.advance c (.admitted ev origin now)
  | .admitted ev origin _ =>
    match x.store.insert ev with
    | (_, .duplicate) => x.answer c ev.id duplicate
    | (_, .obsolete) => x.answer c ev.id (.ok false "duplicate: a newer version is stored")
    | (_, .deleted) => x.answer c ev.id (.rejected "blocked: this event was deleted by its author")
    | (store, _) => { x.advance c (.inserted ev origin) with store, log := x.log ++ [⟨c, .fresh, ev.id⟩] }
  | .inserted ev origin =>
    match x.seen.insert ev.id with
    | (seen, true) => { x.advance c (.recorded ev origin) with seen, log := x.log ++ [⟨c, .recorded, ev.id⟩] }
    | (seen, false) => { x.advance c (.recorded ev origin) with seen }
  | .recorded ev origin => { x with log := x.log ++ x.outlets c ev origin }.answer c ev.id (.ok true "")

def step (C : Crates) (schnorr : String → String → String → Bool) (x : Relay) : Act → Option Relay
  | .submit ev origin now => some { x.advance x.next (.arrived ev origin now) with next := x.next + 1 }
  | .go c => (x.calls.get c).map (x.proceed C schnorr c)
  | .takePending => some { x with store := x.store.takePending.1 }
  | .markAllDirty => some { x with store := x.store.markAllDirty }

def run (C : Crates) (schnorr : String → String → String → Bool) (x : Relay) (acts : List Act) : Option Relay :=
  Runs.run (step C schnorr) x acts

end Relay

/-! ## What keeps an event out of the store -/

/-- The store holds the event, or a deletion or a newer version of it; it holds nothing of an ephemeral one. -/
def Store.settled (s : Store) (ev : Event) : Bool := s.contains ev.id || (decide (ev.kindClass ≠ .ephemeral) &&
      ((decide (ev.kind ≠ 5) && s.deletedIds.values.contains (ev.id, ev.pubkey)) || (addressOf ev).any (fun address =>
          (s.deletedAddresses.values.get address).any (fun time => decide (ev.createdAt ≤ time)) || (s.current address).any (fun old =>
              decide (ev.createdAt < old.createdAt ∨ (old.createdAt = ev.createdAt ∧ old.id < ev.id))))))

theorem Store.insert_snd (s : Store) (ev : Event) : (s.insert ev).2 = s.outcome ev := by
  rw [insert]
  split
  · rename_i h
    rw [h]
  · rfl

theorem Store.settled_eq_false {s : Store} {ev : Event} :
    s.settled ev = false ↔ s.outcome ev = .stored ∨ s.outcome ev = .ephemeral := by
  rw [settled, outcome]
  by_cases hcontains : s.contains ev.id = true
  · simp [hcontains]
  rw [if_neg hcontains, Bool.eq_false_iff.2 hcontains]
  by_cases hclass : ev.kindClass = .ephemeral
  · simp [hclass]
  rw [if_neg hclass, decide_eq_true hclass]
  by_cases hdeleted : ev.kind ≠ 5 ∧ s.deletedIds.values.contains (ev.id, ev.pubkey) = true
  · rw [if_pos hdeleted, decide_eq_true hdeleted.1, hdeleted.2]
    simp
  have hkept : (decide (ev.kind ≠ 5) && s.deletedIds.values.contains (ev.id, ev.pubkey)) = false := by
    rw [Bool.and_eq_false_iff, decide_eq_false_iff_not, ← Bool.not_eq_true]
    exact not_and_or.1 hdeleted
  rw [if_neg hdeleted, hkept]
  cases addressOf ev with
  | none => simp
  | some address =>
    simp only [any_some]
    by_cases htime : (s.deletedAddresses.values.get address).any (fun time => decide (ev.createdAt ≤ time)) = true
    · rw [htime]
      simp
    rw [if_neg htime, Bool.eq_false_iff.2 htime]
    cases s.current address with
    | none => simp
    | some old =>
      simp only [any_some]
      split
      · rename_i hworse
        rw [decide_eq_true hworse]
        simp
      · rename_i hworse
        rw [decide_eq_false hworse]
        simp

/-! ## What the log says of a call -/

/-- What a call does for an event at most once, and only when the store took it in. -/
def What.once : What → Bool
  | .recorded => false
  | .answered answer => answer.fresh
  | _ => true

def Call.has : Call → What → Bool
  | .inserted .., what => decide (what = .fresh)
  | .recorded .., what => decide (what = .fresh ∨ what = .recorded)
  | _, _ => false

def Call.taken : Call → Option String
  | .inserted ev _ => some ev.id
  | .recorded ev _ => some ev.id
  | _ => none

def Call.awaits : Call → Option String
  | .inserted ev _ => some ev.id
  | _ => none

namespace Relay

structure Told (x : Relay) : Prop where
  nodup : x.log.Nodup
  known : ∀ e ∈ x.log, e.call < x.next
  numbered : ∀ c call, x.calls.get c = some call → c < x.next
  has : ∀ c call, x.calls.get c = some call → ∀ e ∈ x.log, e.call = c → call.has e.what = true
  taken : ∀ c call id, x.calls.get c = some call → call.taken = some id → ⟨c, .fresh, id⟩ ∈ x.log
  once : ∀ e ∈ x.log, e.what.once = true → ⟨e.call, .fresh, e.id⟩ ∈ x.log

variable {x x' : Relay} {call : Call} {c : Nat}

theorem Told.extend (h : x.Told) (hget : x.calls.get c = some call) (es : List Entry)
    (hlog : x'.log = x.log ++ es) (hnext : x'.next = x.next) (hnodup : es.Nodup)
    (hes : ∀ e ∈ es, e.call = c ∧ call.has e.what = false ∧ (e.what.once = true → ⟨c, .fresh, e.id⟩ ∈ x'.log))
    (hothers : ∀ d, d ≠ c → x'.calls.get d = x.calls.get d)
    (hcall : ∀ call', x'.calls.get c = some call' → (∀ what, call.has what = true ∨ (∃ e ∈ es, e.what = what) → call'.has what = true) ∧
        ∀ id, call'.taken = some id → ⟨c, .fresh, id⟩ ∈ x'.log) : x'.Told := by
  refine ⟨?_, fun e he => ?_, fun d call' hd => ?_, fun d call' hd e he hce => ?_, fun d call' id hd hid => ?_, fun e he honce => ?_⟩
  · rw [hlog, nodup_append]
    refine ⟨h.nodup, hnodup, fun e he e' he' heq => ?_⟩
    subst heq
    obtain ⟨hc, hnot, -⟩ := hes e he'
    rw [h.has c call hget e he hc] at hnot
    cases hnot
  · rw [hlog, mem_append] at he
    rw [hnext]
    rcases he with he | he
    · exact h.known e he
    · rw [(hes e he).1]
      exact h.numbered c call hget
  · rw [hnext]
    by_cases hdc : d = c
    · rw [hdc]
      exact h.numbered c call hget
    · exact h.numbered d call' (hothers d hdc ▸ hd)
  · rw [hlog, mem_append] at he
    by_cases hdc : d = c
    · subst hdc
      refine (hcall call' hd).1 e.what ?_
      rcases he with he | he
      · exact .inl (h.has d call hget e he hce)
      · exact .inr ⟨e, he, rfl⟩
    · rcases he with he | he
      · exact h.has d call' (hothers d hdc ▸ hd) e he hce
      · exact absurd (hce.symm.trans (hes e he).1) hdc
  · by_cases hdc : d = c
    · subst hdc
      exact (hcall call' hd).2 id hid
    · rw [hlog]
      exact mem_append_left _ (h.taken d call' id (hothers d hdc ▸ hd) hid)
  · rw [hlog, mem_append] at he
    rcases he with he | he
    · rw [hlog]
      exact mem_append_left _ (h.once e he honce)
    · rw [(hes e he).1]
      exact (hes e he).2.2 honce

theorem get_advance (x : Relay) (c d : Nat) (call : Call) :
    (x.advance c call).calls.get d = if d = c then some call else x.calls.get d := get_insert ..

theorem get_answer (x : Relay) (c d : Nat) (id : String) (result : Submitted) :
    (x.answer c id result).calls.get d = if d = c then none else x.calls.get d := get_erase ..

/-- **What a section does**: it answers with a refusal, goes on, takes the event in, records it, or hands it on. -/
theorem proceed_cases (C : Crates) (schnorr : String → String → String → Bool) (x : Relay) (c : Nat) (call : Call) :
    (∃ id result, call.taken = none ∧ result.fresh = false ∧ x.proceed C schnorr c call = x.answer c id result) ∨
    (∃ call', call.taken = none ∧ call'.taken = none ∧ x.proceed C schnorr c call = x.advance c call') ∨
    (∃ ev origin now store, call = .admitted ev origin now ∧ x.store.settled ev = false ∧ x.proceed C schnorr c call =
        { x.advance c (.inserted ev origin) with store, log := x.log ++ [⟨c, .fresh, ev.id⟩] }) ∨
    (∃ ev origin, call = .inserted ev origin ∧ x.proceed C schnorr c call = { x.advance c (.recorded ev origin) with
        seen := (x.seen.insert ev.id).1
        log := x.log ++ if (x.seen.insert ev.id).2 then [⟨c, .recorded, ev.id⟩] else [] }) ∨
    (∃ ev origin, call = .recorded ev origin ∧
      x.proceed C schnorr c call = { x with log := x.log ++ x.outlets c ev origin }.answer c ev.id (.ok true "")) := by
  cases call with
  | arrived ev origin now =>
    simp only [proceed]
    split
    · exact .inl ⟨_, _, rfl, rfl, rfl⟩
    split
    · exact .inl ⟨_, _, rfl, rfl, rfl⟩
    · exact .inr (.inl ⟨_, rfl, rfl, rfl⟩)
  | unseen ev origin now =>
    simp only [proceed]
    split
    · exact .inl ⟨_, _, rfl, rfl, rfl⟩
    have hfresh : ∀ refusal, admission C schnorr x ev now = .error refusal → refusal.fresh = false := by
      intro refusal h
      rw [admission] at h
      repeat' split at h
      all_goals cases h <;> rfl
    split
    · rename_i h
      exact .inl ⟨_, _, rfl, hfresh _ h, rfl⟩
    · exact .inr (.inl ⟨_, rfl, rfl, rfl⟩)
  | admitted ev origin now =>
    have hout := x.store.insert_snd ev
    simp only [proceed]
    split
    · exact .inl ⟨_, _, rfl, rfl, rfl⟩
    · exact .inl ⟨_, _, rfl, rfl, rfl⟩
    · exact .inl ⟨_, _, rfl, rfl, rfl⟩
    · rename_i store outcome hduplicate hobsolete hdeleted hinsert
      rw [hinsert] at hout
      refine .inr (.inr (.inl ⟨_, _, _, _, rfl, Store.settled_eq_false.2 ?_, rfl⟩))
      rw [← hout]
      cases outcome with
      | stored => exact .inl rfl
      | ephemeral => exact .inr rfl
      | duplicate => exact (hduplicate rfl).elim
      | obsolete => exact (hobsolete rfl).elim
      | deleted => exact (hdeleted rfl).elim
  | inserted ev origin =>
    refine .inr (.inr (.inr (.inl ⟨_, _, rfl, ?_⟩)))
    simp only [proceed]
    split
    · rename_i h
      rw [h, if_pos rfl]
    · rename_i h
      rw [h, if_neg Bool.false_ne_true, append_nil]
      rfl
  | recorded ev origin => exact .inr (.inr (.inr (.inr ⟨_, _, rfl, rfl⟩)))

theorem has_of_taken_none (h : call.taken = none) (what : What) : call.has what = false := by
  cases call <;> first | rfl | cases h

theorem told_start (writePubkeys : List String) (meshTx upstreamTx : Bool) (store : Store) :
    (start writePubkeys meshTx upstreamTx store).Told :=
  ⟨nodup_nil, fun _ he => (by cases he), fun _ _ h => (by cases h), fun _ _ h => (by cases h), fun _ _ _ h => (by cases h),
    fun _ he => (by cases he)⟩

theorem outlets_nodup (x : Relay) (c : Nat) (ev : Event) (origin : Origin) :
    (x.outlets c ev origin ++ [(⟨c, .answered (.ok true ""), ev.id⟩ : Entry)]).Nodup := by
  rw [outlets]
  cases x.meshTx <;> cases x.upstreamTx && !origin.isUpstream <;> simp

variable {e : Entry}

theorem mem_outlets {x : Relay} {ev : Event} {origin : Origin} (he : e ∈ x.outlets c ev origin) :
    e.call = c ∧ e.id = ev.id ∧ (e.what = .live ∨ e.what = .mesh ∨ e.what = .upstream) := by
  rcases mem_cons.1 he with rfl | he
  · exact ⟨rfl, rfl, .inl rfl⟩
  rcases mem_append.1 he with he | he
  · split at he
    · rw [mem_singleton.1 he]
      exact ⟨rfl, rfl, .inr (.inl rfl)⟩
    · cases he
  · split at he
    · rw [mem_singleton.1 he]
      exact ⟨rfl, rfl, .inr (.inr rfl)⟩
    · cases he

variable {schnorr : String → String → String → Bool} {C : Crates}

theorem told_proceed {x : Relay} (h : x.Told) 
    (hget : x.calls.get c = some call) : (x.proceed C schnorr c call).Told := by
  rcases proceed_cases C schnorr x c call with ⟨id, result, htaken, hfresh, hx⟩ | ⟨call', htaken, htaken', hx⟩ |
    ⟨ev, origin, now, store, rfl, -, hx⟩ | ⟨ev, origin, rfl, hx⟩ | ⟨ev, origin, rfl, hx⟩
  · rw [hx]
    refine h.extend hget [⟨c, .answered result, id⟩] rfl rfl (nodup_singleton _) (fun e he => ?_) (fun d hd => ?_)
      (fun call' hcall => ?_)
    · rw [mem_singleton.1 he]
      refine ⟨rfl, has_of_taken_none htaken _, fun honce => ?_⟩
      rw [What.once, hfresh] at honce
      cases honce
    · rw [get_answer, if_neg hd]
    · rw [get_answer, if_pos rfl] at hcall
      cases hcall
  · rw [hx]
    refine h.extend hget [] (append_nil _).symm rfl nodup_nil nofun (fun d hd => ?_)
      (fun call'' hcall => ?_)
    · rw [get_advance, if_neg hd]
    · rw [get_advance, if_pos rfl] at hcall
      cases hcall
      refine ⟨fun what hwhat => ?_, fun id hid => by rw [htaken'] at hid; cases hid⟩
      rcases hwhat with hwhat | ⟨e, he, -⟩
      · rw [has_of_taken_none htaken] at hwhat
        cases hwhat
      · cases he
  · rw [hx]
    have hmem : (⟨c, .fresh, ev.id⟩ : Entry) ∈ x.log ++ [⟨c, .fresh, ev.id⟩] := mem_append_right _ (mem_singleton_self _)
    refine h.extend hget [⟨c, .fresh, ev.id⟩] rfl rfl (nodup_singleton _) (fun e he => ?_)
      (fun d hd => (get_advance x c d _).trans (if_neg hd)) (fun call' hcall => ?_)
    · rw [mem_singleton.1 he]
      exact ⟨rfl, rfl, fun _ => hmem⟩
    · cases ((get_advance x c c _).trans (if_pos rfl)).symm.trans hcall
      refine ⟨fun what hwhat => ?_, fun id hid => by cases hid; exact hmem⟩
      rcases hwhat with hwhat | ⟨e, he, rfl⟩
      · cases hwhat
      · rw [mem_singleton.1 he]
        rfl
  · rw [hx]
    refine h.extend hget _ rfl rfl (by split <;> simp) (fun e he => ?_)
      (fun d hd => (get_advance x c d _).trans (if_neg hd)) (fun call' hcall => ?_)
    · split at he
      · rw [mem_singleton.1 he]
        exact ⟨rfl, rfl, nofun⟩
      · cases he
    · cases ((get_advance x c c _).trans (if_pos rfl)).symm.trans hcall
      refine ⟨fun what hwhat => ?_, fun id hid => mem_append_left _ (h.taken c _ id hget hid)⟩
      rcases hwhat with hwhat | ⟨e, he, rfl⟩
      · exact decide_eq_true (.inl (of_decide_eq_true hwhat))
      · split at he
        · rw [mem_singleton.1 he]
          rfl
        · cases he
  · have hmem : (⟨c, .fresh, ev.id⟩ : Entry) ∈ x.log := h.taken c _ ev.id hget rfl
    have hassoc := append_assoc x.log (x.outlets c ev origin) [⟨c, .answered (.ok true ""), ev.id⟩]
    refine h.extend hget _ hassoc rfl (x.outlets_nodup c ev origin) (fun e he => ?_) (fun d hd => ?_) (fun call' hcall => ?_)
    · have hlog : ∀ id, id = ev.id → (⟨c, .fresh, id⟩ : Entry) ∈
          ({ x with log := x.log ++ x.outlets c ev origin }.answer c ev.id (.ok true "")).log := by
        rintro _ rfl
        exact mem_append_left _ (mem_append_left _ hmem)
      rcases mem_append.1 he with he | he
      · obtain ⟨hc, hid, hwhat⟩ := mem_outlets he
        refine ⟨hc, ?_, fun _ => hlog _ hid⟩
        rcases hwhat with hwhat | hwhat | hwhat <;> rw [hwhat] <;> rfl
      · rw [mem_singleton.1 he]
        exact ⟨rfl, rfl, fun _ => hlog _ rfl⟩
    · exact (get_answer _ c d _ _).trans (if_neg hd)
    · cases ((get_answer _ c c _ _).trans (if_pos rfl)).symm.trans hcall

theorem told_step {act : Act} (h : x.Told) (hstep : step C schnorr x act = some x') : x'.Told := by
  cases act with
  | submit ev origin now =>
    cases hstep
    have hcalls : ∀ {c call}, (x.advance x.next (.arrived ev origin now)).calls.get c = some call →
        (c = x.next ∧ call = .arrived ev origin now) ∨ x.calls.get c = some call := by
      intro c call hget
      rw [get_advance] at hget
      split at hget
      · rename_i hc
        exact .inl ⟨hc, (Option.some.inj hget).symm⟩
      · exact .inr hget
    refine ⟨h.nodup, fun e he => Nat.lt_succ_of_lt (h.known e he), fun c call hget => ?_, fun c call hget e he hc => ?_,
      fun c call id hget hid => ?_, h.once⟩
    · rcases hcalls hget with ⟨rfl, -⟩ | hget
      · exact Nat.lt_succ_self _
      · exact Nat.lt_succ_of_lt (h.numbered c call hget)
    · rcases hcalls hget with ⟨rfl, -⟩ | hget
      · exact absurd hc (Nat.ne_of_lt (h.known e he))
      · exact h.has c call hget e he hc
    · rcases hcalls hget with ⟨-, rfl⟩ | hget
      · cases hid
      · exact h.taken c call id hget hid
  | go c =>
    obtain ⟨call, hget, rfl⟩ := map_eq_some_iff.1 hstep
    exact told_proceed h hget
  | takePending | markAllDirty =>
    cases hstep
    exact ⟨h.nodup, h.known, h.numbered, h.has, h.taken, h.once⟩

/-! ## How long an id is remembered -/

def Crowded (id : String) (log : List Entry) : Prop :=
  ∃ ids : List String, ids.Nodup ∧ id ∉ ids ∧ seenCapacity ≤ ids.length ∧ ∀ other ∈ ids, ∃ c, ⟨c, .recorded, other⟩ ∈ log

variable {id : String}

theorem Crowded.mono {log log' : List Entry} (h : Crowded id log) (hsub : ∀ e ∈ log, e ∈ log') : Crowded id log' := by
  obtain ⟨ids, hnodup, hid, hlen, hrecorded⟩ := h
  refine ⟨ids, hnodup, hid, hlen, fun other hother => ?_⟩
  obtain ⟨c, hc⟩ := hrecorded other hother
  exact ⟨c, hsub _ hc⟩

theorem Crowded.length_le {log : List Entry} (h : Crowded id log) : seenCapacity ≤ log.length := by
  obtain ⟨ids, hnodup, -, hlen, hrecorded⟩ := h
  have hsub : ids ⊆ log.map Entry.id := by
    intro other hother
    obtain ⟨c, hc⟩ := hrecorded other hother
    exact List.mem_map.2 ⟨_, hc, rfl⟩
  have := (subperm_of_subset hnodup hsub).length_le
  rw [length_map] at this
  exact Nat.le_trans hlen this

def Awaits (x : Relay) (c : Nat) (id : String) : Prop := ∃ call, x.calls.get c = some call ∧ call.awaits = some id

/-- An event a call has taken in is not remembered before it is recorded, and no other call takes it in meanwhile; it is remembered
then until as many others have come, and is taken in again only after that. -/
structure Windows (x : Relay) : Prop where
  awaiting : ∀ c id, x.Awaits c id → id ∉ x.seen.order ∧ ∀ d, x.Awaits d id → d = c
  window : ∀ i c id, x.log[i]? = some ⟨c, .fresh, id⟩ → x.Awaits c id ∨
    (∃ before after, x.seen.order = before ++ id :: after ∧ ∀ other ∈ after, ∃ d, ⟨d, .recorded, other⟩ ∈ x.log.drop (i + 1)) ∨
    Crowded id (x.log.drop (i + 1))
  apart : ∀ i j c d id, i < j → x.log[i]? = some ⟨c, .fresh, id⟩ → x.log[j]? = some ⟨d, .fresh, id⟩ →
    Crowded id ((x.log.take j).drop (i + 1))

theorem windows_start (writePubkeys : List String) (meshTx upstreamTx : Bool) (store : Store) :
    (start writePubkeys meshTx upstreamTx store).Windows := by
  refine ⟨?_, ?_, ?_⟩
  · rintro c id ⟨call, hcall, -⟩
    cases hcall
  · intro i c id h
    cases h
  · intro i j c d id hij h
    cases h

theorem drop_append_sub {log : List Entry} (es : List Entry) (n : Nat) : ∀ e ∈ log.drop n, e ∈ (log ++ es).drop n := by
  intro e he
  rw [drop_append]
  exact mem_append_left _ he

variable {log es : List Entry}

theorem mem_drop_append {n : Nat} (hn : n ≤ log.length) (he : e ∈ es) : e ∈ (log ++ es).drop n := by
  rw [drop_append_of_le_length hn]
  exact mem_append_right _ he

theorem lt_of_getElem? {log : List Entry} {i : Nat} (h : log[i]? = some e) : i < log.length := (List.getElem?_eq_some_iff.1 h).1

theorem getElem?_grown {i : Nat} (h : (log ++ es)[i]? = some e) (he : e ∉ es) : log[i]? = some e := by
  rw [getElem?_append] at h
  split at h
  · exact h
  · exact absurd (mem_of_getElem? h) he

theorem apart_grown {c d : Nat}
    (h : ∀ i j, i < j → log[i]? = some ⟨c, .fresh, id⟩ → log[j]? = some ⟨d, .fresh, id⟩ → Crowded id ((log.take j).drop (i + 1)))
    (hc : (⟨c, .fresh, id⟩ : Entry) ∉ es) (hd : (⟨d, .fresh, id⟩ : Entry) ∉ es) (i j : Nat) (hij : i < j)
    (hi : (log ++ es)[i]? = some ⟨c, .fresh, id⟩) (hj : (log ++ es)[j]? = some ⟨d, .fresh, id⟩) :
    Crowded id (((log ++ es).take j).drop (i + 1)) := by
  have hj := getElem?_grown hj hd
  rw [take_append_of_le_length (Nat.le_of_lt (lt_of_getElem? hj))]
  exact h i j hij (getElem?_grown hi hc) hj

theorem Windows.frame (h : x.Windows) (es : List Entry) (hlog : x'.log = x.log ++ es) (hseen : x'.seen = x.seen)
    (hes : ∀ e ∈ es, e.what ≠ .fresh) (hawaits : ∀ c id, x'.Awaits c id ↔ x.Awaits c id) : x'.Windows := by
  have hnot : ∀ c id, (⟨c, .fresh, id⟩ : Entry) ∉ es := fun c id he => hes _ he rfl
  refine ⟨fun c id hc => ?_, fun i c id hi => ?_, fun i j c d id hij hi hj => ?_⟩
  · obtain ⟨hout, hother⟩ := h.awaiting c id ((hawaits c id).1 hc)
    rw [hseen]
    exact ⟨hout, fun d hd => hother d ((hawaits d id).1 hd)⟩
  · rw [hlog] at hi ⊢
    rw [hseen, hawaits]
    rcases h.window i c id (getElem?_grown hi (hnot c id)) with hc | ⟨before, after, horder, hafter⟩ | hcrowd
    · exact .inl hc
    · refine .inr (.inl ⟨before, after, horder, fun other hother => ?_⟩)
      obtain ⟨d, hd⟩ := hafter other hother
      exact ⟨d, drop_append_sub es _ _ hd⟩
    · exact .inr (.inr (hcrowd.mono (drop_append_sub es _)))
  · rw [hlog] at hi hj ⊢
    exact apart_grown (fun i j => h.apart i j c d id) (hnot c id) (hnot d id) i j hij hi hj

theorem Windows.fresh (h : x.Windows) (hlog : x'.log = x.log ++ [⟨c, .fresh, id⟩])
    (hseen : x'.seen = x.seen) (hnew : id ∉ x.seen.order) (hfree : ∀ d, ¬x.Awaits d id)
    (hc : ∀ other, x'.Awaits c other ↔ other = id) (hnone : ∀ other, ¬x.Awaits c other)
    (hawaits : ∀ d other, d ≠ c → (x'.Awaits d other ↔ x.Awaits d other)) : x'.Windows := by
  have hold : ∀ {d other}, x'.Awaits d other → (d = c ∧ other = id) ∨ (d ≠ c ∧ x.Awaits d other) := by
    intro d other hd
    by_cases hdc : d = c
    · subst hdc
      exact .inl ⟨rfl, (hc other).1 hd⟩
    · exact .inr ⟨hdc, (hawaits d other hdc).1 hd⟩
  have hcrowded : ∀ i d, x.log[i]? = some ⟨d, .fresh, id⟩ → Crowded id (x.log.drop (i + 1)) := by
    intro i d hi
    rcases h.window i d id hi with hd | ⟨before, after, horder, -⟩ | hcrowd
    · exact absurd hd (hfree d)
    · exact absurd (horder ▸ mem_append_right _ mem_cons_self) hnew
    · exact hcrowd
  have hlast : ∀ {i d other}, (x.log ++ [⟨c, .fresh, id⟩])[i]? = some (⟨d, .fresh, other⟩ : Entry) →
      x.log[i]? = some ⟨d, .fresh, other⟩ ∨ (i = x.log.length ∧ d = c ∧ other = id) := by
    intro i d other hi
    rw [getElem?_append] at hi
    split at hi
    · exact .inl hi
    · obtain ⟨hlt, heq⟩ := List.getElem?_eq_some_iff.1 hi
      rw [length_singleton] at hlt
      cases (mem_singleton.1 (heq ▸ getElem_mem hlt))
      exact .inr ⟨by omega, rfl, rfl⟩
  refine ⟨fun d other hd => ?_, fun i d other hi => ?_, fun i j d e other hij hi hj => ?_⟩
  · rw [hseen]
    rcases hold hd with ⟨rfl, rfl⟩ | ⟨-, hd'⟩
    · refine ⟨hnew, fun e he => ?_⟩
      rcases hold he with ⟨rfl, -⟩ | ⟨-, he⟩
      · rfl
      · exact absurd he (hfree e)
    · refine ⟨(h.awaiting d other hd').1, fun e he => ?_⟩
      rcases hold he with ⟨rfl, rfl⟩ | ⟨-, he⟩
      · exact absurd hd' (hfree d)
      · exact (h.awaiting d other hd').2 e he
  · rw [hlog] at hi ⊢
    rw [hseen]
    rcases hlast hi with hi | ⟨-, rfl, rfl⟩
    · rcases h.window i d other hi with hd | ⟨before, after, horder, hafter⟩ | hcrowd
      · by_cases hdc : d = c
        · subst hdc
          exact absurd hd (hnone other)
        · exact .inl ((hawaits d other hdc).2 hd)
      · refine .inr (.inl ⟨before, after, horder, fun o ho => ?_⟩)
        obtain ⟨e, he⟩ := hafter o ho
        exact ⟨e, drop_append_sub _ _ _ he⟩
      · exact .inr (.inr (hcrowd.mono (drop_append_sub _ _)))
    · exact .inl ((hc other).2 rfl)
  · rw [hlog] at hi hj ⊢
    rcases hlast hj with hj | ⟨rfl, rfl, rfl⟩
    · have hjl := lt_of_getElem? hj
      rw [getElem?_append_left (Nat.lt_trans hij hjl)] at hi
      rw [take_append_of_le_length (Nat.le_of_lt hjl)]
      exact h.apart i j d e other hij hi hj
    · rw [getElem?_append_left hij] at hi
      rw [take_append_of_le_length (Nat.le_refl _), take_length]
      exact hcrowded i d hi

theorem Windows.record (h : x.Windows) (hcall : x.Awaits c id)
    (hc : ∀ other, x.Awaits c other → other = id) (hseen : x'.seen = (x.seen.insert id).1)
    (hlog : x'.log = x.log ++ if (x.seen.insert id).2 then [⟨c, .recorded, id⟩] else [])
    (hnone : ∀ other, ¬x'.Awaits c other) (hawaits : ∀ d other, d ≠ c → (x'.Awaits d other ↔ x.Awaits d other)) : x'.Windows := by
  obtain ⟨hnew, hother⟩ := h.awaiting c id hcall
  obtain ⟨htrue, horder'⟩ := Recent.insert_new hnew
  rw [htrue] at hlog
  have hnot : ∀ d other, (⟨d, .fresh, other⟩ : Entry) ∉ [(⟨c, .recorded, id⟩ : Entry)] := by
    intro d other he
    cases mem_singleton.1 he
  refine ⟨fun d other hd => ?_, fun i d other hi => ?_, fun i j d e other hij hi hj => ?_⟩
  · have hdc : d ≠ c := by
      rintro rfl
      exact hnone other hd
    have hd' := (hawaits d other hdc).1 hd
    obtain ⟨hout, hsame⟩ := h.awaiting d other hd'
    refine ⟨fun hin => ?_, fun e he => ?_⟩
    · rw [hseen] at hin
      rcases Recent.mem_of_insert hnew hin with rfl | hin
      · exact hdc (hother d hd')
      · exact hout hin
    · have hec : e ≠ c := by
        rintro rfl
        exact hnone other he
      exact hsame e ((hawaits e other hec).1 he)
  · rw [hlog] at hi ⊢
    replace hi := getElem?_grown hi (hnot d other)
    have hmem : ∀ o, o = id → ∃ e, (⟨e, .recorded, o⟩ : Entry) ∈ (x.log ++ [(⟨c, .recorded, id⟩ : Entry)]).drop (i + 1) := by
      rintro _ rfl
      exact ⟨c, mem_drop_append (lt_of_getElem? hi) (mem_singleton_self _)⟩
    rw [hseen]
    rcases h.window i d other hi with hd | ⟨before, after, horder, hafter⟩ | hcrowd
    · by_cases hdc : d = c
      · subst hdc
        rw [hc other hd, horder']
        exact .inr (.inl ⟨_, [], rfl, nofun⟩)
      · exact .inl ((hawaits d other hdc).2 hd)
    · have hafter' : ∀ o ∈ after ++ [id], ∃ e, (⟨e, .recorded, o⟩ : Entry) ∈ (x.log ++ [(⟨c, .recorded, id⟩ : Entry)]).drop (i + 1) := by
        intro o ho
        rcases mem_append.1 ho with ho | ho
        · obtain ⟨e, he⟩ := hafter o ho
          exact ⟨e, drop_append_sub _ _ _ he⟩
        · exact hmem o (mem_singleton.1 ho)
      rcases Recent.stays_or_goes hnew horder with ⟨before', hstays⟩ | hlen
      · exact .inr (.inl ⟨before', _, hstays, hafter'⟩)
      · obtain ⟨hnodup, hout⟩ := Recent.others_nodup hnew horder
        exact .inr (.inr ⟨_, hnodup, hout, hlen, hafter'⟩)
    · exact .inr (.inr (hcrowd.mono (drop_append_sub _ _)))
  · rw [hlog] at hi hj ⊢
    exact apart_grown (fun i j => h.apart i j d e other) (hnot d other) (hnot e other) i j hij hi hj

/-! ## Over a run -/

/-- An event that is remembered, or that a call has inserted and not recorded yet, is inserted only when the store still holds it, or
a deletion or a newer version of it. -/
def steady (x : Relay) : Act → Bool
  | .go c =>
    match x.calls.get c with
    | some (.admitted ev _ _) => (!x.seen.contains ev.id && x.calls.all (fun _ call => call.awaits != some ev.id)) || x.store.settled ev
    | _ => true
  | _ => true

theorem awaits_answer (x : Relay) (c d : Nat) (other id : String) (result : Submitted) :
    (x.answer c id result).Awaits d other ↔ d ≠ c ∧ x.Awaits d other := by
  unfold Awaits
  simp only [get_answer]
  by_cases hdc : d = c
  · simp [hdc]
  · simp [hdc]

theorem awaits_advance (x : Relay) (c d : Nat) (other : String) (call : Call) :
    (x.advance c call).Awaits d other ↔ if d = c then call.awaits = some other else x.Awaits d other := by
  unfold Awaits
  simp only [get_advance]
  by_cases hdc : d = c
  · simp [hdc]
  · simp [hdc]

theorem awaits_of_get {x : Relay} (hget : x.calls.get c = some call) (id : String) : x.Awaits c id ↔ call.awaits = some id := by
  unfold Awaits
  rw [hget]
  simp

theorem awaits_of_taken_none (h : call.taken = none) : call.awaits = none := by
  cases call <;> first | rfl | cases h

theorem windows_proceed {x : Relay} (h : x.Windows)
    (hget : x.calls.get c = some call) (hok : x.steady (.go c) = true) : (x.proceed C schnorr c call).Windows := by
  have hawaits := fun id => awaits_of_get hget id
  rcases proceed_cases C schnorr x c call with ⟨id, result, htaken, -, hx⟩ | ⟨call', htaken, htaken', hx⟩ |
    ⟨ev, origin, now, store, rfl, hsettled, hx⟩ | ⟨ev, origin, rfl, hx⟩ | ⟨ev, origin, rfl, hx⟩
  · rw [hx]
    refine h.frame [⟨c, .answered result, id⟩] rfl rfl (fun e he => ?_) (fun d other => ?_)
    · rw [mem_singleton.1 he]
      exact fun h => by cases h
    · rw [awaits_answer]
      refine ⟨And.right, fun hd => ⟨?_, hd⟩⟩
      rintro rfl
      rw [hawaits, awaits_of_taken_none htaken] at hd
      cases hd
  · rw [hx]
    refine h.frame [] (append_nil _).symm rfl (fun _ h => by cases h) (fun d other => ?_)
    rw [awaits_advance]
    split
    · rename_i hdc
      rw [hdc, hawaits, awaits_of_taken_none htaken, awaits_of_taken_none htaken']
    · rfl
  · rw [steady, hget] at hok
    simp only [hsettled, Bool.or_false, Bool.and_eq_true, Bool.not_eq_true', Table.all_eq_true, bne_iff_ne] at hok
    rw [hx]
    refine h.fresh rfl rfl (Recent.contains_eq_false.1 hok.1) ?_ (fun other => ?_) (fun other hc => ?_) (fun d other hdc => ?_)
    · rintro d ⟨call, hd, hcall⟩
      exact hok.2 d call hd hcall
    · refine (awaits_advance x c c other _).trans ?_
      rw [if_pos rfl, Call.awaits, some_inj]
      exact eq_comm
    · cases (hawaits other).1 hc
    · exact (awaits_advance x c d other _).trans (by rw [if_neg hdc])
  · rw [hx]
    refine h.record ((hawaits ev.id).2 rfl) (fun other hother => (Option.some.inj ((hawaits other).1 hother)).symm) rfl rfl
      (fun other hc => ?_) (fun d other hdc => ?_)
    · have := (awaits_advance x c c other _).1 hc
      rw [if_pos rfl] at this
      cases this
    · exact (awaits_advance x c d other _).trans (by rw [if_neg hdc])
  · have hassoc := append_assoc x.log (x.outlets c ev origin) [⟨c, .answered (.ok true ""), ev.id⟩]
    refine h.frame _ hassoc rfl (fun e he => ?_) (fun d other => ?_)
    · rcases mem_append.1 he with he | he
      · rcases (mem_outlets he).2.2 with hwhat | hwhat | hwhat <;> rw [hwhat] <;> exact fun h => by cases h
      · rw [mem_singleton.1 he]
        exact fun h => by cases h
    · refine (awaits_answer _ c d other ev.id _).trans ⟨And.right, fun hd => ⟨?_, hd⟩⟩
      rintro rfl
      cases (hawaits other).1 hd

theorem windows_step {act : Act} (htold : x.Told)
    (h : x.Windows) (hok : x.steady act = true) (hstep : step C schnorr x act = some x') : x'.Windows := by
  cases act with
  | submit ev origin now =>
    cases hstep
    refine h.frame [] (append_nil _).symm rfl nofun (fun d other => ?_)
    refine (awaits_advance x x.next d other _).trans ?_
    split
    · rename_i hd
      refine ⟨fun h => (by cases h), ?_⟩
      rintro ⟨call, hget, -⟩
      exact absurd (htold.numbered d call hget) (hd ▸ Nat.lt_irrefl _)
    · rfl
  | go c =>
    obtain ⟨call, hget, rfl⟩ := map_eq_some_iff.1 hstep
    exact windows_proceed h hget hok
  | takePending | markAllDirty =>
    cases hstep
    exact h.frame [] (append_nil _).symm rfl nofun fun _ _ => Iff.rfl

/-- No event is taken in twice, nor handed to the subscribers, the mesh or the upstreams, nor called fresh, unless as many others
were recorded between as are remembered. -/
def FreshOnce (log : List Entry) : Prop :=
  ∀ (i j c d : Nat) (what : What) (id : String), i < j → what.once = true → log[i]? = some ⟨c, what, id⟩ → log[j]? = some ⟨d, what, id⟩ →
    ∃ m n a b, m < n ∧ log[m]? = some ⟨a, .fresh, id⟩ ∧ log[n]? = some ⟨b, .fresh, id⟩ ∧ Crowded id ((log.take n).drop (m + 1))

theorem freshOnce_of_windows {x : Relay} (htold : x.Told) (h : x.Windows) : FreshOnce x.log := by
  intro i j c d what id hij honce hi hj
  have hne : c ≠ d := by
    rintro rfl
    exact absurd ((getElem?_inj (lt_of_getElem? hi) htold.nodup).1 (hi.trans hj.symm)) (Nat.ne_of_lt hij)
  obtain ⟨m, hm⟩ := mem_iff_getElem?.1 (htold.once _ (mem_of_getElem? hi) honce)
  obtain ⟨n, hn⟩ := mem_iff_getElem?.1 (htold.once _ (mem_of_getElem? hj) honce)
  rcases Nat.lt_trichotomy m n with hlt | rfl | hlt
  · exact ⟨m, n, c, d, hlt, hm, hn, h.apart m n c d id hlt hm hn⟩
  · cases hm.symm.trans hn
    exact absurd rfl hne
  · exact ⟨n, m, d, c, hlt, hn, hm, h.apart n m d c id hlt hn hm⟩

/-- **In a steady run every event is fresh at most once**, however the calls overlap. -/
theorem fresh_once (C : Crates) (schnorr : String → String → String → Bool) (writePubkeys : List String) (meshTx upstreamTx : Bool)
    (store : Store) (acts : List Act) (x : Relay) (hrun : run C schnorr (start writePubkeys meshTx upstreamTx store) acts = some x)
    (hsteady : Runs.along (step C schnorr) steady (start writePubkeys meshTx upstreamTx store) acts = true) : FreshOnce x.log := by
  have hinv := @Runs.invariant Relay Act (step C schnorr) steady (fun x => x.Told ∧ x.Windows)
    (fun _ _ _ h hok hstep => ⟨told_step h.1 hstep, windows_step h.1 h.2 hok hstep⟩) acts _ _
    ⟨told_start .., windows_start ..⟩ hsteady hrun
  exact freshOnce_of_windows hinv.1 hinv.2

/-! ## Two calls at once -/

def noticeId : String := "630b86019e42d6a055bddf2232da6c071a7f9778cdb9e4219aff1aa01d87b1b2"

def notice : Event := ⟨noticeId, String.ofList (List.replicate 64 'a'), 1, 20001, [], "", String.ofList (List.replicate 128 'b')⟩

def noticeCrates : Crates := sampleCrates [(Json.utf8 notice.canonicalJson, noticeId)]

def desk : Relay := start [] true false (.fresh 10 false)

def hands (c n : Nat) : List Act := .submit notice .client 10 :: List.replicate n (.go c)

theorem fresh_once_notice : ∃ x, run noticeCrates (fun _ _ _ => true) desk (hands 0 5 ++ hands 1 1) = some x ∧ FreshOnce x.log := by
  have hruns : (run noticeCrates (fun _ _ _ => true) desk (hands 0 5 ++ hands 1 1)).isSome = true := by decide
  obtain ⟨x, hrun⟩ := isSome_iff_exists.1 hruns
  exact ⟨x, hrun, fresh_once noticeCrates (fun _ _ _ => true) [] true false (.fresh 10 false) _ x hrun (by decide)⟩

/-- The second call passes the duplicate check before the first has recorded the event, and the store keeps nothing of it. -/
theorem fresh_twice : ¬ ∀ (C : Crates) (schnorr : String → String → String → Bool) (writePubkeys : List String)
    (meshTx upstreamTx : Bool) (store : Store) (acts : List Act) (x : Relay),
    run C schnorr (start writePubkeys meshTx upstreamTx store) acts = some x → FreshOnce x.log := by
  intro hall
  have hruns : (run noticeCrates (fun _ _ _ => true) desk (hands 0 3 ++ hands 1 3 ++ [.go 0, .go 0, .go 1, .go 1])).any (fun x =>
      decide (x.log[5]? = some ⟨0, .answered (.ok true ""), noticeId⟩ ∧
        x.log[8]? = some ⟨1, .answered (.ok true ""), noticeId⟩ ∧ x.log.length < seenCapacity)) = true := by decide
  obtain ⟨x, hrun, hx⟩ := (Option.any_eq_true _ _).1 hruns
  obtain ⟨hfirst, hsecond, hlen⟩ := of_decide_eq_true hx
  obtain ⟨m, n, a, b, -, -, -, hcrowded⟩ := hall _ _ _ _ _ _ _ x hrun 5 8 0 1 (.answered (.ok true "")) noticeId (by decide) rfl
    hfirst hsecond
  exact absurd (hcrowded.mono (fun e he => mem_of_mem_take (mem_of_mem_drop he))).length_le (Nat.not_le.2 hlen)

end Relay

end Mistl.Nostr
