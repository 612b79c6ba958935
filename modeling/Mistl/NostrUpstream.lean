import Mistl.Lib.Runs
import Mistl.NostrQuery
/-!
# NostrUpstream — the subscription to an upstream, over its disconnects

`nostr/upstream.rs`.  A session is sent what the upstream has stored, newest first, and then what comes in; the next one asks
from a minute before the newest event accepted.  `steady`: nothing that was still to come is older.
-/
open List Option

namespace Mistl.Nostr
namespace Upstream

def saturatingMul (a b : Nat) : Nat := min (a * b) (2 ^ 64 - 1)

/-- The start of the `sync_days` window. -/
def earliest (syncDays now : Nat) : Nat := now - saturatingMul syncDays 86400

/-- The resume point of `request` -/
def since (syncDays : Nat) (lastSeen : Option Nat) (now : Nat) : Nat :=
  lastSeen.elim (earliest syncDays now) (fun last => max (last - 60) (earliest syncDays now))

/-- The filters of `request`, from a resume point -/
def request (filters : List Filter) (since : Nat) : List Filter :=
  filters.map fun f => if f.since.isNone then { f with since := some since } else f

/-- An event for a configured filter that has no `since` of its own. -/
def wanted (filters : List Filter) (e : Event) : Bool := filters.any fun f => f.since.isNone && f.matches e

def subscribed (filters : List Filter) (e : Event) : Bool := filters.any fun f => f.matches e

/-- Where the connection stands: down; its REQ sent, with the start of the window then; or answered with what was stored, some
of it still to be sent, and some of what came in since. -/
inductive Session where
  | down
  | requested (filters : List Filter) (window : Nat)
  | live (filters : List Filter) (window : Nat) (snapshot replay stream : List Event)
  deriving DecidableEq

/-- The upstream's events and the connection to it; `submitted` are the ids handed to the local relay, by whomever. -/
structure Link where
  now : Nat
  stored : List Event
  submitted : Finset String
  lastSeen : Option Nat
  session : Session

/-- An event comes to the upstream, or to the local relay from elsewhere; the connection is made; the upstream answers the REQ;
an event is received, that the relay knows or accepts; the connection is gone; time passes. -/
inductive Act where
  | publish (e : Event)
  | submit (id : String)
  | connect
  | answer (replay : List Event)
  | deliver (knows accepted : Bool)
  | disconnect
  | pass (dt : Nat)

variable (filters : List Filter) (syncDays : Nat)

namespace Link

def start (now : Nat) (stored : List Event) : Link := ⟨now, stored, ∅, none, .down⟩

/-- `session`, for an event of the static subscription that is within the rate. -/
def ingest (x : Link) (e : Event) (knows accepted : Bool) (session : Session) : Option Link :=
  if knows then if e.id ∈ x.submitted then some { x with session := session } else none
  else some { x with
    submitted := insert e.id x.submitted
    lastSeen := if accepted then some (max (x.lastSeen.getD 0) e.createdAt) else x.lastSeen
    session := session }

def step (x : Link) : Act → Option Link
  | .publish e =>
    if e.createdAt ≤ x.now + 900 then
      match x.session with
      | .live fs window snapshot replay stream =>
        if subscribed fs e then
          some { x with stored := x.stored ++ [e], session := .live fs window snapshot replay (stream ++ [e]) }
        else some { x with stored := x.stored ++ [e] }
      | _ => some { x with stored := x.stored ++ [e] }
    else none
  | .submit id => some { x with submitted := insert id x.submitted }
  | .connect =>
    let fs := request filters (since syncDays x.lastSeen x.now)
    if x.session = .down then some { x with session := .requested fs (earliest syncDays x.now) } else none
  | .answer replay =>
    match x.session with
    | .requested fs window =>
      if (∀ e ∈ replay, e ∈ x.stored ∧ subscribed fs e = true) ∧ (∀ e ∈ x.stored, subscribed fs e = true → e ∈ replay) ∧
          replay.Pairwise (fun a b => b.createdAt ≤ a.createdAt) then
        some { x with session := .live fs window x.stored replay [] }
      else none
    | _ => none
  | .deliver knows accepted =>
    match x.session with
    | .live fs window snapshot (e :: replay) stream => x.ingest e knows accepted (.live fs window snapshot replay stream)
    | .live fs window snapshot [] (e :: stream) => x.ingest e knows accepted (.live fs window snapshot [] stream)
    | _ => none
  | .disconnect => if x.session = .down then none else some { x with session := .down }
  | .pass dt => some { x with now := x.now + dt }

def run (now : Nat) (stored : List Event) (acts : List Act) : Option Link := Runs.run (step filters syncDays) (start now stored) acts

def ahead (x : Link) (e : Event) : Bool := x.lastSeen.all (fun last => decide (last ≤ e.createdAt + 60))

def settled (x : Link) (window : Nat) (e : Event) : Bool :=
  !(wanted filters e && decide (window ≤ e.createdAt)) || decide (e.id ∈ x.submitted)

/-- What comes to the upstream matches the subscription, or with none is no older than the resume point reaches back; and
nothing is older that was not submitted when the connection goes. -/
def steady (x : Link) : Act → Bool
  | .publish e =>
    match x.session with
    | .down => x.settled filters (earliest syncDays x.now) e || x.ahead e
    | .requested fs window | .live fs window _ _ _ => x.settled filters window e || subscribed fs e
  | .disconnect => x.stored.all (fun e => x.settled filters (earliest syncDays x.now) e || x.ahead e)
  | _ => true

variable {filters syncDays} {x x' : Link} {act : Act}

variable {e : Event}

theorem subscribed_request {from_ : Nat} (hwanted : wanted filters e = true) (hfrom : from_ ≤ e.createdAt) :
    subscribed (request filters from_) e = true := by
  obtain ⟨f, hf, hmatch⟩ := List.any_eq_true.1 hwanted
  obtain ⟨hsince, hmatch⟩ := Bool.and_eq_true_iff.1 hmatch
  refine List.any_eq_true.2 ⟨{ f with since := some from_ }, List.mem_map.2 ⟨f, hf, if_pos hsince⟩, ?_⟩
  have hnone : f.since = none := isNone_iff_eq_none.1 hsince
  simp only [Filter.matches, hnone, all_none] at hmatch
  simpa only [Filter.matches, all_some, hfrom, decide_true, Bool.and_true] using hmatch

/-- A wanted event of the upstream that was not submitted. -/
structure Missing (filters : List Filter) (x : Link) (window : Nat) (e : Event) : Prop where
  stored : e ∈ x.stored
  wanted : wanted filters e = true
  inside : window ≤ e.createdAt
  missing : e.id ∉ x.submitted

variable {window : Nat}

theorem settled_eq_false (hwanted : Upstream.wanted filters e = true) (hinside : window ≤ e.createdAt)
    (hmissing : e.id ∉ x.submitted) : x.settled filters window e = false := by
  unfold settled
  rw [hwanted, decide_eq_true hinside, decide_eq_false hmissing]
  rfl

/-- What is missing is still to come: it is no older than the resume point reaches back, or matches the subscription, or is to
be sent. -/
def Coming (filters : List Filter) (syncDays : Nat) (x : Link) : Session → Prop
  | .down => ∀ e, Missing filters x (earliest syncDays x.now) e → x.ahead e = true
  | .requested fs window => window ≤ earliest syncDays x.now ∧ ∀ e, Missing filters x window e → subscribed fs e = true
  | .live _ window snapshot replay stream => window ≤ earliest syncDays x.now ∧
      (∀ e, Missing filters x window e → e ∈ replay ++ stream) ∧
      ∀ e ∈ snapshot, e ∈ x.stored ∧ (Missing filters x window e → e ∈ replay)

theorem start_coming (now : Nat) (stored : List Event) : Coming filters syncDays (start now stored) .down := fun _ _ => rfl

theorem earliest_mono (syncDays : Nat) {now now' : Nat} (h : now ≤ now') : earliest syncDays now ≤ earliest syncDays now' :=
  Nat.sub_le_sub_right h _

theorem of_settled_or {b : Bool} (hmissing : Missing filters x window e)
    (h : (x.settled filters window e || b) = true) : b = true := by
  rwa [settled_eq_false hmissing.wanted hmissing.inside hmissing.missing] at h

theorem since_le_of_ahead (hahead : x.ahead e = true) (hinside : earliest syncDays x.now ≤ e.createdAt) :
    since syncDays x.lastSeen x.now ≤ e.createdAt := by
  unfold Link.ahead at hahead
  cases hlast : x.lastSeen with
  | none => exact hinside
  | some last =>
    rw [hlast, all_some, decide_eq_true_eq] at hahead
    exact Nat.max_le.2 ⟨by omega, hinside⟩

variable {session : Session}

theorem missing_of_ingest {e d : Event} {knows accepted : Bool}
    (hingest : x.ingest d knows accepted session = some x') (h : Missing filters x' window e) :
    Missing filters x window e ∧ e ≠ d := by
  unfold Link.ingest at hingest
  split at hingest
  · split at hingest
    · rename_i hknown
      cases hingest
      exact ⟨⟨h.stored, h.wanted, h.inside, h.missing⟩, fun hd => h.missing (hd ▸ hknown)⟩
    · cases hingest
  · cases hingest
    exact ⟨⟨h.stored, h.wanted, h.inside, fun hmem => h.missing (Finset.mem_insert_of_mem hmem)⟩,
      fun hd => h.missing (hd ▸ Finset.mem_insert_self _ _)⟩

theorem frame_of_ingest {d : Event} {knows accepted : Bool}
    (hingest : x.ingest d knows accepted session = some x') : x'.session = session ∧ x'.now = x.now ∧ x'.stored = x.stored := by
  unfold Link.ingest at hingest
  split at hingest
  · split at hingest
    · cases hingest
      exact ⟨rfl, rfl, rfl⟩
    · cases hingest
  · cases hingest
    exact ⟨rfl, rfl, rfl⟩

theorem Coming.frame (h : Coming filters syncDays x session) (hstored : x'.stored = x.stored)
    (hnow : x.now ≤ x'.now) (hsubmitted : x.submitted ⊆ x'.submitted) (hlast : x'.lastSeen = x.lastSeen) :
    Coming filters syncDays x' session := by
  have hmissing : ∀ {window window' e}, window ≤ window' → Missing filters x' window' e → Missing filters x window e :=
    fun hle he => ⟨hstored ▸ he.stored, he.wanted, Nat.le_trans hle he.inside, fun hmem => he.missing (hsubmitted hmem)⟩
  have hearliest := earliest_mono syncDays hnow
  cases session with
  | down =>
    intro e he
    rw [ahead, hlast]
    exact h e (hmissing hearliest he)
  | requested fs window => exact ⟨Nat.le_trans h.1 hearliest, fun e he => h.2 e (hmissing (Nat.le_refl _) he)⟩
  | live fs window snapshot replay stream =>
    exact ⟨Nat.le_trans h.1 hearliest, fun e he => h.2.1 e (hmissing (Nat.le_refl _) he),
      fun e he => ⟨hstored ▸ (h.2.2 e he).1, fun hm => (h.2.2 e he).2 (hmissing (Nat.le_refl _) hm)⟩⟩

theorem coming_step (h : Coming filters syncDays x x.session) (hsteady : x.steady filters syncDays act = true)
    (hstep : x.step filters syncDays act = some x') : Coming filters syncDays x' x'.session := by
  cases act with
  | publish e =>
    obtain ⟨-, hstep⟩ := ite_none_right_eq_some.1 hstep
    -- what is missing then is missing now, or is the event itself
    have hsplit : ∀ {session window d}, Missing filters { x with stored := x.stored ++ [e], session := session } window d →
        Missing filters x window d ∨ d = e ∧ x.settled filters window e = false := by
      intro session window d hd
      rcases mem_append.1 hd.stored with hold | hnew
      · exact .inl ⟨hold, hd.wanted, hd.inside, hd.missing⟩
      · obtain rfl := mem_singleton.1 hnew
        exact .inr ⟨rfl, settled_eq_false hd.wanted hd.inside hd.missing⟩
    cases hsession : x.session with
    | down =>
      rw [hsession] at h
      simp only [steady, hsession] at hsteady
      simp only [hsession] at hstep
      cases hstep
      intro d hd
      rcases hsplit hd with hd | ⟨rfl, hopen⟩
      · exact h d hd
      · rwa [hopen] at hsteady
    | requested fs window =>
      rw [hsession] at h
      simp only [steady, hsession] at hsteady
      simp only [hsession] at hstep
      cases hstep
      refine ⟨h.1, fun d hd => ?_⟩
      rcases hsplit hd with hd | ⟨rfl, hopen⟩
      · exact h.2 d hd
      · rwa [hopen] at hsteady
    | live fs window snapshot replay stream =>
      rw [hsession] at h
      simp only [steady, hsession] at hsteady
      simp only [hsession] at hstep
      split at hstep
      · cases hstep
        refine ⟨h.1, fun d hd => ?_, fun d hd => ⟨mem_append_left _ (h.2.2 d hd).1, fun hm => ?_⟩⟩
        · rw [← append_assoc]
          rcases hsplit hd with hd | ⟨rfl, -⟩
          · exact mem_append_left _ (h.2.1 d hd)
          · exact mem_append_right _ mem_cons_self
        · obtain ⟨hstored, hreplay⟩ := h.2.2 d hd
          exact hreplay ⟨hstored, hm.wanted, hm.inside, hm.missing⟩
      · rename_i hnot
        cases hstep
        refine ⟨h.1, fun d hd => ?_, fun d hd => ⟨mem_append_left _ (h.2.2 d hd).1, fun hm => ?_⟩⟩
        · rcases hsplit hd with hd | ⟨rfl, hopen⟩
          · exact h.2.1 d hd
          · rw [hopen] at hsteady
            exact absurd hsteady hnot
        · obtain ⟨hstored, hreplay⟩ := h.2.2 d hd
          exact hreplay ⟨hstored, hm.wanted, hm.inside, hm.missing⟩
  | submit id =>
    cases hstep
    exact h.frame rfl (Nat.le_refl _) (Finset.subset_insert _ _) rfl
  | connect =>
    obtain ⟨hdown, hx⟩ := ite_none_right_eq_some.1 hstep
    cases hx
    rw [hdown] at h
    refine ⟨Nat.le_refl _, fun e he => ?_⟩
    have hmissing : Missing filters x (earliest syncDays x.now) e := ⟨he.stored, he.wanted, he.inside, he.missing⟩
    exact subscribed_request he.wanted (since_le_of_ahead (h e hmissing) he.inside)
  | answer replay =>
    simp only [Link.step] at hstep
    split at hstep
    · rename_i fs window hsession
      obtain ⟨⟨-, hall, -⟩, hx⟩ := ite_none_right_eq_some.1 hstep
      cases hx
      rw [hsession] at h
      have hmissing : ∀ e, Missing filters x window e → e ∈ replay := fun e he => hall e he.stored (h.2 e he)
      refine ⟨h.1, fun e he => ?_, fun e he => ⟨he, fun hm => ?_⟩⟩
      · rw [append_nil]
        exact hmissing e ⟨he.stored, he.wanted, he.inside, he.missing⟩
      · exact hmissing e ⟨hm.stored, hm.wanted, hm.inside, hm.missing⟩
    · cases hstep
  | deliver knows accepted =>
    simp only [Link.step] at hstep
    split at hstep
    · rename_i fs window snapshot d replay stream hsession
      obtain ⟨hsession', hnow, hstored⟩ := frame_of_ingest hstep
      rw [hsession] at h
      rw [hsession']
      refine ⟨by rw [hnow]; exact h.1, fun e he => ?_, fun e he => ⟨by rw [hstored]; exact (h.2.2 e he).1, fun hm => ?_⟩⟩
      · obtain ⟨hmissing, hne⟩ := missing_of_ingest hstep he
        exact (mem_cons.1 (h.2.1 e hmissing)).resolve_left hne
      · obtain ⟨hmissing, hne⟩ := missing_of_ingest hstep hm
        exact (mem_cons.1 ((h.2.2 e he).2 hmissing)).resolve_left hne
    · rename_i fs window snapshot d stream hsession
      obtain ⟨hsession', hnow, hstored⟩ := frame_of_ingest hstep
      rw [hsession] at h
      rw [hsession']
      refine ⟨by rw [hnow]; exact h.1, fun e he => ?_, fun e he => ⟨by rw [hstored]; exact (h.2.2 e he).1, fun hm => ?_⟩⟩
      · obtain ⟨hmissing, hne⟩ := missing_of_ingest hstep he
        exact (mem_cons.1 (h.2.1 e hmissing)).resolve_left hne
      · obtain ⟨hmissing, -⟩ := missing_of_ingest hstep hm
        exact (h.2.2 e he).2 hmissing
    · cases hstep
  | disconnect =>
    simp only [Link.step] at hstep
    split at hstep
    · cases hstep
    · cases hstep
      intro e he
      have hall := List.all_eq_true.1 hsteady e he.stored
      exact of_settled_or ⟨he.stored, he.wanted, he.inside, he.missing⟩ hall
  | pass dt =>
    cases hstep
    exact h.frame rfl (Nat.le_add_right _ _) (Finset.Subset.refl _) rfl

/-- **In a steady run a session whose REQ was fully answered has submitted all that the upstream had**, from the start of the
window on; and what came in since was submitted, or is the next to come. -/
theorem resumed (filters : List Filter) (syncDays now : Nat) (stored : List Event) (acts : List Act) (x : Link)
    (hrun : run filters syncDays now stored acts = some x)
    (hsteady : Runs.along (step filters syncDays) (steady filters syncDays) (start now stored) acts = true)
    (fs : List Filter) (window : Nat) (snapshot stream : List Event) (hanswered : x.session = .live fs window snapshot [] stream) :
    window ≤ earliest syncDays x.now ∧
    (∀ e ∈ snapshot, wanted filters e = true → window ≤ e.createdAt → e.id ∈ x.submitted) ∧
    ∀ e ∈ x.stored, wanted filters e = true → window ≤ e.createdAt → e.id ∈ x.submitted ∨ e ∈ stream := by
  have hcoming := @Runs.invariant Link Act (step filters syncDays) (steady filters syncDays)
    (fun x => Coming filters syncDays x x.session) (fun _ _ _ h hok hstep => coming_step h hok hstep) acts _ _
    (start_coming now stored) hsteady hrun
  simp only [hanswered] at hcoming
  obtain ⟨hwindow, hmissing, hsnapshot⟩ := hcoming
  refine ⟨hwindow, fun e he hwanted hinside => ?_, fun e he hwanted hinside => ?_⟩
  · by_contra hnot
    obtain ⟨hstored, hreplay⟩ := hsnapshot e he
    cases hreplay ⟨hstored, hwanted, hinside, hnot⟩
  · by_cases hsubmitted : e.id ∈ x.submitted
    · exact .inl hsubmitted
    · exact .inr (hmissing e ⟨he, hwanted, hinside, hsubmitted⟩)

/-! ## A connection that is gone in the middle of the replay -/

def noteAt (id : String) (createdAt : Nat) : Event := ⟨id, "alice", createdAt, 1, [], "", ""⟩

def begins : List Act := [.connect, .answer [noteAt "b" 90000, noteAt "a" 80000], .deliver false true]

/-- The connection goes in the middle of a replay whose rest is within the overlap, an event comes to the upstream
meanwhile, and the next session is answered in full; one more is on its way. -/
def resumes : List Act :=
  [.connect, .answer [noteAt "b" 90000, noteAt "a" 89980], .deliver false true, .disconnect, .publish (noteAt "c" 89990),
    .pass 30, .connect, .answer [noteAt "b" 90000, noteAt "c" 89990, noteAt "a" 89980], .deliver true true,
    .deliver false true, .deliver false true, .publish (noteAt "d" 90600)]

theorem resumed_whole : ∃ x, run [.default] 1 90000 [noteAt "a" 89980, noteAt "b" 90000] resumes = some x ∧ 3630 ≤ earliest 1 x.now ∧
    (∀ e ∈ [noteAt "a" 89980, noteAt "b" 90000, noteAt "c" 89990], wanted [.default] e = true → 3630 ≤ e.createdAt →
      e.id ∈ x.submitted) ∧
    ∀ e ∈ x.stored, wanted [.default] e = true → 3630 ≤ e.createdAt → e.id ∈ x.submitted ∨ e ∈ [noteAt "d" 90600] := by
  have hruns : (run [.default] 1 90000 [noteAt "a" 89980, noteAt "b" 90000] resumes).any (fun x =>
      decide (x.session = .live (request [.default] 89940) 3630 [noteAt "a" 89980, noteAt "b" 90000, noteAt "c" 89990] []
        [noteAt "d" 90600])) = true := by decide
  obtain ⟨x, hrun, hsession⟩ := (Option.any_eq_true _ _).1 hruns
  exact ⟨x, hrun, resumed [.default] 1 90000 _ _ x hrun (by decide) _ _ _ _ (of_decide_eq_true hsession)⟩

/-- The newest event is received first, and moves the resume point past what was still to come. -/
theorem gap : ¬ ∀ (filters : List Filter) (syncDays now : Nat) (stored : List Event) (acts : List Act) (x : Link),
    run filters syncDays now stored acts = some x → ∀ (fs : List Filter) (window : Nat) (snapshot stream : List Event),
    x.session = .live fs window snapshot [] stream →
    ∀ e ∈ snapshot, wanted filters e = true → window ≤ e.createdAt → e.id ∈ x.submitted := by
  intro hall
  have hruns : (run [.default] 1 90000 [noteAt "a" 80000, noteAt "b" 90000]
      (begins ++ [.disconnect, .connect, .answer [noteAt "b" 90000], .deliver true true])).any (fun x =>
      decide (x.session = .live (request [.default] 89940) 3600 [noteAt "a" 80000, noteAt "b" 90000] [] [] ∧
        "a" ∉ x.submitted)) = true := by decide
  obtain ⟨x, hrun, hx⟩ := (Option.any_eq_true _ _).1 hruns
  obtain ⟨hsession, hmissing⟩ := of_decide_eq_true hx
  exact hmissing (hall _ _ _ _ _ x hrun _ _ _ _ hsession (noteAt "a" 80000) mem_cons_self (by decide) (by decide))

end Link

end Upstream
end Mistl.Nostr
