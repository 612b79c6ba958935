import Mathlib.Algebra.BigOperators.Group.Finset.Basic
import Mathlib.Algebra.Order.BigOperators.Group.Finset
import Mistl.NostrConverge
import Mistl.NostrQuery
import Mistl.NostrWire
/-!
# NostrSync — catching up with a peer, page by page

What a peer answers to a request, and the session that asks for one page after another.  A page is asked for by the
oldest time of the page before it; a session ends at a page that is not full, or that does not get past the time it
was asked for.
-/
open List Mistl.Json Option

namespace Mistl.Nostr

def maxSessionPages : Nat := 20

def maxSessionEvents : Nat := 5000

def sessionTtl : Nat := 60000

def syncSpacing : Nat := 10000

/-! ## Batches -/

/-- The batches packed, the one being packed, and its size. -/
structure Packing where
  batches : List (List UInt8)
  chunk : List (List UInt8)
  size : Nat

/-- One round of the loop of `pack_batches`. -/
def packStep (overhead : Nat) (p : Packing) (ev : Event) : Packing :=
  if (eventBytes ev).isNone then p
  else
    let bytes := toVec ev.toJson
    if maxWireBytes < overhead + bytes.length then p
    else
      let comma := if p.chunk = [] then 0 else 1
      let p := if maxWireBytes < p.size + comma + bytes.length then
          ⟨p.batches ++ [finishBatch p.chunk true none], [], overhead⟩
        else p
      ⟨p.batches, p.chunk ++ [bytes], p.size + (if p.chunk = [] then 0 else 1) + bytes.length⟩

def oldest (events : List Event) : Option Nat := (events.map Event.createdAt).min?

def batchOverhead (full : Bool) (bound : Option Nat) : Nat :=
  batchPrefix.length + max (batchSuffix true none).length (batchSuffix full bound).length

def packBatches (events : List Event) (full : Bool) : List (List UInt8) :=
  let bound := if full then oldest events else none
  let overhead := batchOverhead full bound
  let p := events.foldl (packStep overhead) ⟨[], [], overhead⟩
  if p.chunk = [] then p.batches else p.batches ++ [finishBatch p.chunk full bound]

def answer (s : Store) (now : Nat) (bytes : List UInt8) : List (List UInt8) :=
  match Wire.decode bytes with
  | some (.sync since bound limit) =>
    if bound.any (fun bound => decide (bound < since)) then []
    else
      let limit := min limit maxPageEvents
      if limit = 0 then []
      else
        let events := s.query [{ Filter.default with since := some since, «until» := bound, limit := some limit }]
          maxPageEvents now
        packBatches events (decide (events.length = limit))
  | _ => []

/-! ## Sessions -/

structure Session where
  since : Nat
  «until» : Option Nat
  pages : Nat
  events : Nat
  pageEvents : Nat
  deadline : Nat
  due : Option Nat

namespace Session

def new (since now : Nat) : Session := ⟨since, none, 0, 0, 0, now + sessionTtl, none⟩

/-- `accept`: the session with the events counted, unless it does not accept them. -/
def accept (s : Session) (count now : Nat) : Option Session :=
  if s.deadline ≤ now ∨ s.due.isSome ∨ maxSessionPages ≤ s.pages ∨ maxSessionEvents < s.events + count ∨
      maxPageEvents < s.pageEvents + count then none
  else some { s with events := s.events + count, pageEvents := s.pageEvents + count }

/-- `finish`: the session with its next page scheduled, unless it is over. -/
def finish (s : Session) (more : Bool) (bound : Option Nat) (now : Nat) : Option Session :=
  let s := { s with pages := s.pages + 1 }
  match bound.filter (fun cursor => s.since ≤ cursor ∧ s.until.all (fun previous => decide (cursor < previous)) = true) with
  | none => none
  | some bound =>
    if more = false ∨ maxSessionPages ≤ s.pages ∨ maxSessionEvents ≤ s.events then none
    else some { s with «until» := some bound, pageEvents := 0, due := some (now + syncSpacing),
                       deadline := now + syncSpacing + sessionTtl }

/-- `process` of a message, of the peer the session is with: the session after it, and the events submitted. -/
def hear (session : Option Session) (bytes : List UInt8) (now : Nat) : Option Session × List Event :=
  match session, Wire.decode bytes with
  | some s, some (.batch events more bound) =>
    match s.accept events.length now with
    | none => (none, [])
    | some s =>
      (if more = false ∨ bound.isSome then s.finish more bound now else some s,
        events.filterMap (fun value => (Event.parse value).toOption))
  | session, _ => (session, [])

def hearAll : Option Session → List (List UInt8 × Nat) → Option Session × List Event
  | session, [] => (session, [])
  | session, arrival :: arrivals =>
    let r := hear session arrival.1 arrival.2
    let r' := hearAll r.1 arrivals
    (r'.1, r.2 ++ r'.2)

/-- `continuations`, for a session that is due: the next page is asked for. -/
def resume (s : Session) (now : Nat) : Session := { s with due := none, deadline := now + sessionTtl }

end Session

/-- A session whose messages all arrive in time, from its `k`th request on, and the events it submits.  `clock` is the
peer's clock at each request. -/
inductive Catches (s : Store) (clock : Nat → Nat) : Nat → Session → List Event → Prop where
  | done {k : Nat} {session : Session} {arrivals : List (List UInt8 × Nat)} {after : Option Session} {passed : List Event} :
      arrivals.map Prod.fst = answer s (clock k) (syncBytes session.since session.until) →
      (∀ a ∈ arrivals, a.2 < session.deadline) →
      Session.hearAll (some session) arrivals = (after, passed) → after.bind Session.due = none →
      Catches s clock k session passed
  | next {k : Nat} {session session' : Session} {arrivals : List (List UInt8 × Nat)} {passed rest : List Event}
      {due now : Nat} :
      arrivals.map Prod.fst = answer s (clock k) (syncBytes session.since session.until) →
      (∀ a ∈ arrivals, a.2 < session.deadline) →
      Session.hearAll (some session) arrivals = (some session', passed) → session'.due = some due → due ≤ now →
      now < session'.deadline → Catches s clock (k + 1) (session'.resume now) rest →
      Catches s clock k session (passed ++ rest)

/-! ## What is packed -/

def Event.Fits (overhead : Nat) (ev : Event) : Prop :=
  (eventBytes ev).isSome = true ∧ overhead + (toVec ev.toJson).length ≤ maxWireBytes

instance (overhead : Nat) (ev : Event) : Decidable (ev.Fits overhead) := by
  unfold Event.Fits
  infer_instance

def batchOf (events : List Event) (more : Bool) (bound : Option Nat) : List UInt8 :=
  finishBatch (events.map (fun e => toVec e.toJson)) more bound

theorem length_joined_append (b : List UInt8) : ∀ (l : List (List UInt8)),
    (joined (l ++ [b])).length = (joined l).length + (if l = [] then 0 else 1) + b.length
  | [] => by rw [nil_append, joined, joined, if_pos rfl, length_nil, Nat.zero_add]
  | [c] => by
    rw [if_neg (cons_ne_nil _ _), singleton_append, joined, joined, joined, length_append, length_cons]
    omega
  | c :: d :: l => by
    have ih := length_joined_append b (d :: l)
    rw [if_neg (cons_ne_nil _ _), cons_append] at ih
    rw [if_neg (cons_ne_nil _ _), cons_append, cons_append, joined, joined, length_append, length_cons, length_append, length_cons]
    omega

/-- The batches packed and the one being packed have the events that fit. -/
structure Packed (overhead : Nat) (sent : List Event) (p : Packing) (chunks : List (List Event)) (chunk : List Event) : Prop where
  batches : p.batches = chunks.map (fun c => batchOf c true none)
  current : p.chunk = chunk.map (fun e => toVec e.toJson)
  events : chunks.flatten ++ chunk = sent
  nonempty : ∀ c ∈ chunks, c ≠ []
  open_ : chunk = [] → chunks = []
  size : p.size = overhead + (joined p.chunk).length
  fits : ∀ c ∈ chunk :: chunks, c ≠ [] → overhead + (joined (c.map (fun e => toVec e.toJson))).length ≤ maxWireBytes

section Packed

variable {overhead : Nat} {sent : List Event} {p : Packing} {chunks : List (List Event)} {chunk : List Event}

theorem Packed.step (h : Packed overhead sent p chunks chunk) (ev : Event) : ∃ chunks' chunk',
    Packed overhead (sent ++ [ev].filter (fun e => e.Fits overhead)) (packStep overhead p ev) chunks' chunk' := by
  by_cases hfits : ev.Fits overhead
  swap
  · refine ⟨chunks, chunk, ?_⟩
    rw [filter_cons_of_neg (by simpa using hfits), filter_nil, append_nil]
    unfold packStep
    by_cases hbytes : (eventBytes ev).isNone
    · rw [if_pos hbytes]
      exact h
    · rw [if_neg hbytes, if_pos]
      · exact h
      · by_contra hle
        refine hfits ⟨?_, not_lt.1 hle⟩
        rw [Bool.not_eq_true, isNone_eq_false_iff] at hbytes
        exact hbytes
  rw [filter_cons_of_pos (by simpa using hfits), filter_nil]
  obtain ⟨hbytes, hlen⟩ := hfits
  have hsome : ¬(eventBytes ev).isNone = true := by
    rw [← not_isSome, hbytes]
    decide
  have hempty : p.chunk = [] ↔ chunk = [] := by rw [h.current, map_eq_nil_iff]
  unfold packStep
  rw [if_neg hsome, if_neg (not_lt.2 hlen)]
  simp only
  by_cases hover : maxWireBytes < p.size + (if p.chunk = [] then 0 else 1) + (toVec ev.toJson).length
  · rw [if_pos hover]
    have hne : chunk ≠ [] := by
      intro hnil
      rw [if_pos (hempty.2 hnil), h.size, hempty.2 hnil, joined, length_nil] at hover
      omega
    refine ⟨chunks ++ [chunk], [ev], ?_, rfl, ?_, ?_, fun hnil => absurd hnil (cons_ne_nil _ _), ?_, ?_⟩
    · rw [h.batches, map_append, map_singleton, batchOf, h.current]
    · rw [flatten_append, flatten_singleton, h.events]
    · intro c hc
      rcases mem_append.1 hc with hc | hc
      · exact h.nonempty c hc
      · rw [mem_singleton.1 hc]
        exact hne
    · rfl
    · intro c hc hcne
      rcases mem_cons.1 hc with rfl | hc
      · exact hlen
      · rcases mem_append.1 hc with hc | hc
        · exact h.fits c (mem_cons_of_mem _ hc) hcne
        · rw [mem_singleton.1 hc] at hcne ⊢
          exact h.fits chunk mem_cons_self hcne
  · rw [if_neg hover]
    refine ⟨chunks, chunk ++ [ev], h.batches, ?_, ?_, h.nonempty, fun hnil => ?_, ?_, ?_⟩
    · rw [h.current, map_append, map_singleton]
    · rw [← append_assoc, h.events]
    · exact absurd hnil (append_ne_nil_of_right_ne_nil _ (cons_ne_nil _ _))
    · rw [length_joined_append, h.size]
      show _ + _ + _ = _
      omega
    · intro c hc hcne
      rcases mem_cons.1 hc with rfl | hc
      · rw [map_append, map_singleton, ← h.current, length_joined_append]
        rw [h.size] at hover
        omega
      · exact h.fits c (mem_cons_of_mem _ hc) hcne

theorem Packed.foldl (events : List Event) {sent : List Event} {p : Packing} {chunks : List (List Event)}
    {chunk : List Event} (h : Packed overhead sent p chunks chunk) : ∃ chunks' chunk',
      Packed overhead (sent ++ events.filter (fun e => e.Fits overhead)) (events.foldl (packStep overhead) p) chunks' chunk' := by
  induction events generalizing sent p chunks chunk with
  | nil => exact ⟨chunks, chunk, by rw [filter_nil, append_nil]; exact h⟩
  | cons ev events ih =>
    obtain ⟨chunks', chunk', h'⟩ := h.step ev
    obtain ⟨chunks'', chunk'', h''⟩ := ih h'
    refine ⟨chunks'', chunk'', ?_⟩
    rw [append_assoc, ← filter_append] at h''
    exact h''

end Packed

def fitting (events : List Event) (full : Bool) : List Event :=
  events.filter (fun e => e.Fits (batchOverhead full (if full then oldest events else none)))

/-- **A page is sent in batches with the events that fit**, in their order; the last batch says whether the page is full,
and only that one has its cursor. -/
theorem packBatches_spec (events : List Event) (full : Bool) : (fitting events full = [] ∧ packBatches events full = []) ∨
    ∃ (chunks : List (List Event)) (last : List Event), last ≠ [] ∧ (∀ c ∈ chunks, c ≠ []) ∧
      chunks.flatten ++ last = fitting events full ∧
      packBatches events full = chunks.map (fun c => batchOf c true none) ++
        [batchOf last full (if full then oldest events else none)] ∧
      ∀ b ∈ packBatches events full, b.length ≤ maxWireBytes := by
  have hstart : Packed (batchOverhead full (if full then oldest events else none)) []
      ⟨[], [], batchOverhead full (if full then oldest events else none)⟩ [] [] :=
    ⟨rfl, rfl, rfl, nofun, fun _ => rfl, rfl, fun c hc hne => absurd (mem_singleton.1 hc) hne⟩
  obtain ⟨chunks, last, h⟩ := Packed.foldl events hstart
  rw [nil_append] at h
  unfold packBatches
  simp only
  generalize events.foldl _ _ = p at h ⊢
  by_cases hlast : last = []
  · refine Or.inl ⟨?_, ?_⟩
    · rw [fitting, ← h.events, hlast, h.open_ hlast]
      rfl
    · rw [h.current, hlast, map_nil, if_pos rfl, h.batches, h.open_ hlast, map_nil]
  · have hchunk : p.chunk ≠ [] := by
      rw [h.current]
      exact fun hnil => hlast (map_eq_nil_iff.1 hnil)
    rw [if_neg hchunk, h.batches, h.current]
    refine Or.inr ⟨chunks, last, hlast, h.nonempty, h.events, rfl, fun b hb => ?_⟩
    have hsuffix : batchPrefix.length + (batchSuffix true none).length ≤
        batchOverhead full (if full then oldest events else none) := Nat.add_le_add_left (le_max_left _ _) _
    have hsuffix' : batchPrefix.length + (batchSuffix full (if full then oldest events else none)).length ≤
        batchOverhead full (if full then oldest events else none) := Nat.add_le_add_left (le_max_right _ _) _
    rcases mem_append.1 hb with hb | hb
    · obtain ⟨c, hc, rfl⟩ := List.mem_map.1 hb
      have := h.fits c (mem_cons_of_mem _ hc) (h.nonempty c hc)
      rw [batchOf, finishBatch, length_append, length_append]
      omega
    · have := h.fits last mem_cons_self hlast
      rw [mem_singleton.1 hb, finishBatch, length_append, length_append]
      omega

/-! ## What a page brings -/

variable {events : List Event}

namespace Session

theorem hearAll_append : ∀ (session : Option Session) (a b : List (List UInt8 × Nat)), hearAll session (a ++ b) =
    ((hearAll (hearAll session a).1 b).1, (hearAll session a).2 ++ (hearAll (hearAll session a).1 b).2)
  | _, [], _ => rfl
  | session, arrival :: a, b => by
    rw [cons_append, hearAll, hearAll, hearAll_append _ a b]
    simp only [append_assoc]

theorem hear_batchOf {s s' : Session} {c : List Event} (more : Bool) (bound : Option Nat) {now : Nat}
    (hshaped : ∀ e ∈ c, e.Shaped) (hne : c ≠ []) (hpage : c.length ≤ maxPageEvents)
    (hb : ∀ b, bound = some b → b < 2 ^ 64) (hlen : (batchOf c more bound).length ≤ maxWireBytes)
    (haccept : s.accept c.length now = some s') : hear (some s) (batchOf c more bound) now =
      (if more = false ∨ bound.isSome then s'.finish more bound now else some s', c) := by
  have hdecode := decode_finishBatch hshaped hne hpage hb (hlen.trans (by decide))
  have hevents : (c.map readEvent).filterMap (fun value => (Event.parse value).toOption) = c := by
    rw [filterMap_map]
    refine (filterMap_congr (g := some) (fun e he => ?_)).trans filterMap_some
    rw [Function.comp_apply, parse_readEvent (hshaped e he)]
    rfl
  unfold hear
  rw [batchOf, hdecode]
  simp only [length_map, haccept, hevents]

def count (s : Session) (n : Nat) : Session := { s with events := s.events + n, pageEvents := s.pageEvents + n }

theorem accept_eq_some {s s' : Session} {n now : Nat} : s.accept n now = some s' ↔
    (now < s.deadline ∧ s.due = none ∧ s.pages < maxSessionPages ∧ s.events + n ≤ maxSessionEvents ∧
      s.pageEvents + n ≤ maxPageEvents) ∧ s' = s.count n := by
  unfold accept
  split
  · rename_i hrefused
    refine iff_of_false nofun (fun ⟨⟨h1, h2, h3, h4, h5⟩, _⟩ => ?_)
    simp only [h2, isSome_none, Bool.false_eq_true, false_or] at hrefused
    omega
  · rename_i hopen
    simp only [not_or, not_le, not_lt, Bool.not_eq_true, isSome_eq_false_iff, isNone_iff_eq_none] at hopen
    rw [Option.some.injEq, eq_comm (a := _) (b := s')]
    exact ⟨fun h => ⟨hopen, h⟩, And.right⟩

def scheduled (s : Session) (c now : Nat) : Session :=
  { s with pages := s.pages + 1, «until» := some c, pageEvents := 0, due := some (now + syncSpacing),
           deadline := now + syncSpacing + sessionTtl }

theorem finish_eq_some {s s' : Session} {more : Bool} {bound : Option Nat} {now : Nat} :
    s.finish more bound now = some s' ↔ (more = true ∧ s.pages + 1 < maxSessionPages ∧ s.events < maxSessionEvents) ∧
      ∃ c, bound = some c ∧ s.since ≤ c ∧ (∀ p, s.until = some p → c < p) ∧ s' = s.scheduled c now := by
  unfold finish
  dsimp only
  split
  · rename_i hnone
    refine iff_of_false nofun (fun ⟨_, c, hc, hle, hlt, _⟩ => ?_)
    rw [hc, filter_some, if_pos] at hnone
    · cases hnone
    · rw [decide_eq_true_eq, Option.all_eq_true]
      exact ⟨hle, fun p hp => decide_eq_true (hlt p hp)⟩
  · rename_i c hc
    obtain ⟨rfl, hcursor⟩ := filter_eq_some_iff.1 hc
    rw [decide_eq_true_eq, Option.all_eq_true] at hcursor
    split
    · rename_i hlast
      refine iff_of_false nofun (fun ⟨⟨h1, h2, h3⟩, _⟩ => ?_)
      simp only [h1, Bool.true_eq_false, false_or] at hlast
      omega
    · rename_i hmore
      simp only [not_or, not_le, Bool.not_eq_false] at hmore
      rw [Option.some.injEq, eq_comm]
      exact ⟨fun h => ⟨hmore, c, rfl, hcursor.1, fun p hp => of_decide_eq_true (hcursor.2 p hp), h⟩,
        fun ⟨_, _, hc, _, _, h⟩ => by cases hc; exact h⟩

theorem hearAll_chunks : ∀ {chunks : List (List Event)} {arrivals : List (List UInt8 × Nat)} {s : Session},
    arrivals.map Prod.fst = chunks.map (fun c => batchOf c true none) → (∀ a ∈ arrivals, a.2 < s.deadline) →
    (∀ c ∈ chunks, c ≠ [] ∧ ∀ e ∈ c, e.Shaped) → (∀ a ∈ arrivals, a.1.length ≤ maxWireBytes) → s.due = none →
    s.pages < maxSessionPages → s.events + chunks.flatten.length ≤ maxSessionEvents →
    s.pageEvents + chunks.flatten.length ≤ maxPageEvents →
    hearAll (some s) arrivals = (some (s.count chunks.flatten.length), chunks.flatten)
  | [], arrivals, s, harr, _, _, _, _, _, _, _ => by
    rw [map_nil, map_eq_nil_iff] at harr
    rw [harr]
    rfl
  | c :: chunks, arrivals, s, harr, htime, hshaped, hlen, hdue, hpages, hevents, hpage => by
    cases arrivals with
    | nil => cases harr
    | cons a arrivals =>
      rw [map_cons, map_cons, cons.injEq] at harr
      rw [flatten_cons, length_append] at hevents hpage
      obtain ⟨hne, hc⟩ := hshaped c mem_cons_self
      have haccept : s.accept c.length a.2 = some (s.count c.length) :=
        accept_eq_some.2 ⟨⟨htime a mem_cons_self, hdue, hpages, by omega, by omega⟩, rfl⟩
      have hhear := hear_batchOf true none hc hne (by omega) nofun
        (harr.1 ▸ hlen a mem_cons_self) haccept
      rw [if_neg (by simp)] at hhear
      have ih := hearAll_chunks (s := s.count c.length) harr.2 (fun b hb => htime b (mem_cons_of_mem _ hb))
        (fun d hd => hshaped d (mem_cons_of_mem _ hd)) (fun b hb => hlen b (mem_cons_of_mem _ hb)) hdue hpages
        (by show s.events + c.length + _ ≤ _; omega) (by show s.pageEvents + c.length + _ ≤ _; omega)
      rw [hearAll, harr.1, hhear]
      simp only [ih]
      rw [flatten_cons, length_append]
      simp only [count, Nat.add_assoc]

/-- **A page brings the events that fit**, and then ends or is followed by the next, unless none of them fit. -/
theorem hearAll_page {full : Bool} {arrivals : List (List UInt8 × Nat)} {s : Session}
    (harr : arrivals.map Prod.fst = packBatches events full) (htime : ∀ a ∈ arrivals, a.2 < s.deadline)
    (hshaped : ∀ e ∈ events, e.Shaped) (hdue : s.due = none) (hpages : s.pages < maxSessionPages)
    (hevents : s.events + (fitting events full).length ≤ maxSessionEvents)
    (hpage : s.pageEvents + (fitting events full).length ≤ maxPageEvents) :
    (fitting events full = [] ∧ hearAll (some s) arrivals = (some s, [])) ∨
    (fitting events full ≠ [] ∧ ∃ now < s.deadline, hearAll (some s) arrivals =
      ((s.count (fitting events full).length).finish full (if full then oldest events else none) now, fitting events full)) := by
  rcases packBatches_spec events full with ⟨hnone, hpack⟩ | ⟨chunks, last, hlast, hne, hsent, hpack, hlen⟩
  · rw [hpack, map_eq_nil_iff] at harr
    rw [harr]
    exact Or.inl ⟨hnone, rfl⟩
  · have hmem : ∀ e, e ∈ chunks.flatten ++ last → e ∈ events := by
      intro e he
      rw [hsent] at he
      exact mem_of_mem_filter he
    have hlen' : ∀ a ∈ arrivals, a.1.length ≤ maxWireBytes := fun a ha => hlen _ (harr ▸ List.mem_map_of_mem ha)
    rw [hpack] at harr
    obtain ⟨before, final, rfl, hbefore, hsingle⟩ := map_eq_append_iff.1 harr
    obtain ⟨a, rfl, hfinal⟩ := map_eq_singleton_iff.1 hsingle
    rw [← hsent, length_append] at hevents hpage
    have hchunks := hearAll_chunks (s := s) hbefore (fun b hb => htime b (mem_append_left _ hb))
      (fun c hc => ⟨hne c hc, fun e he => hshaped e (hmem e (mem_append_left _ (mem_flatten_of_mem hc he)))⟩)
      (fun b hb => hlen' b (mem_append_left _ hb)) hdue hpages (by omega) (by omega)
    have ha : a ∈ before ++ [a] := mem_append_right _ mem_cons_self
    have haccept : (s.count chunks.flatten.length).accept last.length a.2 = some ((s.count chunks.flatten.length).count last.length) :=
      accept_eq_some.2 ⟨⟨htime a ha, hdue, hpages, by show s.events + _ + _ ≤ _; omega, by show s.pageEvents + _ + _ ≤ _; omega⟩, rfl⟩
    have hbound : ∀ b, (if full then oldest events else none) = some b → b < 2 ^ 64 := by
      intro b hb
      split at hb
      · obtain ⟨e, he, rfl⟩ := List.mem_map.1 (min?_mem hb)
        exact (hshaped e he).createdAt
      · cases hb
    have hhear := hear_batchOf full _ (fun e he => hshaped e (hmem e (mem_append_right _ he))) hlast (by omega)
      hbound (hfinal ▸ hlen' a ha) haccept
    have hover : full = false ∨ (if full then oldest events else none).isSome = true := by
      cases full with
      | false => exact Or.inl rfl
      | true =>
        right
        rw [if_pos rfl, oldest]
        obtain ⟨e, he⟩ := exists_mem_of_ne_nil _ hlast
        rw [isSome_min?_iff]
        exact ne_nil_of_mem (List.mem_map_of_mem (hmem e (mem_append_right _ he)))
    rw [if_pos hover] at hhear
    refine Or.inr ⟨?_, a.2, htime a ha, ?_⟩
    · rw [← hsent]
      exact append_ne_nil_of_right_ne_nil _ hlast
    · rw [hearAll_append, hchunks]
      simp only [hearAll, hfinal, hhear, append_nil]
      rw [← hsent, length_append]
      simp only [count, Nat.add_assoc]

end Session

/-! ## The pages of a catch-up -/

def Store.page (s : Store) (now since : Nat) (bound : Option Nat) : List Event :=
  s.query [{ Filter.default with since := some since, «until» := bound, limit := some maxPageEvents }] maxPageEvents now

def fullPage (events : List Event) : Bool := decide (events.length = maxPageEvents)

def nextCursor (events : List Event) (bound : Option Nat) : Option Nat :=
  if fullPage events then (oldest events).filter (fun c => bound.all (fun previous => decide (c < previous))) else none

def asked (s : Store) (clock : Nat → Nat) (since : Nat) : Nat → Option (Option Nat)
  | 0 => some none
  | k + 1 => (asked s clock since k).bind (fun bound => (nextCursor (s.page (clock k) since bound) bound).map some)

def sentAt (s : Store) (clock : Nat → Nat) (since k : Nat) : Nat := ((asked s clock since k).map (fun bound =>
    (fitting (s.page (clock k) since bound) (fullPage (s.page (clock k) since bound))).length)).getD 0

structure WithinCaps (s : Store) (clock : Nat → Nat) (since : Nat) : Prop where
  pages : asked s clock since maxSessionPages = none
  events : ∑ k ∈ Finset.range maxSessionPages, sentAt s clock since k ≤ maxSessionEvents

/-- Every full page has something to send. -/
def Sends (s : Store) (clock : Nat → Nat) (since : Nat) : Prop :=
  ∀ k bound, asked s clock since k = some bound → fullPage (s.page (clock k) since bound) = true →
    packBatches (s.page (clock k) since bound) true ≠ []

/-- Every full page gets past the time it was asked for. -/
def Advances (s : Store) (clock : Nat → Nat) (since : Nat) : Prop :=
  ∀ k bound, asked s clock since k = some bound → fullPage (s.page (clock k) since bound) = true →
    ∀ c, bound = some c → ∃ e ∈ s.page (clock k) since bound, e.createdAt < c

structure Steady (s : Store) (clock : Nat → Nat) (since : Nat) : Prop where
  sends : Sends s clock since
  advances : Advances s clock since

def Event.Sendable (ev : Event) : Prop := ∀ full, packBatches [ev] full ≠ []

variable {e : Event}

section Pages

variable {s : Store} {now since : Nat} {bound : Option Nat}

theorem matches_page :
    ({ Filter.default with since := some since, «until» := bound, limit := some maxPageEvents } : Filter).matches e = true ↔
      since ≤ e.createdAt ∧ ∀ c, bound = some c → e.createdAt ≤ c := by
  unfold Filter.matches
  simp only [Filter.default]
  cases bound with
  | none => simp
  | some c => simp

variable (now since bound) in
theorem page_length (h : s.Indexed) : (s.page now since bound).length ≤ maxPageEvents := by
  obtain ⟨listing, -, -, hpage⟩ := Store.query_single h
    { Filter.default with since := some since, «until» := bound, limit := some maxPageEvents } maxPageEvents now
  rw [Store.page, hpage]
  exact (length_take_le _ _).trans (min_le_right _ _)

theorem page_nodup (h : s.Indexed) : (s.page now since bound).Nodup := by
  obtain ⟨listing, hsorted, -, hpage⟩ := Store.query_single h
    { Filter.default with since := some since, «until» := bound, limit := some maxPageEvents } maxPageEvents now
  rw [Store.page, hpage]
  refine (hsorted.imp (fun hlt heq => ?_)).sublist (take_sublist _ _)
  rw [heq] at hlt
  exact lt_irrefl _ hlt

theorem mem_page (h : s.Indexed) (he : e ∈ s.page now since bound) :
    s.events.get e.id = some e ∧ expired e now = false ∧ since ≤ e.createdAt ∧ ∀ c, bound = some c → e.createdAt ≤ c := by
  obtain ⟨listing, -, hmem, hpage⟩ := Store.query_single h
    { Filter.default with since := some since, «until» := bound, limit := some maxPageEvents } maxPageEvents now
  rw [Store.page, hpage] at he
  have := (hmem e).1 (mem_of_mem_take he)
  rwa [matches_page] at this

theorem page_rest (h : s.Indexed) (he : s.events.get e.id = some e) (hx : expired e now = false)
    (hs : since ≤ e.createdAt) (hb : ∀ c, bound = some c → e.createdAt ≤ c) (hnot : e ∉ s.page now since bound) :
    fullPage (s.page now since bound) = true ∧ ∀ p ∈ s.page now since bound, e.createdAt ≤ p.createdAt := by
  obtain ⟨listing, hsorted, hmem, hpage⟩ := Store.query_single h
    { Filter.default with since := some since, «until» := bound, limit := some maxPageEvents } maxPageEvents now
  have hlimit : min (({ Filter.default with since := some since, «until» := bound, limit := some maxPageEvents } :
      Filter).limit.getD maxPageEvents) maxPageEvents = maxPageEvents := min_self _
  rw [hlimit] at hpage
  rw [Store.page, hpage] at hnot ⊢
  have hin : e ∈ listing := (hmem e).2 ⟨he, hx, matches_page.2 ⟨hs, hb⟩⟩
  rw [← take_append_drop maxPageEvents listing] at hin hsorted
  have hdrop : e ∈ listing.drop maxPageEvents := (mem_append.1 hin).resolve_left hnot
  constructor
  · have hlong : maxPageEvents < listing.length := by
      by_contra hle
      rw [drop_eq_nil_of_le (not_lt.1 hle)] at hdrop
      cases hdrop
    rw [fullPage, decide_eq_true_eq, length_take, min_eq_left hlong.le]
  · intro p hp
    rcases Store.answerKey_lt.1 ((pairwise_append.1 hsorted).2.2 p hp e hdrop) with hlt | ⟨heq, -⟩
    · exact hlt.le
    · exact heq.ge

theorem answer_syncBytes (hs : since < 2 ^ 64) (hb : ∀ c, bound = some c → since ≤ c ∧ c < 2 ^ 64) :
    answer s now (syncBytes since bound) = packBatches (s.page now since bound) (fullPage (s.page now since bound)) := by
  unfold answer
  rw [decode_syncBytes hs (fun c hc => (hb c hc).2)]
  have hany : bound.any (fun c => decide (c < since)) = false := by
    cases bound with
    | none => rfl
    | some c => simpa using (hb c rfl).1
  simp only [hany]
  rfl

end Pages

/-! ## What can be sent is sent -/

theorem length_utf8_digits : ∀ {text : List Char}, (∀ c ∈ text, c.isDigit = true) → (utf8 text).length = text.length
  | [], _ => rfl
  | c :: text, h => by
    have hsize : c.utf8Size = 1 := by
      have := h c mem_cons_self
      rw [Char.isDigit, Bool.and_eq_true, decide_eq_true_eq, decide_eq_true_eq] at this
      exact Char.utf8Size_eq_one_iff.2 (UInt32.le_trans this.2 (by decide))
    rw [utf8_cons, length_append, String.length_utf8EncodeChar, hsize, length_cons,
      length_utf8_digits (fun d hd => h d (mem_cons_of_mem _ hd)), Nat.add_comm]

theorem length_batchSuffix_le {more : Bool} {m n : Nat} (h : m ≤ n) :
    (batchSuffix more (some m)).length ≤ (batchSuffix more (some n)).length := by
  have hdigits : ∀ k : Nat, (utf8 (toString k).toList).length = (Nat.toDigits 10 k).length := by
    intro k
    rw [show (toString k).toList = Nat.toDigits 10 k from String.toList_ofList]
    exact length_utf8_digits (isDigit_toDigits k)
  have hmono : (Nat.toDigits 10 m).length ≤ (Nat.toDigits 10 n).length := by
    refine (Nat.length_toDigits_le_iff (by decide) Nat.length_toDigits_pos).2 (h.trans_lt ?_)
    exact (Nat.length_toDigits_le_iff (by decide) Nat.length_toDigits_pos).1 le_rfl
  simp only [batchSuffix, utf8_append, length_append, map_some, getD_some, hdigits]
  omega

theorem packBatches_eq_nil {full : Bool} : packBatches events full = [] ↔ fitting events full = [] := by
  rcases packBatches_spec events full with ⟨hnone, hpack⟩ | ⟨chunks, last, hlast, -, hsent, hpack, -⟩
  · exact iff_of_true hpack hnone
  · rw [hpack, ← hsent]
    exact ⟨fun h => absurd h (append_ne_nil_of_right_ne_nil _ (cons_ne_nil _ _)), fun h => absurd (append_eq_nil_iff.1 h).2 hlast⟩

theorem Event.Sendable.mem_fitting {ev : Event} (h : ev.Sendable) (he : ev ∈ events) (full : Bool) : ev ∈ fitting events full := by
  have halone : ev.Fits (batchOverhead full (if full then oldest [ev] else none)) := by
    by_contra hnot
    refine h full (packBatches_eq_nil.2 ?_)
    rw [fitting, filter_cons_of_neg (by simpa using hnot), filter_nil]
  rw [fitting, mem_filter]
  refine ⟨he, decide_eq_true ⟨halone.1, le_trans (Nat.add_le_add_right ?_ _) halone.2⟩⟩
  cases full with
  | false => exact le_rfl
  | true =>
    obtain ⟨c, hc⟩ : ∃ c, oldest events = some c := isSome_iff_exists.1 (isSome_min?_iff.2 (ne_nil_of_mem (List.mem_map_of_mem he)))
    have hle : c ≤ ev.createdAt := (min?_eq_some_iff.1 hc).2 _ (List.mem_map_of_mem he)
    have hone : oldest [ev] = some ev.createdAt := rfl
    rw [hc]
    exact Nat.add_le_add_left (max_le_max le_rfl (length_batchSuffix_le hle)) _

/-! ## A catch-up is complete -/

section Complete

variable {s : Store} {clock : Nat → Nat} {since : Nat}

theorem asked_bound (hi : s.Indexed) (hshaped : ∀ e, s.events.get e.id = some e → e.Shaped) {k c : Nat}
    (h : asked s clock since k = some (some c)) : since ≤ c ∧ c < 2 ^ 64 := by
  cases k with
  | zero => cases h
  | succ k =>
    obtain ⟨bound, -, hnext⟩ := bind_eq_some_iff.1 h
    obtain ⟨c', hc', heq⟩ := map_eq_some_iff.1 hnext
    cases heq
    unfold nextCursor at hc'
    split at hc'
    · obtain ⟨e, he, rfl⟩ := List.mem_map.1 (min?_mem (filter_eq_some_iff.1 hc').1)
      obtain ⟨hstored, -, hs, -⟩ := mem_page hi he
      exact ⟨hs, (hshaped e hstored).createdAt⟩
    · cases hc'

theorem WithinCaps.lt (h : WithinCaps s clock since) {k : Nat} {bound : Option Nat}
    (hk : asked s clock since k = some bound) : k < maxSessionPages := by
  have hnone : ∀ j, asked s clock since (maxSessionPages + j) = none := by
    intro j
    induction j with
    | zero => exact h.pages
    | succ j ih => rw [← Nat.add_assoc, asked, ih, bind_none]
  by_contra hle
  have := hnone (k - maxSessionPages)
  rw [Nat.add_sub_of_le (not_lt.1 hle), hk] at this
  cases this

def sentBefore (s : Store) (clock : Nat → Nat) (since k : Nat) : Nat := ∑ j ∈ Finset.range k, sentAt s clock since j

theorem WithinCaps.sentBefore_le (h : WithinCaps s clock since) {k : Nat} (hk : k ≤ maxSessionPages) :
    sentBefore s clock since k ≤ maxSessionEvents :=
  (Finset.sum_le_sum_of_subset (Finset.range_mono hk)).trans h.events

theorem sentBefore_succ {k : Nat} {bound : Option Nat} (hk : asked s clock since k = some bound) :
    sentBefore s clock since (k + 1) = sentBefore s clock since k +
      (fitting (s.page (clock k) since bound) (fullPage (s.page (clock k) since bound))).length := by
  rw [sentBefore, Finset.sum_range_succ, sentAt, hk]
  rfl

theorem Steady.asked_succ (h : Steady s clock since) {k : Nat} {bound : Option Nat}
    (hk : asked s clock since k = some bound) (hfull : fullPage (s.page (clock k) since bound) = true) :
    ∃ c, oldest (s.page (clock k) since bound) = some c ∧ (∀ p, bound = some p → c < p) ∧
      asked s clock since (k + 1) = some (some c) := by
  obtain ⟨c, hc⟩ : ∃ c, oldest (s.page (clock k) since bound) = some c := by
    refine isSome_iff_exists.1 (isSome_min?_iff.2 (fun hnil => ?_))
    rw [map_eq_nil_iff] at hnil
    rw [hnil] at hfull
    exact absurd hfull (by decide)
  have hlt : ∀ p, bound = some p → c < p := by
    intro p hp
    obtain ⟨e, he, hep⟩ := h.advances k bound hk hfull p hp
    exact ((min?_eq_some_iff.1 hc).2 _ (List.mem_map_of_mem he)).trans_lt hep
  refine ⟨c, hc, hlt, ?_⟩
  rw [asked, hk, bind_some, nextCursor, if_pos hfull, hc, filter_some, if_pos, map_some]
  cases bound with
  | none => rfl
  | some p => exact decide_eq_true (hlt p rfl)

/-- A session at one of the pages of a catch-up, its request sent. -/
structure Session.At (s : Store) (clock : Nat → Nat) (since k : Nat) (session : Session) : Prop where
  cursor : asked s clock since k = some session.until
  pages : session.pages = k
  pageEvents : session.pageEvents = 0
  events : session.events = sentBefore s clock since k
  due : session.due = none
  since : session.since = since

variable {k : Nat} {session : Session} {arrivals : List (List UInt8 × Nat)}

/-- What is heard of a page: the events of it that fit, and the end of the page if there are any. -/
theorem Session.At.heard (h : session.At s clock since k) (hi : s.Indexed)
    (hshaped : ∀ e, s.events.get e.id = some e → e.Shaped) (hsince : since < 2 ^ 64) (hcaps : WithinCaps s clock since)
    (harr : arrivals.map Prod.fst = answer s (clock k) (syncBytes session.since session.until))
    (htime : ∀ a ∈ arrivals, a.2 < session.deadline) {page : List Event}
    (hpage : s.page (clock k) since session.until = page) :
    (fitting page (fullPage page) = [] ∧ hearAll (some session) arrivals = (some session, [])) ∨
    (fitting page (fullPage page) ≠ [] ∧ ∃ now < session.deadline, hearAll (some session) arrivals =
      ((session.count (fitting page (fullPage page)).length).finish (fullPage page)
        (if fullPage page then oldest page else none) now, fitting page (fullPage page))) := by
  have hk := hcaps.lt h.cursor
  have hsucc := sentBefore_succ h.cursor
  have hsum := hcaps.sentBefore_le (k := k + 1) hk
  have hlen := page_length (clock k) since session.until hi
  have hfit := length_filter_le (fun e => decide (e.Fits (batchOverhead (fullPage page)
    (if fullPage page then oldest page else none)))) page
  rw [h.since, answer_syncBytes hsince (fun c hc => asked_bound hi hshaped (hc ▸ h.cursor)), hpage] at harr
  rw [hpage] at hsucc hlen
  refine Session.hearAll_page harr htime (fun e he => hshaped e (mem_page hi (hpage ▸ he)).1) h.due (h.pages ▸ hk) ?_ ?_
  · rw [h.events]
    omega
  · rw [h.pageEvents, Nat.zero_add]
    exact hfit.trans hlen

/-- **A page that arrives is submitted**, and where another is scheduled it is the next one of the catch-up. -/
theorem Session.At.page (h : session.At s clock since k) (hi : s.Indexed)
    (hshaped : ∀ e, s.events.get e.id = some e → e.Shaped) (hsince : since < 2 ^ 64) (hcaps : WithinCaps s clock since)
    (harr : arrivals.map Prod.fst = answer s (clock k) (syncBytes session.since session.until))
    (htime : ∀ a ∈ arrivals, a.2 < session.deadline) :
    (hearAll (some session) arrivals).2 =
      fitting (s.page (clock k) since session.until) (fullPage (s.page (clock k) since session.until)) ∧
    ∀ session' due now, (hearAll (some session) arrivals).1 = some session' → session'.due = some due →
      (session'.resume now).At s clock since (k + 1) := by
  rcases h.heard hi hshaped hsince hcaps harr htime rfl with ⟨hnone, hheard⟩ | ⟨-, now, -, hheard⟩
  · rw [hheard]
    refine ⟨hnone.symm, fun session' due _ hsome hdue => ?_⟩
    cases hsome
    rw [h.due] at hdue
    cases hdue
  · rw [hheard]
    refine ⟨rfl, fun session' due _ hsome _ => ?_⟩
    obtain ⟨⟨hfull, -, -⟩, c, hc, -, hlt, rfl⟩ := finish_eq_some.1 hsome
    have hnext : asked s clock since (k + 1) = some (some c) := by
      rw [if_pos hfull] at hc
      rw [asked, h.cursor, bind_some, nextCursor, if_pos hfull, hc, filter_some, if_pos, map_some]
      rw [Option.all_eq_true]
      exact fun p hp => decide_eq_true (hlt p hp)
    refine ⟨hnext, congrArg (· + 1) h.pages, rfl, ?_, rfl, h.since⟩
    rw [sentBefore_succ h.cursor, ← h.events]
    rfl

/-- Where a sendable event is left behind the next page is scheduled. -/
theorem Session.At.schedules (h : session.At s clock since k) (hi : s.Indexed)
    (hshaped : ∀ e, s.events.get e.id = some e → e.Shaped) (hsince : since < 2 ^ 64) (hcaps : WithinCaps s clock since)
    (hsteady : Steady s clock since)
    (harr : arrivals.map Prod.fst = answer s (clock k) (syncBytes session.since session.until))
    (htime : ∀ a ∈ arrivals, a.2 < session.deadline) (he : s.events.get e.id = some e)
    (hx : ∀ j, expired e (clock j) = false) (hs : since ≤ e.createdAt)
    (hb : ∀ c, session.until = some c → e.createdAt ≤ c) (hsend : e.Sendable)
    (hnot : e ∉ s.page (clock k) since session.until) :
    ∃ session' c now, (hearAll (some session) arrivals).1 = some session' ∧ session'.due = some (now + syncSpacing) ∧
      e.createdAt ≤ c ∧ session'.until = some c := by
  obtain ⟨hfull, hold⟩ := page_rest hi he (hx k) hs hb hnot
  obtain ⟨c, hc, hlt, hasked⟩ := hsteady.asked_succ h.cursor hfull
  have hec : e.createdAt ≤ c := by
    obtain ⟨p, hp, rfl⟩ := List.mem_map.1 (min?_mem hc)
    exact hold p hp
  -- the event left behind is on the next page, or that page is full: something is sent of it
  have hmore : 0 < (fitting (s.page (clock (k + 1)) since (some c))
      (fullPage (s.page (clock (k + 1)) since (some c)))).length := by
    rw [length_pos_iff]
    by_cases hon : e ∈ s.page (clock (k + 1)) since (some c)
    · exact ne_nil_of_mem (hsend.mem_fitting hon _)
    · have hfull' := (page_rest hi he (hx (k + 1)) hs (fun d hd => by cases hd; exact hec) hon).1
      rw [hfull']
      exact fun hnil => hsteady.sends (k + 1) (some c) hasked hfull' (packBatches_eq_nil.2 hnil)
  have hk' := hcaps.lt hasked
  have hsum' := hcaps.sentBefore_le (k := k + 2) hk'
  rw [sentBefore_succ hasked, sentBefore_succ h.cursor, ← h.events] at hsum'
  rcases h.heard hi hshaped hsince hcaps harr htime rfl with ⟨hnone, -⟩ | ⟨-, now, -, hheard⟩
  · rw [hfull] at hnone
    exact absurd (packBatches_eq_nil.2 hnone) (hsteady.sends k session.until h.cursor hfull)
  · rw [hheard]
    refine ⟨_, c, now, finish_eq_some.2 ⟨⟨hfull, ?_, ?_⟩, c, ?_, h.since ▸ (asked_bound hi hshaped hasked).1, hlt, rfl⟩, rfl, hec, rfl⟩
    · show session.pages + 1 < _
      rw [h.pages]
      exact hk'
    · show session.events + _ < _
      omega
    · rw [if_pos hfull, hc]

theorem Catches.complete {passed : List Event} (hcatch : Catches s clock k session passed) (hi : s.Indexed)
    (hshaped : ∀ e, s.events.get e.id = some e → e.Shaped) (hsince : since < 2 ^ 64) (hcaps : WithinCaps s clock since)
    (hsteady : Steady s clock since) (h : session.At s clock since k) (he : s.events.get e.id = some e)
    (hx : ∀ j, expired e (clock j) = false) (hs : since ≤ e.createdAt)
    (hb : ∀ c, session.until = some c → e.createdAt ≤ c) (hsend : e.Sendable) : e ∈ passed := by
  induction hcatch with
  | @done k session _ _ _ harr htime hheard hafter =>
    have hpassed := (h.page hi hshaped hsince hcaps harr htime).1
    rw [hheard] at hpassed
    dsimp only at hpassed
    by_cases hon : e ∈ s.page (clock k) since session.until
    · exact hpassed.symm ▸ hsend.mem_fitting hon _
    · obtain ⟨session', c, now, hsome, hdue, -⟩ := h.schedules hi hshaped hsince hcaps hsteady harr htime he hx hs hb hsend hon
      rw [hheard] at hsome
      dsimp only at hsome
      rw [hsome, bind_some, hdue] at hafter
      cases hafter
  | @next k session _ _ _ _ _ _ harr htime hheard hdue hnow hlive hrest ih =>
    obtain ⟨hpassed, hnext⟩ := h.page hi hshaped hsince hcaps harr htime
    rw [hheard] at hpassed hnext
    dsimp only at hpassed
    by_cases hon : e ∈ s.page (clock k) since session.until
    · exact mem_append_left _ (hpassed.symm ▸ hsend.mem_fitting hon _)
    · obtain ⟨session'', c, now', hsome, -, hec, huntil⟩ := h.schedules hi hshaped hsince hcaps hsteady harr htime he hx hs hb hsend hon
      rw [hheard] at hsome
      cases hsome
      refine mem_append_right _ (ih (hnext _ _ _ rfl hdue) (fun d hd => ?_))
      cases huntil.symm.trans hd
      exact hec

/-- What a catch-up submits is on the pages it asks for. -/
theorem Catches.mem_page {passed : List Event} (hcatch : Catches s clock k session passed) (hi : s.Indexed)
    (hshaped : ∀ e, s.events.get e.id = some e → e.Shaped) (hsince : since < 2 ^ 64) (hcaps : WithinCaps s clock since)
    (h : session.At s clock since k) (he : e ∈ passed) :
    ∃ j bound, asked s clock since j = some bound ∧ e ∈ fitting (s.page (clock j) since bound)
      (fullPage (s.page (clock j) since bound)) := by
  induction hcatch with
  | done harr htime hheard _ =>
    have hpassed := (h.page hi hshaped hsince hcaps harr htime).1
    rw [hheard] at hpassed
    exact ⟨_, _, h.cursor, hpassed ▸ he⟩
  | next harr htime hheard hdue _ _ _ ih =>
    obtain ⟨hpassed, hnext⟩ := h.page hi hshaped hsince hcaps harr htime
    rw [hheard] at hpassed hnext
    rcases mem_append.1 he with he | he
    · exact ⟨_, _, h.cursor, hpassed ▸ he⟩
    · exact ih (hnext _ _ _ rfl hdue) he

theorem Session.new_at (now : Nat) : (Session.new since now).At s clock since 0 := ⟨rfl, rfl, rfl, rfl, rfl, rfl⟩

end Complete

/-! ## A catch-up ends -/

/-- What a session from page `p` on becomes: it waits for its page, or its next page is scheduled. -/
def Session.Goes (p : Nat) (s : Session) : Prop :=
  (s.due = none ∧ p ≤ s.pages) ∨ ∃ due, s.due = some due ∧ due < s.deadline ∧ p < s.pages ∧ s.pages < maxSessionPages

theorem Session.hear_goes {p : Nat} {s s' : Session} (h : s.Goes p) {bytes : List UInt8} {now : Nat}
    (hs : (hear (some s) bytes now).1 = some s') : s'.Goes p := by
  cases hw : Wire.decode bytes with
  | none =>
    unfold hear at hs
    rw [hw] at hs
    cases hs
    exact h
  | some w =>
    unfold hear at hs
    rw [hw] at hs
    cases w with
    | batch events more bound =>
      simp only at hs
      cases hacc : s.accept events.length now with
      | none =>
        rw [hacc] at hs
        cases hs
      | some s₁ =>
        rw [hacc] at hs
        obtain ⟨⟨-, hdue, -⟩, rfl⟩ := accept_eq_some.1 hacc
        have hp : p ≤ s.pages := by
          rcases h with ⟨-, hp⟩ | ⟨due, hdue', -⟩
          · exact hp
          · rw [hdue] at hdue'
            cases hdue'
        simp only at hs
        split at hs
        · obtain ⟨⟨-, hpages, -⟩, c, -, -, -, rfl⟩ := finish_eq_some.1 hs
          exact Or.inr ⟨_, rfl, Nat.lt_add_of_pos_right (by decide), Nat.lt_succ_of_le hp, hpages⟩
        · cases hs
          exact Or.inl ⟨hdue, hp⟩
    | _ =>
      cases hs
      exact h

theorem Session.hear_none (bytes : List UInt8) (now : Nat) : hear none bytes now = (none, []) := by
  unfold hear
  split
  · rename_i heq _
    cases heq
  · rfl

theorem Session.hearAll_none : ∀ (arrivals : List (List UInt8 × Nat)), hearAll none arrivals = (none, [])
  | [] => rfl
  | a :: arrivals => by
    rw [hearAll, hear_none]
    simp only [hearAll_none arrivals, append_nil]

theorem Session.hearAll_goes {p : Nat} : ∀ (arrivals : List (List UInt8 × Nat)) {s s' : Session}, s.Goes p →
    (hearAll (some s) arrivals).1 = some s' → s'.Goes p
  | [], _, _, h, hs => by
    cases hs
    exact h
  | a :: arrivals, s, s', h, hs => by
    rw [hearAll] at hs
    cases hfirst : (hear (some s) a.1 a.2).1 with
    | none =>
      rw [hfirst, hearAll_none] at hs
      cases hs
    | some s₁ =>
      rw [hfirst] at hs
      exact hearAll_goes arrivals (hear_goes h hfirst) hs

theorem arrivals_exist (batches : List (List UInt8)) {deadline : Nat} (h : 0 < deadline) :
    ∃ arrivals : List (List UInt8 × Nat), arrivals.map Prod.fst = batches ∧ ∀ a ∈ arrivals, a.2 < deadline := by
  refine ⟨batches.map (fun b => (b, 0)), ?_, fun a ha => ?_⟩
  · rw [List.map_map]
    exact List.map_id _
  · obtain ⟨b, -, rfl⟩ := List.mem_map.1 ha
    exact h

theorem catches_end (s : Store) (clock : Nat → Nat) (n : Nat) {session : Session} (hdue : session.due = none)
    (hlive : 0 < session.deadline) (hn : maxSessionPages ≤ session.pages + n) (k : Nat) :
    ∃ passed, Catches s clock k session passed := by
  induction n generalizing session k with
  | zero =>
    obtain ⟨arrivals, harr, htime⟩ := arrivals_exist (answer s (clock k) (syncBytes session.since session.until)) hlive
    refine ⟨_, .done harr htime (Prod.mk.eta.symm : _ = ((Session.hearAll (some session) arrivals).1, _)) ?_⟩
    cases hafter : (Session.hearAll (some session) arrivals).1 with
    | none => rfl
    | some s' =>
      rcases Session.hearAll_goes arrivals (Or.inl ⟨hdue, le_rfl⟩) hafter with ⟨hnone, -⟩ | ⟨_, -, -, hlt, hle⟩
      · exact hnone
      · omega
  | succ n ih =>
    obtain ⟨arrivals, harr, htime⟩ := arrivals_exist (answer s (clock k) (syncBytes session.since session.until)) hlive
    cases hafter : (Session.hearAll (some session) arrivals).1 with
    | none => exact ⟨_, .done harr htime (Prod.ext hafter rfl) rfl⟩
    | some s' =>
      rcases Session.hearAll_goes arrivals (Or.inl ⟨hdue, le_rfl⟩) hafter with ⟨hnone, -⟩ | ⟨due, hdue', hlt, hpages, -⟩
      · exact ⟨_, .done harr htime (Prod.ext hafter rfl) hnone⟩
      · have hpos : 0 < (s'.resume due).deadline := Nat.add_pos_right _ (by decide)
        obtain ⟨rest, hrest⟩ := ih (show (s'.resume due).due = none from rfl) hpos (by show _ ≤ s'.pages + n; omega) (k + 1)
        exact ⟨_, .next harr htime (Prod.ext hafter rfl) hdue' le_rfl hlt hrest⟩

/-! ## Catching up with a store -/

/-- A store as it comes to be: sound, with events that have the shape `Event::parse` gives them. -/
structure Stocked (s : Store) : Prop where
  sound : s.Sound
  shaped : ∀ e, s.events.get e.id = some e → e.Shaped

/-- **A catch-up is complete**: where its pages keep to the caps of the session and are steady, it ends, and it has
submitted every event stored from its time on that can be sent. -/
theorem catch_up_complete {s : Store} {clock : Nat → Nat} {since : Nat} (hs : Stocked s) (hsince : since < 2 ^ 64)
    (hcaps : WithinCaps s clock since) (hsteady : Steady s clock since) (now : Nat) :
    (∃ passed, Catches s clock 0 (.new since now) passed) ∧
    ∀ passed, Catches s clock 0 (.new since now) passed →
      ∀ e, s.events.get e.id = some e → (∀ j, expired e (clock j) = false) → since ≤ e.createdAt → e.Sendable → e ∈ passed := by
  refine ⟨catches_end s clock maxSessionPages rfl (Nat.add_pos_right _ (by decide)) (Nat.le_add_left _ _) 0, ?_⟩
  intro passed hcatch e he hx hle hsend
  exact hcatch.complete hs.sound.indexed hs.shaped hsince hcaps hsteady (Session.new_at now) he hx hle nofun hsend

/-! ## A page of notes and an older one -/

def noteId (i : Nat) : String := Escrow.hexPad 60 i

section Notes

variable (time : Nat → Nat) (content : Nat → String)

def note (i : Nat) : Event := ⟨noteId i, hexText 'a' 64, time i, 1, [], content i, hexText 'b' 128⟩

/-- One more than a page takes -/
def notes : List Event := (List.range 501).map (note time content)

def noteStore : Store := (Store.fresh 1000 false).insertAll (notes time content)

variable {time content}

theorem note_shaped (htime : ∀ i, time i < 2 ^ 64) (i : Nat) : (note time content i).Shaped :=
  ⟨Escrow.hexString_hexPad 60 i, isLowerHex_hexText (by decide), isLowerHex_hexText (by decide), htime i, (by decide : (1 : Nat) < 65536)⟩

theorem length_notes : (notes time content).length = 501 := by rw [notes, length_map, length_range]

theorem mem_notes : e ∈ notes time content ↔ ∃ i < 501, note time content i = e := by
  rw [notes, List.mem_map]
  simp only [List.mem_range]

theorem notes_plain : Plain (notes time content) ∧
    ∀ e ∈ notes time content, e.kind = 1 ∧ addressOf e = none ∧ ∀ now, expired e now = false := by
  have hall : ∀ e ∈ notes time content, e.kind = 1 ∧ addressOf e = none ∧ ∀ now, expired e now = false := by
    intro e he
    obtain ⟨i, -, rfl⟩ := mem_notes.1 he
    exact ⟨rfl, rfl, fun _ => rfl⟩
  refine ⟨⟨fun e he => ?_, fun d hd hk => ?_, fun e he f hf hid => ?_⟩, hall⟩
  · obtain ⟨i, -, rfl⟩ := mem_notes.1 he
    exact nofun
  · rw [(hall d hd).1] at hk
    cases hk
  · obtain ⟨i, hi, rfl⟩ := mem_notes.1 he
    obtain ⟨j, hj, rfl⟩ := mem_notes.1 hf
    rw [Escrow.hexPad_inj (by omega) (by omega) hid]

theorem noteStore_stored (htime : ∀ i, time i < 2 ^ 64) : Stocked (noteStore time content) ∧
    ∀ e, (noteStore time content).events.get e.id = some e ↔ e ∈ notes time content := by
  obtain ⟨hplain, hkind⟩ := @notes_plain time content
  have hnone : (notes time content).filter (fun d => d.kind = 5) = [] := by
    refine filter_eq_nil_iff.2 (fun d hd => ?_)
    rw [(hkind d hd).1]
    decide
  have hfits : Fits (notes time content) 1000 := by
    refine ⟨(toFinset_card_le _).trans ?_, ?_, ?_⟩
    · rw [length_map, length_notes]
      decide
    · rw [hnone]
      exact Nat.zero_le _
    · rw [hnone]
      exact Nat.zero_le _
  have hholds : Holds (notes time content) (noteStore time content) := by
    have hstart := Holds.nothing 1000 false
    rw [noteStore]
    generalize notes time content = l at *
    exact holds_insertAll l hstart hplain hfits rfl
  have hmem : ∀ e, (noteStore time content).events.get e.id = some e ↔ e ∈ notes time content := by
    intro e
    refine ⟨fun he => (hholds.stored e he).1, fun he => ?_⟩
    have hkept : ¬Deleted (notes time content) e := by
      rintro ⟨d, hd, hk, -⟩
      rw [(hkind d hd).1] at hk
      cases hk
    obtain ⟨f, hf, hid | ⟨⟨a, -, ha⟩, -⟩⟩ := hholds.covered e he hkept
    · obtain ⟨i, hi, rfl⟩ := mem_notes.1 he
      obtain ⟨j, hj, rfl⟩ := mem_notes.1 (hholds.stored f hf).1
      rw [Escrow.hexPad_inj (by omega) (by omega) hid] at hf
      exact hf
    · rw [(hkind e he).2.1] at ha
      cases ha
  refine ⟨⟨hholds.sound, fun e he => ?_⟩, hmem⟩
  obtain ⟨i, -, rfl⟩ := mem_notes.1 ((hmem e).1 he)
  exact note_shaped htime i

theorem notes_nodup : (notes time content).Nodup := by
  rw [notes, nodup_map_iff_inj_on nodup_range]
  intro i hi j hj h
  rw [List.mem_range] at hi hj
  exact Escrow.hexPad_inj (by omega) (by omega) (congrArg Event.id h)

variable {now : Nat} {bound : Option Nat}

/-- A page has all the newer notes, where all are asked for. -/
theorem page_notes (htime : ∀ i, time i < 2 ^ 64) (hold : ∀ i < 500, time 500 < time i)
    (hb : ∀ c, bound = some c → ∀ i < 501, time i ≤ c) :
    fullPage ((noteStore time content).page now 0 bound) = true ∧
    ∀ e, e ∈ (noteStore time content).page now 0 bound ↔ ∃ i < 500, note time content i = e := by
  obtain ⟨hs, hstored⟩ := @noteStore_stored time content htime
  have hi := hs.sound.indexed
  have hrest : ∀ e ∈ notes time content, e ∉ (noteStore time content).page now 0 bound →
      fullPage ((noteStore time content).page now 0 bound) = true ∧
      ∀ p ∈ (noteStore time content).page now 0 bound, e.createdAt ≤ p.createdAt := by
    intro e he hnot
    refine page_rest hi ((hstored e).2 he) ((notes_plain.2 e he).2.2 now) (Nat.zero_le _) (fun c hc => ?_) hnot
    obtain ⟨i, hlt, rfl⟩ := mem_notes.1 he
    exact hb c hc i hlt
  have hlast : note time content 500 ∉ (noteStore time content).page now 0 bound := by
    intro hin
    have hall : ∀ e ∈ notes time content, e ∈ (noteStore time content).page now 0 bound := by
      intro e he
      by_contra hnot
      have hle := (hrest e he hnot).2 _ hin
      obtain ⟨i, hlt, rfl⟩ := mem_notes.1 he
      by_cases hi : i = 500
      · rw [hi] at hnot
        exact hnot hin
      · exact absurd (hold i (by omega)) (not_lt.2 hle)
    have := (subperm_of_subset notes_nodup hall).length_le
    rw [length_notes] at this
    exact absurd (this.trans (page_length _ _ _ hi)) (by decide)
  have hfull := (hrest _ (mem_notes.2 ⟨500, by decide, rfl⟩) hlast).1
  have hsub : ∀ e ∈ (noteStore time content).page now 0 bound, e ∈ (List.range 500).map (note time content) := by
    intro e he
    obtain ⟨i, hlt, rfl⟩ := mem_notes.1 ((hstored e).1 (mem_page hi he).1)
    refine List.mem_map.2 ⟨i, List.mem_range.2 ?_, rfl⟩
    by_contra hge
    rw [show i = 500 by omega] at he
    exact hlast he
  have hlen : ((noteStore time content).page now 0 bound).length = 500 := of_decide_eq_true hfull
  have hperm := (subperm_of_subset (page_nodup hi) hsub).perm_of_length_le
    (by rw [hlen, length_map, length_range])
  refine ⟨hfull, fun e => ?_⟩
  rw [hperm.mem_iff, List.mem_map]
  simp only [List.mem_range]

end Notes

theorem page_cases (k : Nat) : k = 0 ∨ k = 1 ∨ ∃ j, k = 2 + j := by
  rcases Nat.lt_or_ge k 2 with hk | hk
  · omega
  · exact .inr (.inr (Nat.exists_eq_add_of_le hk))

theorem withinCaps_of_asked {s : Store} (hi : s.Indexed) {clock : Nat → Nat} {since : Nat}
    (hnone : ∀ j, asked s clock since (2 + j) = none) : WithinCaps s clock since := by
  have hsent : ∀ k, sentAt s clock since k ≤ if k < 2 then maxPageEvents else 0 := by
    intro k
    rw [sentAt]
    by_cases hk : k < 2
    · rw [if_pos hk]
      cases asked s clock since k with
      | none => exact Nat.zero_le _
      | some bound => exact (length_filter_le _ _).trans (page_length _ _ _ hi)
    · have := hnone (k - 2)
      rw [Nat.add_sub_of_le (not_lt.1 hk)] at this
      rw [if_neg hk, this]
      exact le_rfl
  exact ⟨hnone 18, (Finset.sum_le_sum (fun k _ => hsent k)).trans (by decide)⟩

/-- Each note is older than the one before it. -/
def falling (i : Nat) : Nat := 1000 - i

section Falling

variable {content : Nat → String} (clock : Nat → Nat)

theorem falling_lt (i : Nat) : falling i < 2 ^ 64 := (Nat.sub_le _ _).trans_lt (by decide)

theorem falling_page (now : Nat) : fullPage ((noteStore falling content).page now 0 none) = true ∧
    ∀ e, e ∈ (noteStore falling content).page now 0 none ↔ ∃ i < 500, note falling content i = e :=
  page_notes falling_lt (fun i hi => by unfold falling; omega) nofun

theorem falling_oldest (now : Nat) : oldest ((noteStore falling content).page now 0 none) = some 501 := by
  refine min?_eq_some_iff.2 ⟨?_, fun t ht => ?_⟩
  · exact List.mem_map.2 ⟨_, ((falling_page now).2 _).2 ⟨499, by decide, rfl⟩, rfl⟩
  · obtain ⟨e, he, rfl⟩ := List.mem_map.1 ht
    obtain ⟨i, hi, rfl⟩ := ((falling_page now).2 e).1 he
    show 501 ≤ 1000 - i
    omega

theorem falling_second (now : Nat) : fullPage ((noteStore falling content).page now 0 (some 501)) = false := by
  obtain ⟨hs, hstored⟩ := @noteStore_stored falling content falling_lt
  have hsub : ∀ e ∈ (noteStore falling content).page now 0 (some 501), e ∈ [note falling content 499, note falling content 500] := by
    intro e he
    obtain ⟨hget, -, -, hle⟩ := mem_page hs.sound.indexed he
    obtain ⟨i, hlt, rfl⟩ := mem_notes.1 ((hstored e).1 hget)
    have htime : 1000 - i ≤ 501 := hle 501 rfl
    rcases (by omega : i = 499 ∨ i = 500) with rfl | rfl
    · exact mem_cons_self
    · exact mem_cons_of_mem _ mem_cons_self
  have hlen := (subperm_of_subset (page_nodup hs.sound.indexed) hsub).length_le
  rw [fullPage, decide_eq_false_iff_not]
  intro hfull
  rw [hfull] at hlen
  exact absurd (show maxPageEvents ≤ 2 from hlen) (by decide)

theorem falling_asked : asked (noteStore falling content) clock 0 1 = some (some 501) ∧
    ∀ j, asked (noteStore falling content) clock 0 (2 + j) = none := by
  have h1 : asked (noteStore falling content) clock 0 1 = some (some 501) := by
    rw [asked, asked, bind_some, nextCursor, if_pos (falling_page _).1, falling_oldest]
    rfl
  refine ⟨h1, fun j => ?_⟩
  induction j with
  | zero => rw [asked, h1, bind_some, nextCursor, falling_second, if_neg Bool.false_ne_true, map_none]
  | succ j ih => rw [← Nat.add_assoc, asked, ih, bind_none]

theorem falling_withinCaps : WithinCaps (noteStore falling content) clock 0 :=
  withinCaps_of_asked (noteStore_stored falling_lt).1.sound.indexed (falling_asked clock).2

/-- Only the first page is full. -/
theorem falling_full {k : Nat} {bound : Option Nat} (hk : asked (noteStore falling content) clock 0 k = some bound)
    (hfull : fullPage ((noteStore falling content).page (clock k) 0 bound) = true) : k = 0 ∧ bound = none := by
  obtain rfl | rfl | ⟨j, rfl⟩ := page_cases k
  · cases hk
    exact ⟨rfl, rfl⟩
  · rw [(falling_asked clock).1] at hk
    cases hk
    rw [falling_second] at hfull
    cases hfull
  · rw [(falling_asked clock).2] at hk
    cases hk

theorem falling_advances : Advances (noteStore falling content) clock 0 := by
  intro k bound hk hfull c hc
  rw [(falling_full clock hk hfull).2] at hc
  cases hc

end Falling

def fallingStore : Store := noteStore falling fun _ => ""

theorem fallingStore_get {i : Nat} (hi : i < 501) : fallingStore.events.get (note falling (fun _ => "") i).id =
    some (note falling (fun _ => "") i) :=
  ((noteStore_stored falling_lt).2 _).2 (mem_notes.2 ⟨i, hi, rfl⟩)

/-- A full page, and a note left for the next one. -/
theorem catch_up_complete_falling : fullPage (fallingStore.page 0 0 none) = true ∧
    note falling (fun _ => "") 500 ∉ fallingStore.page 0 0 none ∧
    (∃ passed, Catches fallingStore (fun _ => 0) 0 (.new 0 0) passed) ∧
    ∀ passed, Catches fallingStore (fun _ => 0) 0 (.new 0 0) passed →
      note falling (fun _ => "") 0 ∈ passed ∧ note falling (fun _ => "") 500 ∈ passed := by
  obtain ⟨hfull, hmem⟩ := @falling_page (fun _ => "") 0
  have hfirst : (note falling (fun _ => "") 0).Sendable := fun full => by cases full <;> decide +kernel
  have hlast : (note falling (fun _ => "") 500).Sendable := fun full => by cases full <;> decide +kernel
  have hsends : Sends fallingStore (fun _ => 0) 0 := by
    intro k bound hk hfull'
    obtain ⟨rfl, rfl⟩ := falling_full _ hk hfull'
    intro hnil
    have hon := hfirst.mem_fitting ((hmem _).2 ⟨0, by decide, rfl⟩) true
    exact ne_nil_of_mem hon (packBatches_eq_nil.1 hnil)
  obtain ⟨hends, hall⟩ := @catch_up_complete fallingStore (fun _ => 0) 0
    (noteStore_stored falling_lt).1 (by decide) (falling_withinCaps _) ⟨hsends, falling_advances _⟩ 0
  refine ⟨hfull, fun hin => ?_, hends, fun passed hcatch => ⟨?_, ?_⟩⟩
  · obtain ⟨i, hi, heq⟩ := (hmem _).1 hin
    exact absurd (Escrow.hexPad_inj (by omega) (by decide) (congrArg Event.id heq)) (Nat.ne_of_lt hi)
  · exact hall passed hcatch _ (fallingStore_get (by decide)) (fun _ => rfl) (Nat.zero_le _) hfirst
  · exact hall passed hcatch _ (fallingStore_get (by decide)) (fun _ => rfl) (Nat.zero_le _) hlast

/-! ## A page that stalls -/

def Stalls (s : Store) (since t : Nat) : Prop := ∀ now bound, (∀ c, bound = some c → c = t) → fullPage (s.page now since bound) = true ∧
    (∀ e ∈ s.page now since bound, e.createdAt = t) ∧ oldest (s.page now since bound) = some t

section Stalls

variable {s : Store} {clock : Nat → Nat} {since t : Nat}

theorem Stalls.asked (h : Stalls s since t) (clock : Nat → Nat) :
    asked s clock since 1 = some (some t) ∧ ∀ j, Nostr.asked s clock since (2 + j) = none := by
  obtain ⟨hfull, -, hold⟩ := h (clock 0) none nofun
  obtain ⟨hfull', -, hold'⟩ := h (clock 1) (some t) (fun c hc => (Option.some.inj hc).symm)
  have h1 : Nostr.asked s clock since 1 = some (some t) := by
    rw [Nostr.asked, Nostr.asked, bind_some, nextCursor, if_pos hfull, hold]
    rfl
  have h2 : Nostr.asked s clock since 2 = none := by
    rw [Nostr.asked, h1, bind_some, nextCursor, if_pos hfull', hold', filter_some, if_neg]
    · rfl
    · rw [all_some, decide_eq_true_eq]
      exact lt_irrefl t
  refine ⟨h1, fun j => ?_⟩
  induction j with
  | zero => exact h2
  | succ j ih => rw [← Nat.add_assoc, Nostr.asked, ih, bind_none]

theorem Stalls.withinCaps (h : Stalls s since t) (hi : s.Indexed) (clock : Nat → Nat) : WithinCaps s clock since :=
  withinCaps_of_asked hi (h.asked clock).2

/-- Of a catch-up that stalls both pages are of the one time. -/
theorem Stalls.passed (h : Stalls s since t) (hs : Stocked s) (hsince : since < 2 ^ 64) {now : Nat} {passed : List Event}
    (hcatch : Catches s clock 0 (.new since now) passed) {e : Event} (he : e ∈ passed) : e.createdAt = t := by
  obtain ⟨k, bound, hk, he⟩ := hcatch.mem_page hs.sound.indexed hs.shaped hsince (h.withinCaps hs.sound.indexed clock)
    (Session.new_at now) he
  refine (h (clock k) bound ?_).2.1 e (mem_of_mem_filter he)
  rintro c rfl
  obtain rfl | rfl | ⟨j, rfl⟩ := page_cases k
  · cases hk
  · cases hk.symm.trans (h.asked clock).1
    rfl
  · cases hk.symm.trans ((h.asked clock).2 j)

end Stalls

/-! ## More events of one time than a page takes, and a page of events too large to send -/

def tied (i : Nat) : Nat := if i = 500 then 5 else 10

def tieStore : Store := noteStore tied fun _ => ""

theorem tied_spec : (∀ i, tied i < 2 ^ 64) ∧ (∀ i < 500, tied i = 10) ∧ tied 500 = 5 := by
  refine ⟨fun i => ?_, fun i hi => if_neg (Nat.ne_of_lt hi), if_pos rfl⟩
  unfold tied
  split <;> decide

theorem tied_page (now : Nat) {bound : Option Nat} (hb : ∀ c, bound = some c → c = 10) : fullPage (tieStore.page now 0 bound) = true ∧
    ∀ e, e ∈ tieStore.page now 0 bound ↔ ∃ i < 500, note tied (fun _ => "") i = e := by
  obtain ⟨hlt, hten, hfive⟩ := tied_spec
  refine page_notes hlt (fun i hi => by rw [hten i hi]; decide) (fun c hc i _ => ?_)
  rw [hb c hc, tied]
  split <;> decide

theorem stalls_ties : Stalls tieStore 0 10 := by
  intro now bound hb
  obtain ⟨hfull, hmem⟩ := tied_page now hb
  have hten : ∀ e ∈ tieStore.page now 0 bound, e.createdAt = 10 := by
    intro e he
    obtain ⟨i, hi, rfl⟩ := (hmem e).1 he
    exact tied_spec.2.1 i hi
  refine ⟨hfull, hten, min?_eq_some_iff.2 ⟨?_, fun t ht => ?_⟩⟩
  · exact List.mem_map.2 ⟨_, (hmem _).2 ⟨0, by decide, rfl⟩, rfl⟩
  · obtain ⟨e, he, rfl⟩ := List.mem_map.1 ht
    exact (hten e he).ge

theorem ties_sends : Sends tieStore (fun _ => 0) 0 := by
  intro k bound hk _ hnil
  have hb : ∀ c, bound = some c → c = 10 := by
    rintro c rfl
    obtain rfl | rfl | ⟨j, rfl⟩ := page_cases k
    · cases hk
    · rw [(stalls_ties.asked _).1] at hk
      cases hk
      rfl
    · rw [(stalls_ties.asked _).2] at hk
      cases hk
  have hfirst : (note tied (fun _ => "") 0).Sendable := fun full => by cases full <;> decide +kernel
  have hon := hfirst.mem_fitting (((tied_page 0 hb).2 _).2 ⟨0, by decide, rfl⟩) true
  exact ne_nil_of_mem hon (packBatches_eq_nil.1 hnil)

def giant : String := String.ofList (List.replicate maxWireBytes 'x')

def giants (i : Nat) : String := if i = 500 then "" else giant

theorem stringSize_giant : stringSize giant = maxWireBytes + 2 := by
  have hchars : ∀ c ∈ giant.toList, c = 'x' := by
    intro c hc
    rw [giant, String.toList_ofList] at hc
    exact eq_of_mem_replicate hc
  rw [stringSize_plain (fun c hc => by rw [hchars c hc]; decide), giant, utf8ByteSize_ascii (fun c hc => ?_), length_replicate]
  rw [eq_of_mem_replicate hc]
  decide

theorem giant_not_fits {i : Nat} (hi : i < 500) (overhead : Nat) : ¬ (note falling giants i).Fits overhead := by
  rintro ⟨-, hle⟩
  have hcontent : stringSize (giants i) = maxWireBytes + 2 := by
    rw [giants, if_neg (Nat.ne_of_lt hi)]
    exact stringSize_giant
  have hsize : maxWireBytes < Json.size (note falling giants i).toJson := by
    rw [Event.toJson, size_obj]
    simp only [fieldsSize, size_str, note]
    omega
  exact absurd hle (not_le.2 (hsize.trans_le (Nat.le_add_left _ _)))

/-- Nothing of the first page can be sent, so the session hears nothing and asks for no other. -/
theorem giants_passed {passed : List Event} (hcatch : Catches (noteStore falling giants) (fun _ => 0) 0 (.new 0 0) passed) :
    passed = [] := by
  have hnone : answer (noteStore falling giants) 0 (syncBytes 0 none) = [] := by
    rw [answer_syncBytes (by decide) (fun _ hc => by cases hc), packBatches_eq_nil, fitting, filter_eq_nil_iff]
    intro e he
    obtain ⟨i, hi, rfl⟩ := ((falling_page 0).2 e).1 he
    rw [decide_eq_true_eq]
    exact giant_not_fits hi _
  cases hcatch with
  | done harr _ hheard _ =>
    have hnil := map_eq_nil_iff.1 (harr.trans hnone)
    subst hnil
    exact (congrArg Prod.snd hheard).symm
  | next harr _ hheard hdue =>
    have hnil := map_eq_nil_iff.1 (harr.trans hnone)
    subst hnil
    cases hheard
    cases hdue

/-- A catch-up within the caps that leaves behind an event that can be sent. -/
structure Misses (s : Store) (e : Event) : Prop where
  stocked : Stocked s
  stored : s.events.get e.id = some e
  sendable : e.Sendable
  caps : WithinCaps s (fun _ => 0) 0
  ends : ∃ passed, Catches s (fun _ => 0) 0 (.new 0 0) passed
  missed : ∀ passed, Catches s (fun _ => 0) 0 (.new 0 0) passed → e ∉ passed

/-- The older note is left behind where the page before it does not get past its time, and where it has nothing to send. -/
theorem ties_stall : (Sends tieStore (fun _ => 0) 0 ∧ Misses tieStore (note tied (fun _ => "") 500)) ∧
    Advances (noteStore falling giants) (fun _ => 0) 0 ∧ Misses (noteStore falling giants) (note falling giants 500) := by
  obtain ⟨hs, hstored⟩ := @noteStore_stored tied (fun _ => "") tied_spec.1
  obtain ⟨hs', hstored'⟩ := @noteStore_stored falling giants falling_lt
  refine ⟨⟨ties_sends, hs, (hstored _).2 (mem_notes.2 ⟨500, by decide, rfl⟩), fun full => by cases full <;> decide +kernel,
    stalls_ties.withinCaps hs.sound.indexed _, catches_end _ _ maxSessionPages rfl (by decide) (by decide) 0,
    fun passed hcatch hin => ?_⟩, falling_advances _, hs', (hstored' _).2 (mem_notes.2 ⟨500, by decide, rfl⟩),
    fun full => by cases full <;> decide +kernel, falling_withinCaps _,
    catches_end _ _ maxSessionPages rfl (by decide) (by decide) 0, fun passed hcatch hin => ?_⟩
  · exact absurd (stalls_ties.passed hs (by decide) hcatch hin) (by decide)
  · rw [giants_passed hcatch] at hin
    cases hin

end Mistl.Nostr
