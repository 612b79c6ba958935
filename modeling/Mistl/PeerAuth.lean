import Mistl.DmReplay
import Mistl.Lib.JsonRead
import Mistl.Lib.Runs
/-!
# PeerAuth — hellos that bind a node to its DID

`net/peer_auth.rs`.  A hello that passed every stateless check enters a registry of bindings, with its nonce.  Nonces are
kept for twice the accepted skew measured on the instants, up to a millisecond less than a timestamp is fresh.
-/
namespace Mistl.PeerAuth

open Dm (absDiff asU64 isObject wallMs nsPerMs)

def verifiedTtl : Nat := 120 * 1000 * nsPerMs

def maxClockSkewMs : Nat := 120000

def maxVerified : Nat := 1024

def maxVerifiedPerRoom : Nat := 256

def maxNonces : Nat := 4096

/-- How long `prune` keeps a nonce. -/
def nonceWindow : Nat := 2 * maxClockSkewMs * nsPerMs

structure DidProof where
  did : String
  node : String
  tsMs : UInt64
  nonce : String
  reply : Bool

inductive ProofError where
  | notOurs | malformed | wrongRoom | nodeMismatch | didMismatch | stale | badSignature | replay | full

/-! ## Stateless checks -/

def strField (value : Json) (key : String) : Except ProofError String := okOr ((value.get? key).bind Json.asStr) .malformed

def checkProofValue (C : Crates) (value : Json) (tag room sender : String) (nowMs : UInt64) : Except ProofError DidProof := do
  ensure (isObject value) ProofError.notOurs
  ensure (decide ((value.get? "t").bind Json.asStr = some tag)) ProofError.notOurs
  let msgRoom ← strField value "room"
  ensure (decide (msgRoom = room)) ProofError.wrongRoom
  let node ← strField value "node"
  ensure (decide (node = sender)) ProofError.nodeMismatch
  let did ← strField value "fromId"
  ensure (decide (did.utf8ByteSize = didKeyLen) && decide (nodeIdForDid C did = sender)) ProofError.didMismatch
  let ts ← okOr ((value.get? "ts").bind asU64) .malformed
  ensure (decide (absDiff ts nowMs ≤ maxClockSkewMs)) ProofError.stale
  let nonce ← okOr (((value.get? "nonce").bind Json.asStr).filter
    (fun n => decide (n ≠ "") && decide (n.utf8ByteSize ≤ 64))) .malformed
  ensure (Wiresign.verifyWire C value) ProofError.badSignature
  return ⟨did, node, ts, nonce, ((value.get? "re").bind Json.asBool).getD false⟩

/-! ## The registry -/

structure Entry where
  did : String
  lastSeen : Nat

/-- `Registry`, the oldest nonce first -/
structure Registry where
  entries : Table (String × String) Entry
  nonces : List (Nat × String)
  nonceSet : Finset String

/-- Nonces leave from the front, while a condition on the oldest and on those behind it holds. -/
def popWhile (p : Nat × String → List (Nat × String) → Bool) : List (Nat × String) → Finset String → List (Nat × String) × Finset String
  | [], set => ([], set)
  | e :: rest, set => if p e rest then popWhile p rest (set.erase e.2) else (e :: rest, set)

namespace Registry

def empty : Registry := ⟨∅, [], ∅⟩

def pop (r : Registry) (p : Nat × String → List (Nat × String) → Bool) : Registry :=
  { r with nonces := (popWhile p r.nonces r.nonceSet).1, nonceSet := (popWhile p r.nonces r.nonceSet).2 }

def prune (r : Registry) (now : Nat) : Registry :=
  pop { r with entries := r.entries.filter (fun _ e => decide (now - e.lastSeen ≤ verifiedTtl)) }
    (fun e _ => decide (nonceWindow < now - e.1))

def rememberNonce (r : Registry) (nonceKey : String) (now : Nat) : Registry :=
  let r := r.pop (fun _ rest => decide (maxNonces ≤ rest.length + 1))
  { r with nonces := r.nonces ++ [(now, nonceKey)], nonceSet := insert nonceKey r.nonceSet }

def inRoom (r : Registry) (room : String) : Nat := r.entries.total fun key _ => if key.1 = room then 1 else 0

def enter (r : Registry) (room : String) (proof : DidProof) (nonceKey : String) (now : Nat) : Registry :=
  rememberNonce { r with entries := r.entries.insert (room, proof.node) ⟨proof.did, now⟩ } nonceKey now

def accept (r : Registry) (room : String) (proof : DidProof) (now : Nat) : Registry × Except ProofError Bool :=
  let r := r.prune now
  let nonceKey := proof.node ++ ":" ++ proof.nonce
  if nonceKey ∈ r.nonceSet then (r, .error .replay)
  else match r.entries.get (room, proof.node) with
    | some existing => if existing.did ≠ proof.did then (r, .error .didMismatch) else (r.enter room proof nonceKey now, .ok false)
    | none =>
      if maxVerified ≤ r.entries.size ∨ maxVerifiedPerRoom ≤ r.inRoom room then (r, .error .full)
      else (r.enter room proof nonceKey now, .ok true)

def remove (r : Registry) (room node : String) : Registry := { r with entries := r.entries.erase (room, node) }

def removeRoom (r : Registry) (room : String) : Registry := { r with entries := r.entries.filter (fun key _ => decide (key.1 ≠ room)) }

end Registry

/-! ## Runs -/

structure Accepted where
  room : String
  proof : DidProof
  instant : Nat

/-- The registry, the instant it is, and what was accepted so far, the oldest first. -/
structure World where
  registry : Registry
  now : Nat
  accepted : List Accepted

/-- Time passes; a proof is offered that was checked at a reading of the wall clock; a peer or a room is forgotten. -/
inductive Act where
  | pass (dt : Nat)
  | accept (tag room sender : String) (value : Json) (nowMs : UInt64)
  | remove (room node : String)
  | removeRoom (room : String)
  | prune

def Accepted.stamp (a : Accepted) : Nat × String := (a.instant, a.proof.node ++ ":" ++ a.proof.nonce)

namespace World

def start : World := ⟨.empty, 0, []⟩

/-- `accept` of a proof. -/
def offer (x : World) (room : String) (proof : DidProof) : World := { x with
    registry := (x.registry.accept room proof x.now).1
    accepted := x.accepted ++ match (x.registry.accept room proof x.now).2 with
      | .ok _ => [⟨room, proof, x.now⟩]
      | .error _ => [] }

/-- The proof that a step offers: one that passed `check_proof_value` at a reading of the clock that is not of the future. -/
def proofOf (C : Crates) (epoch : Nat) (x : World) : Act → Option (String × DidProof)
  | .accept tag room sender value nowMs =>
    if nowMs.toNat ≤ wallMs epoch x.now then
      match checkProofValue C value tag room sender nowMs with
      | .ok proof => some (room, proof)
      | .error _ => none
    else none
  | _ => none

def step (C : Crates) (epoch : Nat) (x : World) (act : Act) : Option World :=
  match act with
  | .pass dt => some { x with now := x.now + dt }
  | .accept .. => (x.proofOf C epoch act).map (fun p => x.offer p.1 p.2)
  | .remove room node => some { x with registry := x.registry.remove room node }
  | .removeRoom room => some { x with registry := x.registry.removeRoom room }
  | .prune => some { x with registry := x.registry.prune x.now }

def run (C : Crates) (epoch : Nat) (acts : List Act) : Option World := Runs.run (step C epoch) start acts

/-- Every closed window of twice the skew has as many accepted proofs as the replay cache holds, or fewer. -/
def Paced (x : World) : Prop :=
  ∀ t, (x.accepted.filter (fun a => decide (t ≤ a.instant) && decide (a.instant ≤ t + nonceWindow))).length ≤ maxNonces

end World

def fresh (ts : UInt64) (wall : Nat) : Bool := decide (wall ≤ ts.toNat + maxClockSkewMs) && decide (ts.toNat ≤ wall + maxClockSkewMs)

def DidProof.sameNonce (p q : DidProof) : Bool := decide (p.node = q.node) && decide (p.nonce = q.nonce)

/-- No proof comes under the nonce of an accepted one that is older than twice the skew and whose timestamp is still fresh. -/
def World.timely (C : Crates) (epoch : Nat) (x : World) (act : Act) : Bool :=
  (x.proofOf C epoch act).all (fun p => x.accepted.all (fun a =>
    !(a.proof.sameNonce p.2 && fresh a.proof.tsMs (wallMs epoch x.now)) || decide (x.now - a.instant ≤ nonceWindow)))

/-! ## The replay cache -/

theorem popWhile_spec (p : Nat × String → List (Nat × String) → Bool) : ∀ (l : List (Nat × String)) (set : Finset String),
    ∃ gone, l = gone ++ (popWhile p l set).1 ∧ (popWhile p l set).2 = set \ (gone.map Prod.snd).toFinset ∧
      ∀ e ∈ gone, ∃ rest, rest.length < l.length ∧ p e rest = true
  | [], set => ⟨[], rfl, by simp [popWhile], nofun⟩
  | e :: l, set => by
    by_cases hp : p e l = true
    · obtain ⟨gone, hl, hset, hgone⟩ := popWhile_spec p l (set.erase e.2)
      rw [popWhile, if_pos hp]
      refine ⟨e :: gone, congrArg (e :: ·) hl, ?_, fun e' he' => ?_⟩
      · rw [hset, List.map_cons, List.toFinset_cons, Finset.sdiff_insert, Finset.erase_sdiff_comm]
      · rcases List.mem_cons.1 he' with rfl | he'
        · exact ⟨l, Nat.lt_succ_self _, hp⟩
        · obtain ⟨rest, hrest, hpe⟩ := hgone e' he'
          exact ⟨rest, Nat.lt_succ_of_lt hrest, hpe⟩
    · rw [popWhile, if_neg hp]
      exact ⟨[], rfl, by simp, fun e' he' => by cases he'⟩

theorem popWhile_head {p : Nat × String → List (Nat × String) → Bool} {e : Nat × String} {rest : List (Nat × String)} :
    ∀ {l : List (Nat × String)} {set : Finset String}, (popWhile p l set).1 = e :: rest → p e rest = false
  | [], _, h => by cases h
  | e' :: l, set, h => by
    rw [popWhile] at h
    split at h
    · exact popWhile_head h
    · rename_i hp
      cases h
      exact Bool.eq_false_iff.2 hp

/-- The set has the keys of the nonces, and no two nonces share one. -/
structure Registry.Paired (r : Registry) : Prop where
  set : r.nonceSet = (r.nonces.map Prod.snd).toFinset
  nodup : (r.nonces.map Prod.snd).Nodup

variable {C : Crates} {epoch : Nat} {r : Registry} {x x' : World} {act : Act}

theorem Registry.Paired.pop (h : r.Paired) (p : Nat × String → List (Nat × String) → Bool) : (r.pop p).Paired := by
  obtain ⟨gone, hl, hset, -⟩ := popWhile_spec p r.nonces r.nonceSet
  have hnd := h.nodup
  rw [hl, List.map_append] at hnd
  have hdisj := List.disjoint_of_nodup_append hnd
  refine ⟨?_, (List.nodup_append.1 hnd).2.1⟩
  change (popWhile p r.nonces r.nonceSet).2 = ((popWhile p r.nonces r.nonceSet).1.map Prod.snd).toFinset
  generalize (popWhile p r.nonces r.nonceSet).1 = kept at hl hdisj
  rw [hset, h.set, hl]
  ext key
  rw [Finset.mem_sdiff, List.mem_toFinset, List.mem_toFinset, List.mem_toFinset, List.map_append, List.mem_append]
  exact ⟨fun hkey => hkey.1.resolve_left hkey.2, fun hkey => ⟨.inr hkey, fun hgone => hdisj hgone hkey⟩⟩

theorem Registry.Paired.prune (h : r.Paired) (now : Nat) : (r.prune now).Paired :=
  @Registry.Paired.pop { r with entries := r.entries.filter (fun _ e => decide (now - e.lastSeen ≤ verifiedTtl)) }
    ⟨h.set, h.nodup⟩ _

theorem Registry.Paired.rememberNonce (h : r.Paired) {nonceKey : String} (hnew : nonceKey ∉ r.nonceSet) (now : Nat) :
    (r.rememberNonce nonceKey now).Paired := by
  have hpop := h.pop (fun _ rest => decide (maxNonces ≤ rest.length + 1))
  obtain ⟨gone, -, hset, -⟩ := popWhile_spec (fun _ rest => decide (maxNonces ≤ rest.length + 1)) r.nonces r.nonceSet
  have hnew' : nonceKey ∉ (r.pop (fun _ rest => decide (maxNonces ≤ rest.length + 1))).nonces.map Prod.snd := by
    rw [← List.mem_toFinset, ← hpop.set]
    intro hmem
    change nonceKey ∈ (popWhile _ r.nonces r.nonceSet).2 at hmem
    rw [hset] at hmem
    exact hnew (Finset.mem_sdiff.1 hmem).1
  refine ⟨?_, ?_⟩
  · simp only [Registry.rememberNonce, hpop.set]
    simp
  · simp only [Registry.rememberNonce, List.map_append, List.map_cons]
    exact List.nodup_append.2 ⟨hpop.nodup, List.nodup_singleton _, fun a ha b hb => by
      rintro rfl
      exact hnew' (List.mem_singleton.1 hb ▸ ha)⟩

theorem accept_cases (r : Registry) (room : String) (proof : DidProof) (now : Nat) :
    (∃ e, r.accept room proof now = (r.prune now, .error e)) ∨
    ∃ isNew, r.accept room proof now = ((r.prune now).enter room proof (proof.node ++ ":" ++ proof.nonce) now, .ok isNew) ∧
      proof.node ++ ":" ++ proof.nonce ∉ (r.prune now).nonceSet ∧
      ((∃ e, (r.prune now).entries.get (room, proof.node) = some e ∧ e.did = proof.did) ∨
        (r.prune now).entries.get (room, proof.node) = none ∧ (r.prune now).entries.size < maxVerified ∧
          (r.prune now).inRoom room < maxVerifiedPerRoom) := by
  simp only [Registry.accept]
  split
  · exact .inl ⟨_, rfl⟩
  · rename_i hnew
    split
    · rename_i existing hget
      split
      · exact .inl ⟨_, rfl⟩
      · rename_i hdid
        exact .inr ⟨_, rfl, hnew, .inl ⟨existing, hget, Classical.not_not.1 hdid⟩⟩
    · rename_i hget
      split
      · exact .inl ⟨_, rfl⟩
      · rename_i hroom
        rw [not_or, Nat.not_le, Nat.not_le] at hroom
        exact .inr ⟨_, rfl, hnew, .inr ⟨hget, hroom⟩⟩

/-! ## The bindings -/

structure Registry.Sound (C : Crates) (r : Registry) : Prop where
  paired : r.Paired
  hashes : ∀ key e, r.entries.get key = some e → nodeIdForDid C e.did = key.2
  size : r.entries.size ≤ maxVerified
  rooms : ∀ room, r.inRoom room ≤ maxVerifiedPerRoom

theorem Registry.Sound.fewer (h : r.Sound C) {entries : Table (String × String) Entry}
    (hget : ∀ key e, entries.get key = some e → r.entries.get key = some e)
    (htotal : ∀ f, entries.total f ≤ r.entries.total f) : Sound C { r with entries := entries } where
  paired := ⟨h.paired.set, h.paired.nodup⟩
  hashes key e he := h.hashes key e (hget key e he)
  size := by
    have hle := htotal (fun _ _ => 1)
    rw [← Table.size_eq_total, ← Table.size_eq_total] at hle
    exact hle.trans h.size
  rooms room := (htotal _).trans (h.rooms room)

theorem Registry.Sound.filter (h : r.Sound C) (p : String × String → Entry → Bool) : Sound C { r with entries := r.entries.filter p } :=
  h.fewer (fun key e he => by
    rw [Table.get_filter] at he
    exact (Option.filter_eq_some_iff.1 he).1) (fun f => by
    rw [← Table.total_filter_add_not f p r.entries]
    exact Nat.le_add_right _ _)

theorem Registry.Sound.remove (h : r.Sound C) (room node : String) : (r.remove room node).Sound C := by
  refine h.fewer (fun key e he => ?_) (fun f => ?_)
  · exact (Table.of_get_erase he).2
  · cases hget : r.entries.get (room, node) with
    | none => rw [Table.erase_of_get_none hget]
    | some e =>
      rw [← Table.total_erase f hget]
      exact Nat.le_add_left _ _

theorem Registry.Sound.prune (h : r.Sound C) (now : Nat) : (r.prune now).Sound C :=
  have hfilter := h.filter (fun _ e => decide (now - e.lastSeen ≤ verifiedTtl))
  ⟨h.paired.prune now, hfilter.hashes, hfilter.size, hfilter.rooms⟩

variable {proof : DidProof}

theorem Registry.Sound.accept (h : r.Sound C) {room : String} {now : Nat}
    (hnode : nodeIdForDid C proof.did = proof.node) : (r.accept room proof now).1.Sound C := by
  have hr := h.prune now
  rcases accept_cases r room proof now with ⟨e, haccept⟩ | ⟨isNew, haccept, hnew, hentry⟩
  · rw [haccept]
    exact hr
  · rw [haccept]
    generalize r.prune now = r at hr hnew hentry
    refine ⟨@Registry.Paired.rememberNonce
      { r with entries := r.entries.insert (room, proof.node) ⟨proof.did, now⟩ } ⟨hr.paired.set, hr.paired.nodup⟩ _ hnew now,
      fun key e he => ?_, ?_, fun room' => ?_⟩
    · rcases Table.of_get_insert he with ⟨hkey, rfl⟩ | ⟨-, he⟩
      · rw [hkey]
        exact hnode
      · exact hr.hashes key e he
    · change (r.entries.insert (room, proof.node) ⟨proof.did, now⟩).size ≤ maxVerified
      rcases hentry with ⟨e, hget, -⟩ | ⟨hget, hsize, -⟩
      · rw [Table.size_replace hget]
        exact hr.size
      · rw [Table.size_insert hget]
        exact hsize
    · change (r.entries.insert (room, proof.node) ⟨proof.did, now⟩).total _ ≤ maxVerifiedPerRoom
      rcases hentry with ⟨e, hget, -⟩ | ⟨hget, -, hroom⟩
      · have hreplace := Table.total_replace (fun key _ => if key.1 = room' then 1 else 0) hget ⟨proof.did, now⟩
        have hle := hr.rooms room'
        unfold Registry.inRoom at hle
        omega
      · rw [Table.total_insert _ hget]
        have hle := hr.rooms room'
        unfold Registry.inRoom at hle hroom
        by_cases hsame : room = room'
        · subst hsame
          rw [if_pos rfl]
          omega
        · rw [if_neg hsame]
          omega

theorem checkProofValue_ok {value : Json} {tag room sender : String} {nowMs : UInt64}
    (h : checkProofValue C value tag room sender nowMs = .ok proof) :
    nodeIdForDid C proof.did = proof.node ∧ absDiff proof.tsMs nowMs ≤ maxClockSkewMs := by
  unfold checkProofValue strField at h
  simp only [ensure_bind_eq_ok, okOr_bind_eq_ok, decide_eq_true_eq, Bool.and_eq_true] at h
  obtain ⟨-, -, msgRoom, -, -, node, -, hnode, did, -, ⟨-, hdid⟩, ts, -, hts, nonce, -, -, h⟩ := h
  cases h
  exact ⟨hdid.trans hnode.symm, hts⟩

theorem proofOf_eq_some {p : String × DidProof} (h : x.proofOf C epoch act = some p) :
    nodeIdForDid C p.2.did = p.2.node ∧ p.2.tsMs.toNat ≤ wallMs epoch x.now + maxClockSkewMs := by
  cases act with
  | accept tag room sender value nowMs =>
    simp only [World.proofOf] at h
    split at h
    · rename_i hwall
      split at h
      · rename_i proof hproof
        cases h
        obtain ⟨hnode, hts⟩ := checkProofValue_ok hproof
        exact ⟨hnode, (Dm.le_of_absDiff hts).1.trans (Nat.add_le_add_right hwall _)⟩
      · cases h
    · cases h
  | pass | remove | removeRoom | prune => cases h

theorem binding_step {key : String × String} {e : Entry} (hstep : x.step C epoch act = some x')
    (hget : x.registry.entries.get key = some e) :
    (x'.registry.entries.get key).map Entry.did = some e.did ∨ verifiedTtl < x.now - e.lastSeen ∨
      act = .remove key.1 key.2 ∨ act = .removeRoom key.1 := by
  have hprune : x.now - e.lastSeen ≤ verifiedTtl → (x.registry.prune x.now).entries.get key = some e := by
    intro hseen
    change (x.registry.entries.filter _).get key = some e
    rw [Table.get_filter, hget]
    exact Option.filter_eq_some_iff.2 ⟨rfl, decide_eq_true hseen⟩
  by_cases hseen : verifiedTtl < x.now - e.lastSeen
  · exact .inr (.inl hseen)
  replace hprune := hprune (Nat.le_of_not_lt hseen)
  cases act with
  | pass dt =>
    cases hstep
    exact .inl (by rw [hget]; rfl)
  | prune =>
    cases hstep
    exact .inl (by rw [hprune]; rfl)
  | remove room node =>
    cases hstep
    by_cases hkey : key = (room, node)
    · subst hkey
      exact .inr (.inr (.inl rfl))
    · refine .inl ?_
      change ((x.registry.entries.erase (room, node)).get key).map Entry.did = some e.did
      rw [Table.get_erase_ne hkey, hget]
      rfl
  | removeRoom room =>
    cases hstep
    by_cases hkey : key.1 = room
    · exact .inr (.inr (.inr (by rw [hkey])))
    · refine .inl ?_
      change ((x.registry.entries.filter _).get key).map Entry.did = some e.did
      rw [Table.get_filter, hget, Option.filter_some, if_pos (by simpa using hkey)]
      rfl
  | accept tag room sender value nowMs =>
    obtain ⟨p, -, rfl⟩ := Option.map_eq_some_iff.1 hstep
    refine .inl ?_
    change ((x.registry.accept p.1 p.2 x.now).1.entries.get key).map Entry.did = some e.did
    rcases accept_cases x.registry p.1 p.2 x.now with ⟨err, haccept⟩ | ⟨isNew, haccept, -, hentry⟩
    · rw [haccept, hprune]
      rfl
    · rw [haccept]
      change (((x.registry.prune x.now).entries.insert (p.1, p.2.node) ⟨p.2.did, x.now⟩).get key).map Entry.did = some e.did
      rw [Table.get_insert]
      split
      · rename_i hkey
        rw [hkey] at hprune
        rcases hentry with ⟨e', hget', hdid⟩ | ⟨hnone, -⟩
        · rw [hprune] at hget'
          cases hget'
          rw [hdid]
          rfl
        · rw [hprune] at hnone
          cases hnone
      · rw [hprune]
        rfl

/-! ## What was accepted -/

/-- Where the nonces of the accepted proofs are: the late ones in the cache, in order, and every other older than the window. -/
structure World.Spaced (epoch : Nat) (x : World) : Prop where
  past : ∀ a ∈ x.accepted, a.instant ≤ x.now
  ascending : x.accepted.Pairwise (fun a b => a.instant ≤ b.instant)
  stamps : ∃ old late, x.accepted = old ++ late ∧ late.map Accepted.stamp = x.registry.nonces ∧
    ∀ a ∈ old, nonceWindow < x.now - a.instant
  apart : x.accepted.Pairwise (fun a b => a.proof.sameNonce b.proof = true → a.instant + nonceWindow < b.instant)
  skew : ∀ a ∈ x.accepted, a.proof.tsMs.toNat ≤ wallMs epoch a.instant + maxClockSkewMs

theorem start_spaced : World.start.Spaced epoch :=
  ⟨fun a ha => (by cases ha), .nil, ⟨[], [], rfl, rfl, fun a ha => (by cases ha)⟩, .nil, fun a ha => (by cases ha)⟩

theorem World.Spaced.later (h : x.Spaced epoch) (hnow : x.now ≤ x'.now) (haccepted : x'.accepted = x.accepted)
    (hnonces : x'.registry.nonces = x.registry.nonces) : x'.Spaced epoch := by
  obtain ⟨old, late, hsplit, hlate, hold⟩ := h.stamps
  refine ⟨?_, ?_, ⟨old, late, haccepted.trans hsplit, hlate.trans hnonces.symm, fun a ha => ?_⟩, ?_, ?_⟩
  · rw [haccepted]
    exact fun a ha => (h.past a ha).trans hnow
  · rw [haccepted]
    exact h.ascending
  · exact (hold a ha).trans_le (Nat.sub_le_sub_right hnow _)
  · rw [haccepted]
    exact h.apart
  · rw [haccepted]
    exact h.skew

theorem World.Spaced.prune (h : x.Spaced epoch) : World.Spaced epoch { x with registry := x.registry.prune x.now } ∧
      ∃ old late, x.accepted = old ++ late ∧ late.map Accepted.stamp = (x.registry.prune x.now).nonces ∧
        (∀ a ∈ old, nonceWindow < x.now - a.instant) ∧ ∀ a ∈ late, x.now - a.instant ≤ nonceWindow := by
  obtain ⟨old, late, hsplit, hlate, hold⟩ := h.stamps
  obtain ⟨gone, hgone, -, hcond⟩ := popWhile_spec (fun e _ => decide (nonceWindow < x.now - e.1)) x.registry.nonces
    x.registry.nonceSet
  have hkept : ∃ kept, (popWhile (fun e _ => decide (nonceWindow < x.now - e.1)) x.registry.nonces
    x.registry.nonceSet).1 = kept := ⟨_, rfl⟩
  obtain ⟨kept, hkept⟩ := hkept
  rw [hkept, ← hlate] at hgone
  obtain ⟨left, stay, rfl, rfl, hstay⟩ := List.map_eq_append_iff.1 hgone
  have hprune : stay.map Accepted.stamp = (x.registry.prune x.now).nonces := hstay.trans hkept.symm
  have hold' : ∀ a ∈ old ++ left, nonceWindow < x.now - a.instant := by
    intro a ha
    rcases List.mem_append.1 ha with ha | ha
    · exact hold a ha
    · obtain ⟨-, -, hp⟩ := hcond a.stamp (List.mem_map_of_mem ha)
      exact of_decide_eq_true hp
  rw [← List.append_assoc] at hsplit
  refine ⟨⟨h.past, h.ascending, ⟨_, _, hsplit, hprune, hold'⟩, h.apart, h.skew⟩, _, _, hsplit, hprune, hold', fun a ha => ?_⟩
  cases stay with
  | nil => cases ha
  | cons first rest =>
    have hfirst : x.now - first.instant ≤ nonceWindow := Nat.le_of_not_lt (of_decide_eq_false (popWhile_head (hkept.trans hstay.symm)))
    have hasc := h.ascending
    rw [hsplit] at hasc
    rcases List.mem_cons.1 ha with rfl | ha
    · exact hfirst
    · exact (Nat.sub_le_sub_left (List.rel_of_pairwise_cons (List.pairwise_append.1 hasc).2.1 ha) _).trans hfirst

theorem World.Spaced.offer (h : x.Spaced epoch) {room : String} (hpaired : x.registry.Paired)
    (hts : proof.tsMs.toNat ≤ wallMs epoch x.now + maxClockSkewMs) (hpaced : (x.offer room proof).Paced) :
    (x.offer room proof).Spaced epoch := by
  obtain ⟨hpruned, old, late, hsplit, hlate, hold, hyoung⟩ := h.prune
  rcases accept_cases x.registry room proof x.now with ⟨e, haccept⟩ | ⟨isNew, haccept, hnew, -⟩
  · refine @World.Spaced.later _ { x with registry := x.registry.prune x.now } _ hpruned (Nat.le_refl _) ?_ ?_
    · simp only [World.offer, haccept, List.append_nil]
    · simp only [World.offer, haccept]
  · have haccepted : (x.offer room proof).accepted = old ++ (late ++ [⟨room, proof, x.now⟩]) := by
      rw [← List.append_assoc, ← hsplit]
      simp only [World.offer, haccept]
    -- the cache has room, so that nothing young is evicted
    have hroom : (x.registry.prune x.now).nonces.length < maxNonces := by
      have hall : (late ++ [(⟨room, proof, x.now⟩ : Accepted)]).filter (fun a => decide (x.now - nonceWindow ≤ a.instant) &&
          decide (a.instant ≤ x.now - nonceWindow + nonceWindow)) = late ++ [⟨room, proof, x.now⟩] := by
        refine List.filter_eq_self.2 (fun a ha => ?_)
        have hnow : x.now - a.instant ≤ nonceWindow ∧ a.instant ≤ x.now := by
          rcases List.mem_append.1 ha with ha | ha
          · exact ⟨hyoung a ha, h.past a (by rw [hsplit]; exact List.mem_append_right _ ha)⟩
          · rw [List.mem_singleton.1 ha]
            exact ⟨by simp, Nat.le_refl _⟩
        rw [Bool.and_eq_true, decide_eq_true_eq, decide_eq_true_eq]
        omega
      have hmany := hpaced (x.now - nonceWindow)
      rw [haccepted, List.filter_append, hall, List.length_append, List.length_append, List.length_singleton] at hmany
      rw [← hlate, List.length_map]
      omega
    obtain ⟨gone, hgone, -, hcond⟩ := popWhile_spec (fun _ rest => decide (maxNonces ≤ rest.length + 1))
      (x.registry.prune x.now).nonces (x.registry.prune x.now).nonceSet
    have hnone : gone = [] := List.eq_nil_iff_forall_not_mem.2 (fun e he => by
      obtain ⟨rest, hrest, hp⟩ := hcond e he
      have := of_decide_eq_true hp
      omega)
    rw [hnone] at hgone
    have hnonces : (x.offer room proof).registry.nonces = (late ++ [(⟨room, proof, x.now⟩ : Accepted)]).map Accepted.stamp := by
      rw [List.map_append, hlate]
      conv_rhs => rw [hgone]
      simp only [World.offer, haccept]
      rfl
    have hkeys : (x.registry.prune x.now).Paired := hpaired.prune _
    refine ⟨fun a ha => ?_, ?_, ⟨old, late ++ [⟨room, proof, x.now⟩], haccepted, hnonces.symm, hold⟩, ?_, fun a ha => ?_⟩
    · rw [haccepted, ← List.append_assoc, ← hsplit] at ha
      rcases List.mem_append.1 ha with ha | ha
      · exact h.past a ha
      · rw [List.mem_singleton.1 ha]
        exact Nat.le_refl _
    · rw [haccepted, ← List.append_assoc, ← hsplit]
      exact List.pairwise_append.2 ⟨h.ascending, List.pairwise_singleton _ _, fun a ha b hb => by
        rw [List.mem_singleton.1 hb]
        exact h.past a ha⟩
    · rw [haccepted, ← List.append_assoc, ← hsplit]
      refine List.pairwise_append.2 ⟨h.apart, List.pairwise_singleton _ _, fun a ha b hb hsame => ?_⟩
      rw [List.mem_singleton.1 hb] at hsame ⊢
      rw [hsplit] at ha
      rcases List.mem_append.1 ha with ha | ha
      · have := hold a ha
        change a.instant + nonceWindow < x.now
        omega
      · refine absurd ?_ hnew
        rw [hkeys.set, List.mem_toFinset, ← hlate, List.map_map]
        simp only [DidProof.sameNonce, Bool.and_eq_true, decide_eq_true_eq] at hsame
        exact List.mem_map.2 ⟨a, ha, by simp only [Function.comp_apply, Accepted.stamp, hsame.1, hsame.2]⟩
    · rw [haccepted, ← List.append_assoc, ← hsplit] at ha
      rcases List.mem_append.1 ha with ha | ha
      · exact h.skew a ha
      · rw [List.mem_singleton.1 ha]
        exact hts

/-! ## Along a run -/

theorem start_sound : World.start.registry.Sound C := ⟨⟨rfl, .nil⟩, fun _ _ h => (by cases h), Nat.zero_le _, fun _ => Nat.zero_le _⟩

theorem sound_step (h : x.registry.Sound C) (hstep : x.step C epoch act = some x') : x'.registry.Sound C := by
  cases act with
  | pass dt =>
    cases hstep
    exact h
  | prune =>
    cases hstep
    exact h.prune _
  | remove room node =>
    cases hstep
    exact h.remove room node
  | removeRoom room =>
    cases hstep
    exact h.filter _
  | accept tag room sender value nowMs =>
    obtain ⟨p, hp, rfl⟩ := Option.map_eq_some_iff.1 hstep
    exact h.accept (proofOf_eq_some hp).1

theorem accepted_step (hstep : x.step C epoch act = some x') : x.accepted <+: x'.accepted := by
  cases act with
  | accept tag room sender value nowMs =>
    obtain ⟨p, -, rfl⟩ := Option.map_eq_some_iff.1 hstep
    exact List.prefix_append _ _
  | pass | prune | remove | removeRoom =>
    cases hstep
    exact List.prefix_rfl

theorem World.Paced.earlier (h : x'.Paced) (hstarts : x.accepted <+: x'.accepted) : x.Paced := fun t =>
  (hstarts.sublist.filter _).length_le.trans (h t)

theorem spaced_step (h : x.Spaced epoch) (hpaired : x.registry.Paired) (hpaced : x'.Paced)
    (hstep : x.step C epoch act = some x') : x'.Spaced epoch := by
  cases act with
  | pass dt =>
    cases hstep
    exact @World.Spaced.later _ x _ h (Nat.le_add_right _ _) rfl rfl
  | prune =>
    cases hstep
    exact h.prune.1
  | remove | removeRoom =>
    cases hstep
    exact @World.Spaced.later _ x _ h (Nat.le_refl _) rfl rfl
  | accept tag room sender value nowMs =>
    obtain ⟨p, hp, rfl⟩ := Option.map_eq_some_iff.1 hstep
    exact h.offer hpaired (proofOf_eq_some hp).2 hpaced

theorem run_sound {acts : List Act} (hrun : World.run C epoch acts = some x) : x.registry.Sound C :=
  @Runs.invariant World Act (World.step C epoch) (fun _ _ => true) (fun x => x.registry.Sound C)
    (fun _ _ _ h _ hstep => sound_step h hstep) acts World.start x start_sound (Runs.along_true _ _) hrun

/-- **The registry of hellos.**  In a run whose accepted proofs are paced and timely, no nonce of a node is accepted
twice while its timestamp is fresh.  In every run a binding has the node id of its DID, and there are as many as the
caps allow. -/
theorem proof_accepted_once (C : Crates) (epoch : Nat) : (∀ acts x, World.run C epoch acts = some x → x.Paced →
      Runs.along (World.step C epoch) (World.timely C epoch) World.start acts = true →
      x.accepted.Pairwise (fun a b => a.proof.sameNonce b.proof = true → fresh a.proof.tsMs (wallMs epoch b.instant) = false)) ∧
    (∀ acts x, World.run C epoch acts = some x → x.registry.Sound C) ∧
    ∀ acts x, World.run C epoch acts = some x → ∀ act x', x.step C epoch act = some x' → ∀ key e, x.registry.entries.get key = some e →
        (x'.registry.entries.get key).map Entry.did = some e.did ∨ verifiedTtl < x.now - e.lastSeen ∨
          act = .remove key.1 key.2 ∨ act = .removeRoom key.1 := by
  refine ⟨fun acts x hrun hpaced htimely => ?_, fun acts x hrun => run_sound hrun,
    fun acts x _ act x' hstep key e hget => binding_step hstep hget⟩
  refine (@Runs.invariant World Act (World.step C epoch) (World.timely C epoch)
    (fun x => (x.Paced → x.Spaced epoch) ∧ x.registry.Sound C ∧ (x.Paced → x.accepted.Pairwise (fun a b =>
      a.proof.sameNonce b.proof = true → fresh a.proof.tsMs (wallMs epoch b.instant) = false)))
    (fun x x' act h hok hstep => ?_) acts World.start x ⟨fun _ => start_spaced, start_sound, fun _ => .nil⟩ htimely hrun).2.2
    hpaced
  obtain ⟨hspaced, hsound, honce⟩ := h
  have hstepSpaced : x'.Paced → x'.Spaced epoch := fun hpaced =>
    spaced_step (hspaced (hpaced.earlier (accepted_step hstep))) hsound.paired hpaced hstep
  refine ⟨hstepSpaced, sound_step hsound hstep, fun hpaced => ?_⟩
  have hbefore := honce (hpaced.earlier (accepted_step hstep))
  have happart := (hstepSpaced hpaced).apart
  cases act with
  | pass | prune | remove | removeRoom =>
    cases hstep
    exact hbefore
  | accept tag room sender value nowMs =>
    obtain ⟨p, hp, rfl⟩ := Option.map_eq_some_iff.1 hstep
    rw [World.timely, hp] at hok
    have hall := List.all_eq_true.1 hok
    have haccepted : ∃ late, (x.offer p.1 p.2).accepted = x.accepted ++ late ∧ late = [⟨p.1, p.2, x.now⟩] ∨
        (x.offer p.1 p.2).accepted = x.accepted := by
      unfold World.offer
      split
      · exact ⟨_, .inl ⟨rfl, rfl⟩⟩
      · exact ⟨[], .inr (List.append_nil _)⟩
    obtain ⟨late, ⟨hlate, rfl⟩ | hsame⟩ := haccepted
    · rw [hlate] at happart ⊢
      refine List.pairwise_append.2 ⟨hbefore, List.pairwise_singleton _ _, fun a ha b hb hsame => ?_⟩
      have hlt := (List.pairwise_append.1 happart).2.2 a ha b hb hsame
      rw [List.mem_singleton.1 hb] at hsame hlt ⊢
      have hnot := hall a ha
      rw [Bool.eq_false_iff]
      intro hfresh
      rw [hsame, hfresh] at hnot
      simp only [Bool.and_self, Bool.not_true, Bool.false_or, decide_eq_true_eq] at hnot
      have : a.instant + nonceWindow < x.now := hlt
      omega
    · rw [hsame]
      exact hbefore

/-! ## Two runs -/

def helloTag : String := "mistl-did-hello-v1"

def sampleHello (ts : Nat) : Json :=
  .obj [("t", .str helloTag), ("room", .str "lobby"), ("node", .str "0000000000000000"), ("fromId", .str Dm.ann),
    ("ts", .int ts), ("nonce", .str "6e6f6e6365"), ("re", .bool false),
    ("signature", .str (String.ofList (List.replicate 86 'A')))]

/-- A hello that is dated as far ahead as is accepted, and again after `dt`. -/
def twiceActs (dt : Nat) : List Act :=
  [.accept helloTag "lobby" "0000000000000000" (sampleHello 1120000) 1000000, .remove "lobby" "0000000000000000",
    .pass dt, .accept helloTag "lobby" "0000000000000000" (sampleHello 1120000) 1240000]

theorem paced_of_few (h : x.accepted.length ≤ maxNonces) : x.Paced := fun _ => (List.length_filter_le _ _).trans h

theorem proof_accepted_once_stale : ∃ x, World.run (sampleCrates []) 1000000000000 [.accept helloTag "lobby" "0000000000000000"
      (sampleHello 1120000) 1000000, .pass (240000 * nsPerMs),
      .accept helloTag "lobby" "0000000000000000" (sampleHello 1120000) 1240000] = some x ∧
    x.accepted.length = 1 ∧ x.registry.Sound (sampleCrates []) ∧
    x.accepted.Pairwise (fun a b => a.proof.sameNonce b.proof = true →
      fresh a.proof.tsMs (wallMs 1000000000000 b.instant) = false) := by
  obtain ⟨honce, hsound, -⟩ := proof_accepted_once (sampleCrates []) 1000000000000
  have hrun : ∃ x, World.run (sampleCrates []) 1000000000000 [.accept helloTag "lobby" "0000000000000000"
      (sampleHello 1120000) 1000000, .pass (240000 * nsPerMs),
      .accept helloTag "lobby" "0000000000000000" (sampleHello 1120000) 1240000] = some x ∧ x.accepted.length = 1 := by
    refine ⟨_, rfl, ?_⟩
    decide
  obtain ⟨x, hrun, hlength⟩ := hrun
  refine ⟨x, hrun, hlength, hsound _ x hrun, honce _ x hrun (paced_of_few (by rw [hlength]; decide)) ?_⟩
  decide

/-- **A hello is accepted twice while it is fresh**: half a millisecond after the cache forgot its nonce, at the last
millisecond of its timestamp. -/
theorem fresh_hello_replayed : ∃ x a b, World.run (sampleCrates []) 1000000000000 (twiceActs (240000 * nsPerMs + 500000)) =
      some x ∧ x.Paced ∧ x.accepted = [a, b] ∧ a.proof.sameNonce b.proof = true ∧
    fresh a.proof.tsMs (wallMs 1000000000000 b.instant) = true := by
  refine ⟨_, _, _, rfl, paced_of_few ?_, rfl, ?_, ?_⟩
  · decide
  · decide
  · decide

end Mistl.PeerAuth
