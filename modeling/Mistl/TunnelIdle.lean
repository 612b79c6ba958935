import Mathlib.Data.Multiset.AddSub
import Mistl.TunnelUdp
/-!
# TunnelIdle — which datagrams keep a UDP session

`tunnel/udp/local.rs` and `tunnel/udp/tunnel.rs`, on either side of a forward.  The cleanup removes the sessions not seen
for `UDP_TIMEOUT`; a packet of a local client and a reply of the backend stamp their session, what the peer sends does not.
-/
open List

namespace Mistl.UdpIdle

open Tunnel (Bytes)
open Udp (udpTimeout maxUdpSessionsPerPeer maxPendingUdpPackets PendingUdp)

/-- `connected` where there is a `target_conn`. -/
structure UdpConn where
  connected : Bool
  lastSeen : Nat
  peerId : String
  clientAddr : Option String
  did : Option String

/-- A session is opened, or a datagram passes: of the local client, of the peer, of the backend. -/
inductive Kind where
  | opened
  | fromClient
  | fromPeer
  | fromBackend
  deriving DecidableEq

structure Event where
  kind : Kind
  connId : String
  time : Nat

/-- What is still to do: `handle_local_packet` before the tunnel is ready and before it stamps the session; `handle_data`
before it counts the sessions and before it looks at what is pending; `authorize_and_open`, and
`forward_target_to_tunnel` before a packet. -/
inductive Task where
  | ready (addr : String)
  | stamp (addr : String)
  | count (peerId connId : String) (payload : Bytes)
  | enqueue (peerId connId : String) (payload : Bytes) (did : Option String) (sessions : Nat)
  | authorize (connId peerId : String)
  | relay (connId : String)
  deriving DecidableEq

structure UdpManager where
  remoteAddr : String
  conns : Table String UdpConn
  pending : Table String PendingUdp
  tasks : Multiset Task
  now : Nat
  log : List Event

/-- What the environment answers: the server peer that is found, the DID that the sender maps to, and whether a session is
allowed and connected, a send goes through, a packet is there. -/
structure Env where
  peer : Option String
  mapped : Option String
  done : Bool

inductive Act where
  | packet (addr : String)
  | data (peerId connId : String) (payload : Bytes) (socket : Bool) (env : Env)
  | task (t : Task) (env : Env)
  | tick
  | pass (dt : Nat)

namespace UdpManager

def start (remoteAddr : String) : UdpManager := ⟨remoteAddr, ∅, ∅, 0, 0, []⟩

def sessionsOf (x : UdpManager) (peerId : String) : Nat := x.conns.total fun _ uc => if uc.peerId = peerId then 1 else 0

def pendingOf (x : UdpManager) (peerId : String) : Nat := x.pending.total fun _ p => if p.peerId = peerId then 1 else 0

def spawn (x : UdpManager) (t : Task) : UdpManager := { x with tasks := t ::ₘ x.tasks }

def touch (x : UdpManager) (kind : Kind) (connId : String) : UdpManager :=
  match x.conns.get connId with
  | some uc => { x with
      conns := x.conns.insert connId { uc with lastSeen := x.now }
      log := x.log ++ [⟨kind, connId, x.now⟩] }
  | none => x

def «open» (x : UdpManager) (connId : String) (uc : UdpConn) : UdpManager :=
  { x with conns := x.conns.insert connId { uc with lastSeen := x.now }, log := x.log ++ [⟨.opened, connId, x.now⟩] }

/-- `handle_data` where no session takes the datagram -/
def unknown (x : UdpManager) (peerId connId : String) (payload : Bytes) : UdpManager :=
  if x.remoteAddr = "" then x else x.spawn (.count peerId connId payload)

/-- `handle_data` with a payload; the peer's DID is what it maps to. -/
def handleData (x : UdpManager) (peerId connId : String) (payload : Bytes) (socket : Bool) (env : Env) : UdpManager :=
  match x.conns.get connId with
  | some uc =>
    if uc.peerId ≠ peerId ∨ uc.did.isSome ∧ uc.did ≠ env.mapped then x
    else if uc.connected || (uc.clientAddr.isSome && socket) then
      { x with log := x.log ++ if env.done then [⟨.fromPeer, connId, x.now⟩] else [] }
    else x.unknown peerId connId payload
  | none => x.unknown peerId connId payload

/-- `handle_data` under the lock of `pending` -/
def enqueue (x : UdpManager) (peerId connId : String) (payload : Bytes) (did : Option String) (sessions : Nat) : UdpManager :=
  match x.pending.get connId with
  | some entry =>
    if entry.peerId = peerId ∧ entry.queued.length < maxPendingUdpPackets then
      { x with pending := x.pending.insert connId { entry with queued := entry.queued ++ [payload] } }
    else x
  | none =>
    if maxUdpSessionsPerPeer ≤ sessions + x.pendingOf peerId then x
    else spawn { x with pending := x.pending.insert connId ⟨peerId, did, [payload]⟩ } (.authorize connId peerId)

/-- The end of `authorize_and_open`; what was queued passes with the opening. -/
def authorizeAndOpen (x : UdpManager) (connId peerId : String) (allowed : Bool) : UdpManager :=
  let y := { x with pending := x.pending.erase connId }
  match x.pending.get connId with
  | some entry =>
    if allowed then
      let z := («open» y connId ⟨true, x.now, peerId, none, entry.did⟩).spawn (.relay connId)
      { z with log := z.log ++ entry.queued.map (fun _ => ⟨.fromPeer, connId, x.now⟩) }
    else y
  | none => y

def turn (x : UdpManager) (env : Env) : Task → UdpManager
  | .ready addr =>
    match env.peer with
    | some id => («open» x addr ⟨false, x.now, id, some addr, none⟩).spawn (.stamp addr)
    | none => x
  | .stamp addr => x.touch .fromClient addr
  | .count peerId connId payload => x.spawn (.enqueue peerId connId payload env.mapped (x.sessionsOf peerId))
  | .enqueue peerId connId payload did sessions => x.enqueue peerId connId payload did sessions
  | .authorize connId peerId => x.authorizeAndOpen connId peerId env.done
  | .relay connId => if env.done then (x.touch .fromBackend connId).spawn (.relay connId) else x

/-- `cleanup_loop` under the lock of `conns` -/
def tick (x : UdpManager) : UdpManager := { x with conns := x.conns.filter (fun _ uc => !decide (udpTimeout < x.now - uc.lastSeen)) }

def step (x : UdpManager) : Act → Option UdpManager
  | .packet addr => some (x.spawn (if (x.conns.get addr).isSome then .stamp addr else .ready addr))
  | .data peerId connId payload socket env => some (if payload = [] then x else x.handleData peerId connId payload socket env)
  | .task t env => if t ∈ x.tasks then some (turn { x with tasks := x.tasks.erase t } env t) else none
  | .tick => some x.tick
  | .pass dt => some { x with now := x.now + dt }

def run (remoteAddr : String) (acts : List Act) : Option UdpManager := Runs.run step (start remoteAddr) acts

end UdpManager

def Kind.stamps : Kind → Bool
  | .fromPeer => false
  | _ => true

namespace UdpManager

/-- A datagram passed through the session less than `UDP_TIMEOUT` ago. -/
def Active (x : UdpManager) (connId : String) : Prop := ∃ e ∈ x.log, e.kind ≠ .opened ∧ e.connId = connId ∧ x.now - e.time < udpTimeout

def Kept (x : UdpManager) : Prop :=
  ∀ connId, (x.conns.get connId).isSome = true → x.Active connId → (x.tick.conns.get connId).isSome = true

/-- A session that is active was opened, or had a datagram of its own client or backend, within `UDP_TIMEOUT`. -/
def TwoWay (x : UdpManager) : Prop := ∀ connId, (x.conns.get connId).isSome = true → x.Active connId →
    ∃ e ∈ x.log, e.kind.stamps = true ∧ e.connId = connId ∧ x.now - e.time ≤ udpTimeout

/-- Every session was last seen at the last event that stamps it. -/
structure Stamped (x : UdpManager) : Prop where
  past : ∀ e ∈ x.log, e.time ≤ x.now
  seen : ∀ connId uc, x.conns.get connId = some uc → ∃ e ∈ x.log, e.kind.stamps = true ∧ e.connId = connId ∧ e.time = uc.lastSeen
  last : ∀ connId uc, x.conns.get connId = some uc → ∀ e ∈ x.log, e.kind.stamps = true → e.connId = connId → e.time ≤ uc.lastSeen

variable {x x' : UdpManager} {connId peerId : String} {env : Env}

theorem Stamped.start (remoteAddr : String) : (start remoteAddr).Stamped := ⟨nofun, nofun, nofun⟩

section

variable (h : x.Stamped)

include h

theorem Stamped.spawn (t : Task) : (x.spawn t).Stamped := ⟨h.past, h.seen, h.last⟩

theorem Stamped.passed {events : List Event} (hevents : ∀ e ∈ events, e.kind = .fromPeer ∧ e.time = x.now) :
    Stamped { x with log := x.log ++ events } := by
  refine ⟨fun e he => ?_, fun id uc hget => ?_, fun id uc hget e he hstamps hid => ?_⟩
  · rcases mem_append.1 he with he | he
    · exact h.past e he
    · exact le_of_eq (hevents e he).2
  · obtain ⟨e, he, hof⟩ := h.seen id uc hget
    exact ⟨e, mem_append_left _ he, hof⟩
  · rcases mem_append.1 he with he | he
    · exact h.last id uc hget e he hstamps hid
    · rw [(hevents e he).1] at hstamps
      exact absurd hstamps Bool.false_ne_true

theorem Stamped.insert {kind : Kind} (hkind : kind.stamps = true) (uc : UdpConn) : Stamped { x with
      conns := x.conns.insert connId { uc with lastSeen := x.now }, log := x.log ++ [⟨kind, connId, x.now⟩] } := by
  refine ⟨fun e he => ?_, fun id old hget => ?_, fun id old hget e he hstamps hid => ?_⟩
  · rcases mem_append.1 he with he | he
    · exact h.past e he
    · rw [mem_singleton.1 he]
  · rcases Table.of_get_insert hget with ⟨heq, rfl⟩ | ⟨-, hget⟩
    · exact ⟨_, mem_append_right _ (mem_singleton_self _), hkind, heq.symm, rfl⟩
    · obtain ⟨e, he, hof⟩ := h.seen id old hget
      exact ⟨e, mem_append_left _ he, hof⟩
  · rcases Table.of_get_insert hget with ⟨-, rfl⟩ | ⟨hne, hget⟩
    · rcases mem_append.1 he with he | he
      · exact h.past e he
      · rw [mem_singleton.1 he]
    · rcases mem_append.1 he with he | he
      · exact h.last id old hget e he hstamps hid
      · rw [mem_singleton.1 he] at hid
        exact absurd hid.symm hne

theorem Stamped.touch {kind : Kind} (hkind : kind.stamps = true) (connId : String) : (x.touch kind connId).Stamped := by
  unfold UdpManager.touch
  split
  · exact h.insert hkind _
  · exact h

theorem Stamped.open (connId : String) (uc : UdpConn) : («open» x connId uc).Stamped := h.insert rfl uc

theorem Stamped.tick : x.tick.Stamped := by
  have hkept : ∀ id uc, x.tick.conns.get id = some uc → x.conns.get id = some uc := by
    intro id uc hget
    unfold UdpManager.tick at hget
    rw [Table.get_filter] at hget
    exact (Option.filter_eq_some_iff.1 hget).1
  exact ⟨h.past, fun id uc hget => h.seen id uc (hkept id uc hget), fun id uc hget => h.last id uc (hkept id uc hget)⟩

theorem Stamped.unknown (payload : Bytes) : (x.unknown peerId connId payload).Stamped := by
  unfold UdpManager.unknown
  split
  · exact h
  · exact h.spawn _

theorem Stamped.handleData (payload : Bytes) (socket : Bool) : (x.handleData peerId connId payload socket env).Stamped := by
  unfold UdpManager.handleData
  split
  · split
    · exact h
    split
    · refine h.passed (fun e he => ?_)
      split at he
      · rw [mem_singleton.1 he]
        exact ⟨rfl, rfl⟩
      · cases he
    · exact h.unknown payload
  · exact h.unknown payload

theorem Stamped.enqueue (payload : Bytes) (did : Option String) (sessions : Nat) :
    (x.enqueue peerId connId payload did sessions).Stamped := by
  unfold UdpManager.enqueue
  split
  · split
    · exact ⟨h.past, h.seen, h.last⟩
    · exact h
  · split
    · exact h
    · exact ⟨h.past, h.seen, h.last⟩

theorem Stamped.authorizeAndOpen (allowed : Bool) : (x.authorizeAndOpen connId peerId allowed).Stamped := by
  have hy : Stamped { x with pending := x.pending.erase connId } := ⟨h.past, h.seen, h.last⟩
  unfold UdpManager.authorizeAndOpen
  split
  · rename_i entry _
    split
    · refine ((hy.open connId ⟨true, x.now, peerId, none, entry.did⟩).spawn (.relay connId)).passed (fun e he => ?_)
      obtain ⟨_, -, rfl⟩ := mem_map.1 he
      exact ⟨rfl, rfl⟩
    · exact hy
  · exact hy

theorem Stamped.turn (env : Env) (t : Task) : (x.turn env t).Stamped := by
  cases t with
  | ready addr =>
    dsimp only [UdpManager.turn]
    split
    · exact (h.open addr _).spawn _
    · exact h
  | stamp addr => exact h.touch rfl addr
  | count peerId connId payload => exact h.spawn _
  | enqueue peerId connId payload did sessions => exact h.enqueue payload did sessions
  | authorize connId peerId => exact h.authorizeAndOpen env.done
  | relay connId =>
    dsimp only [UdpManager.turn]
    split
    · exact (h.touch rfl connId).spawn _
    · exact h

theorem Stamped.step {act : Act} (hstep : step x act = some x') : x'.Stamped := by
  cases act with
  | packet addr =>
    cases hstep
    exact h.spawn _
  | data peerId connId payload socket env =>
    cases hstep
    split
    · exact h
    · exact h.handleData payload socket
  | task t env =>
    dsimp only [UdpManager.step] at hstep
    split at hstep
    · cases hstep
      exact Stamped.turn (x := { x with tasks := x.tasks.erase t }) ⟨h.past, h.seen, h.last⟩ env t
    · cases hstep
  | tick =>
    cases hstep
    exact h.tick
  | pass dt =>
    cases hstep
    exact ⟨fun e he => (h.past e he).trans (Nat.le_add_right _ _), h.seen, h.last⟩

end

theorem Stamped.run {remoteAddr : String} {acts : List Act} (hrun : run remoteAddr acts = some x) : x.Stamped :=
  Runs.invariant (fun _ _ _ h _ hstep => Stamped.step h hstep) (Stamped.start remoteAddr) (Runs.along_true _ acts) hrun

theorem Stamped.kept_iff (h : x.Stamped) : x.Kept ↔ x.TwoWay := by
  have htick : ∀ id uc, x.conns.get id = some uc → ((x.tick.conns.get id).isSome = true ↔ x.now - uc.lastSeen ≤ udpTimeout) := by
    intro id uc hget
    unfold UdpManager.tick
    rw [Table.get_filter, hget, Option.filter_some]
    by_cases hle : x.now - uc.lastSeen ≤ udpTimeout
    · rw [decide_eq_false (Nat.not_lt.2 hle)]
      exact ⟨fun _ => hle, fun _ => rfl⟩
    · rw [decide_eq_true (Nat.lt_of_not_le hle)]
      exact ⟨fun hsome => absurd hsome Bool.false_ne_true, fun h => absurd h hle⟩
  constructor
  · intro hkept id hid hactive
    obtain ⟨uc, hget⟩ := Option.isSome_iff_exists.1 hid
    obtain ⟨e, he, hstamps, hconn, htime⟩ := h.seen id uc hget
    exact ⟨e, he, hstamps, hconn, htime ▸ (htick id uc hget).1 (hkept id hid hactive)⟩
  · intro htwo id hid hactive
    obtain ⟨uc, hget⟩ := Option.isSome_iff_exists.1 hid
    obtain ⟨e, he, hstamps, hconn, hle⟩ := htwo id hid hactive
    have hlast := h.last id uc hget e he hstamps hconn
    exact (htick id uc hget).2 ((Nat.sub_le_sub_left hlast _).trans hle)

/-- **No cleanup of a run removes an active session, exactly when each active session has an event of its own side to show for
it**: a flow that only comes from the peer does not keep its session. -/
theorem never_reaped (remoteAddr : String) (acts : List Act) :
    (∀ before x, before ++ [.tick] <+: acts → run remoteAddr before = some x → x.Kept) ↔
      ∀ before x, before ++ [.tick] <+: acts → run remoteAddr before = some x → x.TwoWay :=
  forall₄_congr (fun _ _ _ hrun => (Stamped.run hrun).kept_iff)

def oneWay : List Act := [.packet "127.0.0.1:5000", .task (.ready "127.0.0.1:5000") ⟨some "peer", none, true⟩,
    .task (.stamp "127.0.0.1:5000") ⟨none, none, true⟩, .pass (10 * 10 ^ 9), .data "peer" "127.0.0.1:5000" [1] true ⟨none, none, true⟩,
    .pass (10 * 10 ^ 9), .data "peer" "127.0.0.1:5000" [2] true ⟨none, none, true⟩, .pass (10 * 10 ^ 9 + 1),
    .data "peer" "127.0.0.1:5000" [3] true ⟨none, none, true⟩]

theorem oneWay_reaped : ¬ ∀ (remoteAddr : String) (acts before : List Act) (x : UdpManager),
    before ++ [.tick] <+: acts → run remoteAddr before = some x → x.Kept := by
  intro h
  have hrun : (run "" oneWay).any (fun x => (x.conns.get "127.0.0.1:5000").isSome &&
      x.log.any (fun e => decide (e.kind ≠ .opened ∧ e.connId = "127.0.0.1:5000" ∧ x.now - e.time < udpTimeout)) &&
      !(x.tick.conns.get "127.0.0.1:5000").isSome) = true := by decide
  cases hx : run "" oneWay with
  | none =>
    rw [hx] at hrun
    exact absurd hrun Bool.false_ne_true
  | some x =>
    rw [hx, Option.any_some, Bool.and_eq_true, Bool.and_eq_true, any_eq_true, Bool.not_eq_true'] at hrun
    obtain ⟨⟨hget, e, he, hof⟩, hreaped⟩ := hrun
    have hkept := h "" (oneWay ++ [.tick]) oneWay x (prefix_refl _) hx _ hget ⟨e, he, of_decide_eq_true hof⟩
    rw [hreaped] at hkept
    exact absurd hkept Bool.false_ne_true

end UdpManager

end Mistl.UdpIdle
