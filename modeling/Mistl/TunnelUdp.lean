import Mistl.Lib.Runs
import Mistl.TunnelConns
/-!
# TunnelUdp — the sessions of one UDP forward

`tunnel/udp.rs`, `tunnel/udp/tunnel.rs`, the cleanup of `tunnel/udp/local.rs`, on the side that serves.  A task for each
conn id authorizes its session, opens its socket and relays what it answers; the loop looks at the sessions and at what is
pending under one lock after the other.
-/
open Mistl.Table Option

namespace Mistl.Udp

open Tunnel (Bytes TunnelMessage AuthRequest)

/-- `UDP_TIMEOUT`, in nanoseconds -/
def udpTimeout : Nat := 30 * 10 ^ 9

def maxUdpSessionsPerPeer : Nat := 64

def maxPendingUdpPackets : Nat := 32

/-- `UdpConn` of the serving side; a socket is named after the task that opened it. -/
structure UdpConn where
  sock : Nat
  lastSeen : Nat
  peerId : String
  did : Option String

structure PendingUdp where
  peerId : String
  did : Option String
  queued : List Bytes

/-- Where the message loop stands in `handle_data`. -/
inductive Loop where
  | idle
  | look (peerId connId : String) (payload : Bytes)
  | send (sock : Nat) (payload : Bytes)
  | count (peerId connId : String) (payload : Bytes)
  | enqueue (peerId connId : String) (payload : Bytes) (did : Option String) (sessions : Nat)
  deriving DecidableEq

/-- Where a task stands: in `authorize_and_open` before the decision, on the way to remove its pending entry, before its
socket is connected, before its session is tracked, while it sends what was queued; and in `forward_target_to_tunnel`,
before a packet of the socket and before the packet's relaying. -/
inductive Task where
  | decide (connId peerId : String) (did : Option String)
  | drop (connId peerId : String) (did : Option String)
  | bind (connId peerId : String) (did : Option String)
  | track (connId peerId : String) (did : Option String)
  | flush (connId peerId : String) (queued : List Bytes)
  | read (connId peerId : String)
  | relay (connId peerId : String) (payload : Bytes)
  deriving DecidableEq

/-- What the authorizer decided, what went to a backend socket, and what was relayed to a peer. -/
inductive Event where
  | allowed (req : AuthRequest)
  | forwarded (sock : Nat) (payload : Bytes)
  | relayed (connId peerId : String) (payload : Bytes)

/-- A `UdpManager` and the tasks that share it; `closing` are the peers whose metrics the cleanup has still to count down. -/
structure UdpManager where
  target : String
  remoteAddr : String
  conns : Table String UdpConn
  pending : Table String PendingUdp
  active : Table String Nat
  cancelled : Bool
  now : Nat
  loop : Loop
  tasks : Table Nat Task
  next : Nat
  closing : Multiset String
  log : List Event

/-- What the environment answers to a task: the authorizer's decision, whether a socket was connected or a send went through,
and the packet that was received, none being an error or the shutdown. -/
structure Env where
  allowed : Bool
  done : Bool
  packet : Option Bytes

/-- A message comes in; the loop or a task goes on; the cleanup ticks, or counts a closed session; time passes; the forward
is cancelled. -/
inductive Act where
  | receive (peerId : String) (tm : TunnelMessage)
  | handle (mapped : Option String) (sent : Bool)
  | task (id : Nat) (env : Env)
  | tick
  | close (peerId : String)
  | pass (dt : Nat)
  | cancel

namespace UdpManager

def start (target remoteAddr : String) : UdpManager := ⟨target, remoteAddr, ∅, ∅, ∅, false, 0, .idle, ∅, 0, 0, []⟩

def sessionsOf (x : UdpManager) (peerId : String) : Nat := x.conns.total fun _ uc => if uc.peerId = peerId then 1 else 0

def pendingOf (x : UdpManager) (peerId : String) : Nat := x.pending.total fun _ p => if p.peerId = peerId then 1 else 0

/-- The `active_conns` of a peer. -/
def activeConns (x : UdpManager) (peerId : String) : Nat := (x.active.get peerId).getD 0

def recordConnOpen (x : UdpManager) (peerId : String) : UdpManager :=
  { x with active := x.active.insert peerId (x.activeConns peerId + 1) }

def recordConnClose (x : UdpManager) (peerId : String) : UdpManager :=
  { x with active := x.active.insert peerId (x.activeConns peerId - 1) }

/-- `authorize_remote_session`'s request -/
def request (x : UdpManager) (peerId : String) (did : Option String) : AuthRequest := ⟨peerId, x.target, x.remoteAddr, "udp", did⟩

/-- `handle_data` under the lock of `pending` -/
def enqueue (x : UdpManager) (peerId connId : String) (payload : Bytes) (did : Option String) (sessions : Nat) : UdpManager :=
  match x.pending.get connId with
  | some entry =>
    if entry.peerId = peerId ∧ entry.queued.length < maxPendingUdpPackets then
      { x with loop := .idle, pending := x.pending.insert connId { entry with queued := entry.queued ++ [payload] } }
    else { x with loop := .idle }
  | none =>
    if maxUdpSessionsPerPeer ≤ sessions + x.pendingOf peerId then { x with loop := .idle }
    else { x with
      loop := .idle
      pending := x.pending.insert connId ⟨peerId, did, [payload]⟩
      tasks := x.tasks.insert x.next (.decide connId peerId did)
      next := x.next + 1 }

/-- The next section of `handle_data`, where the peer maps to a DID. -/
def handle (x : UdpManager) (mapped : Option String) (sent : Bool) : UdpManager :=
  match x.loop with
  | .idle => x
  | .look peerId connId payload =>
    match x.conns.get connId with
    | some uc =>
      if uc.peerId ≠ peerId ∨ uc.did.isSome ∧ uc.did ≠ mapped then { x with loop := .idle }
      else { x with loop := .send uc.sock payload }
    | none => if x.remoteAddr = "" then { x with loop := .idle } else { x with loop := .count peerId connId payload }
  | .send sock payload => { x with loop := .idle, log := x.log ++ if sent then [Event.forwarded sock payload] else [] }
  | .count peerId connId payload => { x with loop := .enqueue peerId connId payload mapped (x.sessionsOf peerId) }
  | .enqueue peerId connId payload did sessions => x.enqueue peerId connId payload did sessions

def go (x : UdpManager) (id : Nat) : Option Task → UdpManager
  | some t => { x with tasks := x.tasks.insert id t }
  | none => { x with tasks := x.tasks.erase id }

def track (x : UdpManager) (id : Nat) (connId peerId : String) : UdpManager :=
  match x.pending.get connId with
  | none => x.go id none
  | some entry =>
    let y := { x with
      pending := x.pending.erase connId
      conns := x.conns.insert connId ⟨id, x.now, peerId, entry.did⟩ }
    go (if (x.conns.get connId).isNone then y.recordConnOpen peerId else y) id (some (.flush connId peerId entry.queued))

def turn (x : UdpManager) (id : Nat) (env : Env) : Task → UdpManager
  | .decide connId peerId did =>
    let y := { x with log := x.log ++ if env.allowed then [Event.allowed (x.request peerId did)] else [] }
    y.go id (some (if !env.allowed || x.cancelled then .drop connId peerId did else .bind connId peerId did))
  | .drop connId _ _ => go { x with pending := x.pending.erase connId } id none
  | .bind connId peerId did => x.go id (some (if env.done then .track connId peerId did else .drop connId peerId did))
  | .track connId peerId _ => x.track id connId peerId
  | .flush connId peerId [] => x.go id (some (.read connId peerId))
  | .flush connId peerId (packet :: queued) =>
    let y := { x with log := x.log ++ if env.done then [Event.forwarded id packet] else [] }
    y.go id (some (.flush connId peerId queued))
  | .read connId peerId =>
    match env.packet with
    | none => x.go id none
    | some packet =>
      let conns := ((x.conns.get connId).map (fun uc => { uc with lastSeen := x.now })).elim x.conns (x.conns.insert connId)
      go { x with conns := conns } id (some (.relay connId peerId packet))
  | .relay connId peerId packet =>
    let y := { x with log := x.log ++ if env.done then [Event.relayed connId peerId packet] else [] }
    y.go id (some (.read connId peerId))

/-- A session that `cleanup_loop` removes. -/
def expired (x : UdpManager) (uc : UdpConn) : Bool := decide (udpTimeout < x.now - uc.lastSeen)

/-- `cleanup_loop` under the lock of `conns` -/
def tick (x : UdpManager) : UdpManager := { x with
    conns := x.conns.filter (fun _ uc => !x.expired uc)
    closing := (x.conns.filter (fun _ uc => x.expired uc)).entries.map (fun e => e.2.peerId) }

def step (x : UdpManager) : Act → Option UdpManager
  | .receive peerId tm =>
    if x.loop = .idle ∧ x.cancelled = false then
      match tm.payload with
      | some payload => if tm.msgType = "data" ∧ payload ≠ [] then some { x with loop := .look peerId tm.connId payload } else some x
      | none => some x
    else none
  | .handle mapped sent => some (x.handle mapped sent)
  | .task id env => (x.tasks.get id).map (x.turn id env)
  | .tick => if x.closing = 0 ∧ x.cancelled = false then some x.tick else none
  | .close peerId => if peerId ∈ x.closing then some { x.recordConnClose peerId with closing := x.closing.erase peerId } else none
  | .pass dt => some { x with now := x.now + dt }
  | .cancel => some { x with cancelled := true }

def run (target remoteAddr : String) (acts : List Act) : Option UdpManager := Runs.run step (start target remoteAddr) acts

/-- A pending entry is made where its conn id has no session and its peer has room for one; and a session is removed when its
task is done. -/
def steady (x : UdpManager) : Act → Bool
  | .handle _ _ =>
    match x.loop with
    | .enqueue peerId connId _ _ sessions =>
      (x.pending.get connId).isSome || decide (maxUdpSessionsPerPeer ≤ sessions + x.pendingOf peerId) ||
        (x.conns.get connId).isNone && decide (x.sessionsOf peerId + x.pendingOf peerId < maxUdpSessionsPerPeer)
    | _ => true
  | .tick => x.conns.all (fun _ uc => !x.expired uc || (x.tasks.get uc.sock).isNone)
  | _ => true

end UdpManager

/-! ## What belongs to a task -/

def Task.asking : Task → Option (String × String × Option String)
  | .decide c p d | .drop c p d | .bind c p d | .track c p d => some (c, p, d)
  | _ => none

def Task.serving : Task → Option (String × String)
  | .flush c p _ | .read c p | .relay c p _ => some (c, p)
  | _ => none

def Task.granted : Task → Option (String × Option String)
  | .bind _ p d | .track _ p d => some (p, d)
  | _ => none

def AllowedFor (log : List Event) (p : String) (d : Option String) : Prop := ∃ req, .allowed req ∈ log ∧ req.peerId = p ∧ req.did = d

theorem AllowedFor.mono {log log' : List Event} {p : String} {d : Option String} (h : AllowedFor log p d)
    (hlog : ∀ e ∈ log, e ∈ log') : AllowedFor log' p d :=
  h.imp (fun _ hreq => hreq.imp_left (hlog _))

def UdpConn.key (uc : UdpConn) : Nat × String × Option String := (uc.sock, uc.peerId, uc.did)

def PendingUdp.key (e : PendingUdp) : String × Option String := (e.peerId, e.did)

namespace UdpManager

variable {x x' : UdpManager} {act : Act} {id : Nat} {t : Task} {env : Env} {c p : String} {d : Option String}

/-- No two sockets relay for one conn id, what is relayed goes to the peer of the session tracked there, each tracked session
was allowed, a peer has at most `MAX_UDP_SESSIONS_PER_PEER`, and `active_conns` is their number when none is being closed. -/
structure SessionsExact (x : UdpManager) : Prop where
  single : ∀ id id' t t' c p p', x.tasks.get id = some t → x.tasks.get id' = some t' → t.serving = some (c, p) →
    t'.serving = some (c, p') → id = id'
  relayed : ∀ id c p payload, x.tasks.get id = some (.relay c p payload) → ∃ uc, x.conns.get c = some uc ∧ uc.peerId = p
  allowed : ∀ c uc, x.conns.get c = some uc → AllowedFor x.log uc.peerId uc.did
  bounded : ∀ p, x.sessionsOf p + x.pendingOf p ≤ maxUdpSessionsPerPeer
  counted : x.closing = 0 → ∀ p, x.activeConns p = x.sessionsOf p

/-- What holds in every run: a task that asks has its own pending entry, and what is tracked was allowed. -/
structure Tracked (x : UdpManager) : Prop where
  fresh : ∀ id, x.next ≤ id → x.tasks.get id = none
  owner : ∀ id t c p d, x.tasks.get id = some t → t.asking = some (c, p, d) → ∃ e, x.pending.get c = some e ∧ e.key = (p, d)
  single : ∀ id id' t t' c p d p' d', x.tasks.get id = some t → x.tasks.get id' = some t' →
    t.asking = some (c, p, d) → t'.asking = some (c, p', d') → id = id'
  granted : ∀ id t p d, x.tasks.get id = some t → t.granted = some (p, d) → AllowedFor x.log p d
  allowed : ∀ c uc, x.conns.get c = some uc → AllowedFor x.log uc.peerId uc.did

structure Exact (x : UdpManager) : Prop where
  apart : ∀ c e, x.pending.get c = some e → x.conns.get c = none
  serving : ∀ id t c p, x.tasks.get id = some t → t.serving = some (c, p) → ∃ uc, x.conns.get c = some uc ∧ uc.sock = id ∧ uc.peerId = p
  bounded : ∀ p, x.sessionsOf p + x.pendingOf p ≤ maxUdpSessionsPerPeer
  counted : ∀ p, x.activeConns p = x.sessionsOf p + x.closing.count p

theorem start_tracked (target remoteAddr : String) : (start target remoteAddr).Tracked :=
  ⟨fun _ _ => rfl, fun _ _ _ _ _ h => (by cases h), fun _ _ _ _ _ _ _ _ _ h => (by cases h), fun _ _ _ _ h => (by cases h),
    fun _ _ h => (by cases h)⟩

theorem start_exact (target remoteAddr : String) : (start target remoteAddr).Exact :=
  ⟨fun _ _ h => (by cases h), fun _ _ _ _ h => (by cases h), fun _ => Nat.zero_le _, fun _ => rfl⟩

/-- A step that takes no session, pending entry or task in or out. -/
structure Quiet (x x' : UdpManager) : Prop where
  pending : ∀ c, (x'.pending.get c).map PendingUdp.key = (x.pending.get c).map PendingUdp.key
  conns : ∀ c, (x'.conns.get c).map UdpConn.key = (x.conns.get c).map UdpConn.key
  sessions : ∀ p, x'.sessionsOf p = x.sessionsOf p
  waiting : ∀ p, x'.pendingOf p = x.pendingOf p
  active : x'.active = x.active
  closing : x'.closing = x.closing
  next : x'.next = x.next
  tasks : ∀ id t', x'.tasks.get id = some t' → ∃ t, x.tasks.get id = some t ∧ t'.asking = t.asking ∧ t'.serving = t.serving ∧
    ∀ p d, t'.granted = some (p, d) → t.granted = some (p, d) ∨ AllowedFor x'.log p d
  log : ∀ e ∈ x.log, e ∈ x'.log

theorem Tracked.quiet (h : x.Tracked) (hquiet : Quiet x x') : x'.Tracked := by
  refine ⟨fun id hid => ?_, fun id t' c p d ht hask => ?_, fun id id' t t' c p d p' d' ht ht' hask hask' => ?_,
    fun id t' p d ht hgranted => ?_, fun c uc huc => ?_⟩
  · cases ht : x'.tasks.get id with
    | none => rfl
    | some t' =>
      obtain ⟨t, ht, -⟩ := hquiet.tasks id t' ht
      rw [h.fresh id (hquiet.next ▸ hid)] at ht
      cases ht
  · obtain ⟨t, ht, hsame, -⟩ := hquiet.tasks id t' ht
    obtain ⟨e, he, hkey⟩ := h.owner id t c p d ht (hsame ▸ hask)
    have hpending := hquiet.pending c
    rw [he] at hpending
    obtain ⟨e', he', hkey'⟩ := map_eq_some_iff.1 hpending
    exact ⟨e', he', hkey'.trans hkey⟩
  · obtain ⟨t₀, ht₀, hsame, -⟩ := hquiet.tasks id t ht
    obtain ⟨t₁, ht₁, hsame', -⟩ := hquiet.tasks id' t' ht'
    exact h.single id id' t₀ t₁ c p d p' d' ht₀ ht₁ (hsame ▸ hask) (hsame' ▸ hask')
  · obtain ⟨t, ht, -, -, hgrants⟩ := hquiet.tasks id t' ht
    rcases hgrants p d hgranted with hgranted | hallowed
    · exact (h.granted id t p d ht hgranted).mono hquiet.log
    · exact hallowed
  · have hconns := hquiet.conns c
    rw [huc] at hconns
    obtain ⟨uc₀, huc₀, hkey⟩ := map_eq_some_iff.1 hconns.symm
    obtain ⟨-, hpeer, hdid⟩ : uc₀.sock = uc.sock ∧ uc₀.peerId = uc.peerId ∧ uc₀.did = uc.did := by
      simpa [UdpConn.key] using hkey
    rw [← hpeer, ← hdid]
    exact (h.allowed c uc₀ huc₀).mono hquiet.log

theorem Exact.quiet (h : x.Exact) (hquiet : Quiet x x') : x'.Exact := by
  refine ⟨fun c e he => ?_, fun id t' c p ht hserving => ?_, fun p => ?_, fun p => ?_⟩
  · have hpending := hquiet.pending c
    rw [he] at hpending
    obtain ⟨e₀, he₀, -⟩ := map_eq_some_iff.1 hpending.symm
    have hconns := hquiet.conns c
    rw [h.apart c e₀ he₀] at hconns
    exact map_eq_none_iff.1 hconns
  · obtain ⟨t, ht, -, hsame, -⟩ := hquiet.tasks id t' ht
    obtain ⟨uc, huc, hsock, hpeer⟩ := h.serving id t c p ht (hsame ▸ hserving)
    have hconns := hquiet.conns c
    rw [huc] at hconns
    obtain ⟨uc', huc', hkey⟩ := map_eq_some_iff.1 hconns
    obtain ⟨hsock', hpeer', -⟩ : uc'.sock = uc.sock ∧ uc'.peerId = uc.peerId ∧ uc'.did = uc.did := by
      simpa [UdpConn.key] using hkey
    exact ⟨uc', huc', hsock'.trans hsock, hpeer'.trans hpeer⟩
  · rw [hquiet.sessions, hquiet.waiting]
    exact h.bounded p
  · rw [hquiet.sessions, hquiet.closing, activeConns, hquiet.active]
    exact h.counted p

theorem Quiet.go {y : UdpManager} {t' : Option Task} (h : Quiet x y) (ht : x.tasks.get id = some t)
    (htasks : y.tasks = x.tasks) (hsame : ∀ t₁, t' = some t₁ → t₁.asking = t.asking ∧ t₁.serving = t.serving ∧
      ∀ p d, t₁.granted = some (p, d) → t.granted = some (p, d) ∨ AllowedFor y.log p d) : Quiet x (y.go id t') := by
  have hfields : (y.go id t').pending = y.pending ∧ (y.go id t').conns = y.conns ∧ (y.go id t').active = y.active ∧
      (y.go id t').closing = y.closing ∧ (y.go id t').next = y.next ∧ (y.go id t').log = y.log ∧
      ∀ k, (y.go id t').tasks.get k = if k = id then t' else y.tasks.get k := by
    cases t' with
    | none => exact ⟨rfl, rfl, rfl, rfl, rfl, rfl, fun k => get_erase _ _ _⟩
    | some t₁ => exact ⟨rfl, rfl, rfl, rfl, rfl, rfl, fun k => get_insert _ _ _ _⟩
  obtain ⟨h1, h2, h3, h4, h5, h6, h7⟩ := hfields
  refine ⟨fun c => ?_, fun c => ?_, fun p => ?_, fun p => ?_, h3.trans h.active, h4.trans h.closing, h5.trans h.next,
    fun k t₁ hk => ?_, ?_⟩
  · rw [h1]
    exact h.pending c
  · rw [h2]
    exact h.conns c
  · rw [sessionsOf, h2]
    exact h.sessions p
  · rw [pendingOf, h1]
    exact h.waiting p
  · rw [h7] at hk
    split at hk
    · rename_i hid
      subst hid
      obtain ⟨hask, hserve, hgrant⟩ := hsame t₁ hk
      exact ⟨t, ht, hask, hserve, by rwa [h6]⟩
    · rw [htasks] at hk
      exact ⟨t₁, hk, rfl, rfl, fun p d hgranted => .inl hgranted⟩
  · rw [h6]
    exact h.log

theorem quiet_of_same (hpending : x'.pending = x.pending) (hconns : x'.conns = x.conns) (hactive : x'.active = x.active)
    (hclosing : x'.closing = x.closing) (hnext : x'.next = x.next) (htasks : x'.tasks = x.tasks)
    (hlog : ∀ e ∈ x.log, e ∈ x'.log) : Quiet x x' :=
  ⟨fun c => by rw [hpending], fun c => by rw [hconns], fun p => by rw [sessionsOf, sessionsOf, hconns],
    fun p => by rw [pendingOf, pendingOf, hpending], hactive, hclosing, hnext,
    fun id t' ht => ⟨t', by rwa [htasks] at ht, rfl, rfl, fun p d hgranted => .inl hgranted⟩, hlog⟩

theorem quiet_refl (x : UdpManager) : Quiet x x := quiet_of_same rfl rfl rfl rfl rfl rfl fun _ he => he

theorem quiet_append (x : UdpManager) (more : List Event) : Quiet x { x with log := x.log ++ more } :=
  quiet_of_same rfl rfl rfl rfl rfl rfl fun _ he => List.mem_append_left _ he

theorem quiet_pending {e e' : PendingUdp} (he : x.pending.get c = some e) (hkey : e'.key = e.key) :
    Quiet x { x with pending := x.pending.insert c e' } := by
  refine ⟨fun c' => ?_, fun _ => rfl, fun _ => rfl, fun p' => ?_, rfl, rfl, rfl,
    fun _ t' ht => ⟨t', ht, rfl, rfl, fun _ _ h => .inl h⟩, fun _ he => he⟩
  · rw [get_insert]
    split
    · rename_i hc
      rw [hc, he]
      exact congrArg some hkey
    · rfl
  · have hreplace := total_replace (fun _ (e : PendingUdp) => if e.peerId = p' then 1 else 0) he e'
    have hpeer : e'.peerId = e.peerId := congrArg Prod.fst hkey
    rw [hpeer] at hreplace
    exact Nat.add_left_cancel hreplace

theorem quiet_touch {uc : UdpConn} (huc : x.conns.get c = some uc) (now : Nat) :
    Quiet x { x with conns := x.conns.insert c { uc with lastSeen := now } } := by
  refine ⟨fun _ => rfl, fun c' => ?_, fun p' => ?_, fun _ => rfl, rfl, rfl, rfl,
    fun _ t' ht => ⟨t', ht, rfl, rfl, fun _ _ h => .inl h⟩, fun _ he => he⟩
  · rw [get_insert]
    split
    · rename_i hc
      rw [hc, huc]
      rfl
    · rfl
  · have hreplace := total_replace (fun _ (uc : UdpConn) => if uc.peerId = p' then 1 else 0) huc
      { uc with lastSeen := now }
    exact Nat.add_left_cancel hreplace

theorem Quiet.idle (h : Quiet x x') : Quiet x { x' with loop := .idle } :=
  ⟨h.pending, h.conns, h.sessions, h.waiting, h.active, h.closing, h.next, h.tasks, h.log⟩

theorem enqueue_cases (x : UdpManager) (p c : String) (payload : Bytes) (d : Option String) (n : Nat) :
    Quiet x (x.enqueue p c payload d n) ∨ x.pending.get c = none ∧ n + x.pendingOf p < maxUdpSessionsPerPeer ∧
      x.enqueue p c payload d n = { x with
        loop := .idle
        pending := x.pending.insert c ⟨p, d, [payload]⟩
        tasks := x.tasks.insert x.next (.decide c p d)
        next := x.next + 1 } := by
  unfold enqueue
  split
  · rename_i entry hentry
    split
    · have hkey : PendingUdp.key { entry with queued := entry.queued ++ [payload] } = entry.key := rfl
      exact .inl (quiet_pending hentry hkey).idle
    · exact .inl (quiet_refl x).idle
  · rename_i hnone
    split
    · exact .inl (quiet_refl x).idle
    · rename_i hroom
      exact .inr ⟨hnone, Nat.lt_of_not_le hroom, rfl⟩

theorem handle_cases (x : UdpManager) (mapped : Option String) (sent : Bool) :
    Quiet x (x.handle mapped sent) ∨ ∃ p c payload d n, x.loop = .enqueue p c payload d n := by
  unfold handle
  split
  · exact .inl (quiet_refl x)
  · split
    all_goals
      split
      · exact .inl (quiet_refl x).idle
      · exact .inl (quiet_of_same rfl rfl rfl rfl rfl rfl (fun _ he => he))
  · exact .inl (quiet_append x _).idle
  · exact .inl (quiet_of_same rfl rfl rfl rfl rfl rfl (fun _ he => he))
  · rename_i p c payload d n hloop
    exact .inr ⟨p, c, payload, d, n, hloop⟩

theorem turn_cases (ht : x.tasks.get id = some t) : Quiet x (x.turn id env t) ∨
    (∃ c p d, t = .drop c p d ∧ x.turn id env t = go { x with pending := x.pending.erase c } id none) ∨
    ∃ c p d, t = .track c p d ∧ x.turn id env t = x.track id c p := by
  cases t with
  | decide c p d =>
    refine .inl ?_
    simp only [turn]
    refine (quiet_append x _).go ht rfl (fun t₁ h => ?_)
    cases h
    split
    · exact ⟨rfl, rfl, fun _ _ h => (by cases h)⟩
    · rename_i hgo
      refine ⟨rfl, rfl, fun p' d' h => .inr ⟨x.request p d, ?_, ?_⟩⟩
      · have hallowed : env.allowed = true := by
          cases hallowed : env.allowed with
          | true => rfl
          | false => exact absurd (by rw [hallowed]; rfl) hgo
        rw [if_pos hallowed]
        exact List.mem_append_right _ List.mem_cons_self
      · cases h
        exact ⟨rfl, rfl⟩
  | drop c p d => exact .inr (.inl ⟨c, p, d, rfl, rfl⟩)
  | bind c p d =>
    refine .inl ?_
    simp only [turn]
    refine (quiet_refl x).go ht rfl (fun t₁ h => ?_)
    cases h
    split
    · exact ⟨rfl, rfl, fun _ _ h => .inl h⟩
    · exact ⟨rfl, rfl, fun _ _ h => (by cases h)⟩
  | track c p d => exact .inr (.inr ⟨c, p, d, rfl, rfl⟩)
  | flush c p queued =>
    cases queued with
    | nil =>
      refine .inl ?_
      simp only [turn]
      refine (quiet_refl x).go ht rfl (fun t₁ h => ?_)
      cases h
      exact ⟨rfl, rfl, fun _ _ h => (by cases h)⟩
    | cons packet queued =>
      refine .inl ?_
      simp only [turn]
      refine (quiet_append x _).go ht rfl (fun t₁ h => ?_)
      cases h
      exact ⟨rfl, rfl, fun _ _ h => (by cases h)⟩
  | relay c p payload =>
    refine .inl ?_
    simp only [turn]
    refine (quiet_append x _).go ht rfl (fun t₁ h => ?_)
    cases h
    exact ⟨rfl, rfl, fun _ _ h => (by cases h)⟩
  | read c p =>
    refine .inl ?_
    simp only [turn]
    split
    · exact (quiet_refl x).go ht rfl (fun _ h => by cases h)
    · have hsame : ∀ packet t₁, some (Task.relay c p packet) = some t₁ → t₁.asking = (Task.read c p).asking ∧
          t₁.serving = (Task.read c p).serving ∧ ∀ p' d', t₁.granted = some (p', d') →
            (Task.read c p).granted = some (p', d') ∨ AllowedFor x.log p' d' := by
        intro packet t₁ h
        cases h
        exact ⟨rfl, rfl, fun _ _ h => (by cases h)⟩
      cases huc : x.conns.get c with
      | none => exact (quiet_refl x).go ht rfl (hsame _)
      | some uc => exact (quiet_touch huc x.now).go ht rfl (hsame _)

/-! ## Every run -/

theorem Tracked.inserted (h : x.Tracked) (hnone : x.pending.get c = none) (payload : Bytes) : Tracked { x with
    loop := .idle
    pending := x.pending.insert c ⟨p, d, [payload]⟩
    tasks := x.tasks.insert x.next (.decide c p d)
    next := x.next + 1 } := by
  have hother : ∀ k t c' p' d', x.tasks.get k = some t → t.asking = some (c', p', d') → c' ≠ c := by
    intro k t c' p' d' ht hask hc
    obtain ⟨e, he, -⟩ := h.owner k t c' p' d' ht hask
    rw [hc, hnone] at he
    cases he
  refine ⟨fun k hk => ?_, fun k t c' p' d' ht hask => ?_, fun k k' t t' c' p₁ d₁ p₂ d₂ ht ht' hask hask' => ?_,
    fun k t p' d' ht hgranted => ?_, h.allowed⟩
  · have hk : x.next + 1 ≤ k := hk
    rw [get_insert_ne (by omega)]
    exact h.fresh k (by omega)
  · rcases of_get_insert ht with ⟨-, rfl⟩ | ⟨-, ht⟩
    · cases hask
      exact ⟨_, get_insert_self _ _ _, rfl⟩
    · obtain ⟨e, he, hkey⟩ := h.owner k t c' p' d' ht hask
      exact ⟨e, by rw [get_insert_ne (hother k t c' p' d' ht hask), he], hkey⟩
  · rw [get_insert] at ht ht'
    split at ht
    · rename_i hk
      split at ht'
      · rename_i hk'
        rw [hk, hk']
      · cases ht
        cases hask
        exact absurd rfl (hother k' t' c p₂ d₂ ht' hask')
    · split at ht'
      · cases ht'
        cases hask'
        exact absurd rfl (hother k t c p₁ d₁ ht hask)
      · exact h.single k k' t t' c' p₁ d₁ p₂ d₂ ht ht' hask hask'
  · rcases of_get_insert ht with ⟨-, rfl⟩ | ⟨-, ht⟩
    · cases hgranted
    · exact h.granted k t p' d' ht hgranted

theorem Tracked.asking_ne (h : x.Tracked) {k : Nat} {t t' : Task} {c' p' : String} {d' : Option String}
    (ht : x.tasks.get id = some t) (hask : t.asking = some (c, p, d)) (ht' : x.tasks.get k = some t') (hk : k ≠ id)
    (hask' : t'.asking = some (c', p', d')) : c' ≠ c := by
  rintro rfl
  exact hk (h.single k id t' t c' p' d' p d ht' ht hask' hask)

theorem Tracked.dropped (h : x.Tracked) (ht : x.tasks.get id = some (.drop c p d)) :
    Tracked (go { x with pending := x.pending.erase c } id none) := by
  refine ⟨fun k hk => ?_, fun k t c' p' d' htk hask => ?_, fun k k' t t' c' p₁ d₁ p₂ d₂ htk htk' hask hask' => ?_,
    fun k t p' d' htk hgranted => ?_, h.allowed⟩
  · change (x.tasks.erase id).get k = none
    rw [get_erase, h.fresh k hk, ite_self]
  · obtain ⟨hk, htk⟩ := of_get_erase htk
    obtain ⟨e, he, hkey⟩ := h.owner k t c' p' d' htk hask
    refine ⟨e, ?_, hkey⟩
    change (x.pending.erase c).get c' = some e
    rw [get_erase_ne (h.asking_ne ht rfl htk hk hask), he]
  · change (x.tasks.erase id).get k = some t at htk
    change (x.tasks.erase id).get k' = some t' at htk'
    rw [get_erase] at htk htk'
    split at htk
    · cases htk
    · split at htk'
      · cases htk'
      · exact h.single k k' t t' c' p₁ d₁ p₂ d₂ htk htk' hask hask'
  · obtain ⟨-, htk⟩ := of_get_erase htk
    exact h.granted k t p' d' htk hgranted

variable {e : PendingUdp}

theorem track_eq (he : x.pending.get c = some e) : x.track id c p = { x with
    pending := x.pending.erase c
    conns := x.conns.insert c ⟨id, x.now, p, e.did⟩
    active := if (x.conns.get c).isNone then x.active.insert p (x.activeConns p + 1) else x.active
    tasks := x.tasks.insert id (.flush c p e.queued) } := by
  unfold track
  rw [he]
  cases (x.conns.get c).isNone with
  | true => rfl
  | false => rfl

theorem Tracked.tracked (h : x.Tracked) (ht : x.tasks.get id = some (.track c p d)) : (x.track id c p).Tracked := by
  obtain ⟨e, he, hkey⟩ := h.owner id _ c p d ht rfl
  have hdid : e.did = d := congrArg Prod.snd hkey
  rw [track_eq he]
  refine ⟨fun k hk => ?_, fun k t c' p' d' htk hask => ?_, fun k k' t t' c' p₁ d₁ p₂ d₂ htk htk' hask hask' => ?_,
    fun k t p' d' htk hgranted => ?_, fun c' uc huc => ?_⟩
  · rw [get_insert_ne, h.fresh k hk]
    rintro rfl
    rw [h.fresh k hk] at ht
    cases ht
  · rcases of_get_insert htk with ⟨-, rfl⟩ | ⟨hk, htk⟩
    · cases hask
    · obtain ⟨e', he', hkey'⟩ := h.owner k t c' p' d' htk hask
      exact ⟨e', by rw [get_erase_ne (h.asking_ne ht rfl htk hk hask), he'], hkey'⟩
  · rw [get_insert] at htk htk'
    split at htk
    · cases htk
      cases hask
    · split at htk'
      · cases htk'
        cases hask'
      · exact h.single k k' t t' c' p₁ d₁ p₂ d₂ htk htk' hask hask'
  · rcases of_get_insert htk with ⟨-, rfl⟩ | ⟨-, htk⟩
    · cases hgranted
    · exact h.granted k t p' d' htk hgranted
  · rcases of_get_insert huc with ⟨-, rfl⟩ | ⟨-, huc⟩
    · rw [hdid]
      exact h.granted id _ p d ht rfl
    · exact h.allowed c' uc huc

theorem Tracked.step (h : x.Tracked) (hstep : x.step act = some x') : x'.Tracked := by
  have hsame : ∀ {y : UdpManager}, y.pending = x.pending → y.conns = x.conns → y.next = x.next → y.tasks = x.tasks →
      y.log = x.log → y.Tracked := by
    intro y h1 h2 h3 h4 h5
    refine ⟨by rw [h3, h4]; exact h.fresh, by rw [h4, h1]; exact h.owner, by rw [h4]; exact h.single,
      by rw [h4, h5]; exact h.granted, by rw [h2, h5]; exact h.allowed⟩
  cases act with
  | receive peerId tm =>
    simp only [UdpManager.step] at hstep
    split at hstep
    · split at hstep
      · split at hstep
        · cases hstep
          exact hsame rfl rfl rfl rfl rfl
        · cases hstep
          exact h
      · cases hstep
        exact h
    · cases hstep
  | handle mapped sent =>
    cases hstep
    obtain hquiet | ⟨peerId, connId, payload, did, n, hloop⟩ := x.handle_cases mapped sent
    · exact h.quiet hquiet
    · simp only [handle, hloop]
      obtain hquiet | ⟨hnone, -, hadm⟩ := x.enqueue_cases peerId connId payload did n
      · exact h.quiet hquiet
      · rw [hadm]
        exact h.inserted hnone payload
  | task id env =>
    obtain ⟨t, ht, rfl⟩ := map_eq_some_iff.1 hstep
    obtain hquiet | ⟨c, p, d, rfl, hturn⟩ | ⟨c, p, d, rfl, hturn⟩ := @turn_cases x id t env ht
    · exact h.quiet hquiet
    · exact h.dropped ht
    · exact h.tracked ht
  | tick =>
    obtain ⟨-, hx⟩ := ite_none_right_eq_some.1 hstep
    cases hx
    refine ⟨h.fresh, h.owner, h.single, h.granted, fun c uc huc => ?_⟩
    have huc : (x.conns.filter (fun _ uc => !x.expired uc)).get c = some uc := huc
    rw [Table.get_filter] at huc
    exact h.allowed c uc (filter_eq_some_iff.1 huc).1
  | close peerId =>
    obtain ⟨-, hx⟩ := ite_none_right_eq_some.1 hstep
    cases hx
    exact hsame rfl rfl rfl rfl rfl
  | pass dt | cancel =>
    cases hstep
    exact hsame rfl rfl rfl rfl rfl

/-! ## A steady run -/

theorem count_peers (m : Table String UdpConn) (p : String) : (m.entries.map (fun e => e.2.peerId)).count p =
    m.total (fun _ uc => if uc.peerId = p then 1 else 0) := by
  unfold total
  induction m.entries using Multiset.induction_on with
  | empty => rfl
  | cons e es ih =>
    rw [Multiset.map_cons, Multiset.map_cons, Multiset.sum_cons, Multiset.count_cons, ih, Nat.add_comm]
    exact congrArg (· + _) (if_congr eq_comm rfl rfl)

section

variable (h : x.Exact)

include h

theorem Exact.inserted (hnone : x.pending.get c = none) (hconns : x.conns.get c = none)
    (hroom : x.sessionsOf p + x.pendingOf p < maxUdpSessionsPerPeer) (payload : Bytes) : Exact { x with
    loop := .idle
    pending := x.pending.insert c ⟨p, d, [payload]⟩
    tasks := x.tasks.insert x.next (.decide c p d)
    next := x.next + 1 } := by
  refine ⟨fun c' e he => ?_, fun k t c' p' ht hserving => ?_, fun p' => ?_, h.counted⟩
  · rw [get_insert] at he
    split at he
    · rename_i hc
      rw [hc]
      exact hconns
    · exact h.apart c' e he
  · rcases of_get_insert ht with ⟨-, rfl⟩ | ⟨-, ht⟩
    · cases hserving
    · exact h.serving k t c' p' ht hserving
  · change x.sessionsOf p' + (x.pending.insert c ⟨p, d, [payload]⟩).total (fun _ e => if e.peerId = p' then 1 else 0) ≤ _
    rw [total_insert _ hnone]
    have hbounded : x.sessionsOf p' + x.pendingOf p' ≤ maxUdpSessionsPerPeer := h.bounded p'
    unfold pendingOf at hroom hbounded
    split
    · rename_i hp
      have hp : p = p' := hp
      subst hp
      omega
    · omega

theorem Exact.dropped (he : x.pending.get c = some e) : Exact (go { x with pending := x.pending.erase c } id none) := by
  refine ⟨fun c' e' he' => ?_, fun k t c' p' ht hserving => ?_, fun p' => ?_, h.counted⟩
  · obtain ⟨-, he'⟩ := of_get_erase he'
    exact h.apart c' e' he'
  · obtain ⟨-, ht⟩ := of_get_erase ht
    exact h.serving k t c' p' ht hserving
  · have herase := total_erase (fun _ (e : PendingUdp) => if e.peerId = p' then 1 else 0) he
    have hbounded := h.bounded p'
    change x.sessionsOf p' + (x.pending.erase c).total (fun _ e => if e.peerId = p' then 1 else 0) ≤ _
    unfold pendingOf at hbounded
    omega

theorem Exact.tracked (he : x.pending.get c = some e) (hpeer : e.peerId = p) : (x.track id c p).Exact := by
  have hnone := h.apart c e he
  have hinsert : ∀ p', (x.conns.insert c ⟨id, x.now, p, e.did⟩).total (fun _ uc => if uc.peerId = p' then 1 else 0) =
      (if p = p' then 1 else 0) + x.sessionsOf p' := fun p' => total_insert _ hnone _
  rw [track_eq he, hnone]
  refine ⟨fun c' e' he' => ?_, fun k t c' p' ht hserving => ?_, fun p' => ?_, fun p' => ?_⟩
  · obtain ⟨hc, he'⟩ := of_get_erase he'
    rw [get_insert_ne hc]
    exact h.apart c' e' he'
  · rcases of_get_insert ht with ⟨hk, rfl⟩ | ⟨-, ht⟩
    · cases hserving
      exact ⟨_, get_insert_self _ _ _, hk.symm, rfl⟩
    · obtain ⟨uc, huc, hsock⟩ := h.serving k t c' p' ht hserving
      refine ⟨uc, ?_, hsock⟩
      rw [get_insert_ne, huc]
      rintro rfl
      rw [hnone] at huc
      cases huc
  · have herase : (if p = p' then 1 else 0) + (x.pending.erase c).total (fun _ e => if e.peerId = p' then 1 else 0) =
        x.pendingOf p' := by
      rw [← hpeer]
      exact total_erase (fun _ (e : PendingUdp) => if e.peerId = p' then 1 else 0) he
    have hbounded := h.bounded p'
    change (x.conns.insert c ⟨id, x.now, p, e.did⟩).total _ + (x.pending.erase c).total _ ≤ _
    rw [hinsert]
    omega
  · have hcounted := h.counted p'
    change ((x.active.insert p (x.activeConns p + 1)).get p').getD 0 =
      (x.conns.insert c ⟨id, x.now, p, e.did⟩).total _ + x.closing.count p'
    rw [hinsert, get_insert]
    split
    · rename_i hp
      subst hp
      rw [if_pos rfl, getD_some]
      omega
    · rename_i hp
      rw [if_neg (Ne.symm hp)]
      change x.activeConns p' = _
      omega

theorem Exact.tick (hidle : x.closing = 0) (hsteady : x.steady .tick = true) : x.tick.Exact := by
  have hsplit : ∀ p, x.sessionsOf p = x.tick.sessionsOf p + x.tick.closing.count p := by
    intro p
    have hfilter := total_filter_add_not (fun _ (uc : UdpConn) => if uc.peerId = p then 1 else 0)
      (fun _ uc => x.expired uc) x.conns
    have hcount := count_peers (x.conns.filter (fun _ uc => x.expired uc)) p
    change _ = (x.conns.filter (fun _ uc => !x.expired uc)).total _ +
      ((x.conns.filter (fun _ uc => x.expired uc)).entries.map (fun e => e.2.peerId)).count p
    rw [hcount, Nat.add_comm]
    exact hfilter.symm
  have hget : ∀ c, x.tick.conns.get c = (x.conns.get c).filter (fun uc => !x.expired uc) := fun c => Table.get_filter _ _ _
  refine ⟨fun c e he => ?_, fun k t c p ht hserving => ?_, fun p => ?_, fun p => ?_⟩
  · rw [hget, h.apart c e he]
    rfl
  · obtain ⟨uc, huc, hsock, hpeer⟩ := h.serving k t c p ht hserving
    have hall : x.conns.all (fun _ uc => !x.expired uc || (x.tasks.get uc.sock).isNone) = true := hsteady
    have hkeep := Table.all_eq_true.1 hall c uc huc
    have hbusy : (x.tasks.get uc.sock).isNone = false := by
      rw [hsock]
      change x.tasks.get k = some t at ht
      rw [ht]
      rfl
    rw [hbusy, Bool.or_false] at hkeep
    exact ⟨uc, by rw [hget, huc]; exact filter_eq_some_iff.2 ⟨rfl, hkeep⟩, hsock, hpeer⟩
  · have hbounded := h.bounded p
    rw [hsplit] at hbounded
    change x.tick.sessionsOf p + x.pendingOf p ≤ _
    omega
  · have hcounted := h.counted p
    rw [hidle, hsplit] at hcounted
    exact hcounted

theorem Exact.closed {peerId : String} (hmem : peerId ∈ x.closing) :
    Exact { x.recordConnClose peerId with closing := x.closing.erase peerId } := by
  refine ⟨h.apart, h.serving, h.bounded, fun p => ?_⟩
  have hcounted := h.counted p
  have hpos : 0 < x.closing.count peerId := Multiset.count_pos.2 hmem
  change ((x.active.insert peerId (x.activeConns peerId - 1)).get p).getD 0 = x.sessionsOf p + (x.closing.erase peerId).count p
  rw [get_insert]
  split
  · rename_i hp
    subst hp
    rw [Multiset.count_erase_self]
    change x.activeConns p - 1 = _
    omega
  · rename_i hp
    rw [Multiset.count_erase_of_ne hp]
    exact hcounted

theorem Exact.step (htracked : x.Tracked) (hsteady : x.steady act = true)
    (hstep : x.step act = some x') : x'.Exact := by
  cases act with
  | receive peerId tm =>
    simp only [UdpManager.step] at hstep
    split at hstep
    · split at hstep
      · split at hstep
        · cases hstep
          exact ⟨h.apart, h.serving, h.bounded, h.counted⟩
        · cases hstep
          exact h
      · cases hstep
        exact h
    · cases hstep
  | handle mapped sent =>
    cases hstep
    obtain hquiet | ⟨peerId, connId, payload, did, n, hloop⟩ := x.handle_cases mapped sent
    · exact h.quiet hquiet
    · simp only [steady, hloop] at hsteady
      simp only [handle, hloop]
      obtain hquiet | ⟨hnone, hroom, hadm⟩ := x.enqueue_cases peerId connId payload did n
      · exact h.quiet hquiet
      · rw [hnone, decide_eq_false (Nat.not_le_of_lt hroom), isSome_none, Bool.false_or, Bool.false_or,
          Bool.and_eq_true, isNone_iff_eq_none, decide_eq_true_eq] at hsteady
        rw [hadm]
        exact h.inserted hnone hsteady.1 hsteady.2 payload
  | task id env =>
    obtain ⟨t, ht, rfl⟩ := map_eq_some_iff.1 hstep
    obtain hquiet | ⟨c, p, d, rfl, hturn⟩ | ⟨c, p, d, rfl, hturn⟩ := @turn_cases x id t env ht
    · exact h.quiet hquiet
    · obtain ⟨e, he, -⟩ := htracked.owner id _ c p d ht rfl
      exact h.dropped he
    · obtain ⟨e, he, hkey⟩ := htracked.owner id _ c p d ht rfl
      exact h.tracked he (congrArg Prod.fst hkey)
  | tick =>
    obtain ⟨hidle, hx⟩ := ite_none_right_eq_some.1 hstep
    cases hx
    exact h.tick hidle.1 hsteady
  | close peerId =>
    obtain ⟨hmem, hx⟩ := ite_none_right_eq_some.1 hstep
    cases hx
    exact h.closed hmem
  | pass dt | cancel =>
    cases hstep
    exact ⟨h.apart, h.serving, h.bounded, h.counted⟩

theorem Exact.sessions (htracked : x.Tracked) : x.SessionsExact := by
  refine ⟨fun id id' t t' c p p' ht ht' hserving hserving' => ?_, fun id c p payload ht => ?_, htracked.allowed, h.bounded,
    fun hidle p => ?_⟩
  · obtain ⟨uc, huc, hsock, -⟩ := h.serving id t c p ht hserving
    obtain ⟨uc', huc', hsock', -⟩ := h.serving id' t' c p' ht' hserving'
    rw [huc] at huc'
    cases huc'
    rw [← hsock, ← hsock']
  · obtain ⟨uc, huc, -, hpeer⟩ := h.serving id _ c p ht rfl
    exact ⟨uc, huc, hpeer⟩
  · rw [h.counted p, hidle, Multiset.count_zero, Nat.add_zero]

end

theorem tracked_of_run {target remoteAddr : String} {acts : List Act} (hrun : run target remoteAddr acts = some x) : x.Tracked :=
  @Runs.invariant UdpManager Act step (fun _ _ => true) Tracked (fun _ _ _ h _ hstep => h.step hstep) acts _ _
    (start_tracked target remoteAddr) (Runs.along_true _ _) hrun

/-- **Every tracked session was allowed for its peer and DID; and in a run that admits where there is no session and room, and
removes no session of a running task, the sessions are exact.** -/
theorem sessions_exact (target remoteAddr : String) (acts : List Act) (x : UdpManager)
    (hrun : run target remoteAddr acts = some x) :
    (∀ c uc, x.conns.get c = some uc → AllowedFor x.log uc.peerId uc.did) ∧
    (Runs.along step steady (start target remoteAddr) acts = true → x.SessionsExact) := by
  refine ⟨(tracked_of_run hrun).allowed, fun hsteady => ?_⟩
  obtain ⟨htracked, hexact⟩ := @Runs.invariant UdpManager Act step steady (fun x => x.Tracked ∧ x.Exact)
    (fun _ _ _ h hok hstep => ⟨h.1.step hstep, h.2.step h.1 hok hstep⟩) acts _ _
    ⟨start_tracked target remoteAddr, start_exact target remoteAddr⟩ hsteady hrun
  exact hexact.sessions htracked

def dataFor (peerId connId : String) (packet : Bytes) : Act := .receive peerId ⟨"data", connId, some packet, none⟩

def goesOn (id : Nat) : Act := .task id ⟨true, true, some [2]⟩

def bobAsks : List Act := [dataFor "bob" "c" [1], .handle none true, .handle none true, .handle none true, goesOn 0, goesOn 0]

def bobServes : List Act := bobAsks ++ [goesOn 0, goesOn 0, goesOn 0, goesOn 0]

theorem sessions_exact_bob : ∃ x, run "dns" "127.0.0.1:53" bobServes = some x ∧ x.SessionsExact := by
  cases hrun : run "dns" "127.0.0.1:53" bobServes with
  | none =>
    have hsome : (run "dns" "127.0.0.1:53" bobServes).isSome = true := by decide
    rw [hrun] at hsome
    cases hsome
  | some x => exact ⟨x, rfl, (sessions_exact "dns" "127.0.0.1:53" bobServes x hrun).2 (by decide)⟩

def bobExpires : List Act := bobAsks ++ [goesOn 0, goesOn 0, goesOn 0, .pass (udpTimeout + 1), .tick, .close "bob", goesOn 0]

/-- Alice's packet for Bob's conn id comes between the two looks, and her session replaces his. -/
def aliceReplaces : List Act :=
  bobAsks ++ [dataFor "alice" "c" [3], .handle none true, .handle none true, goesOn 0, .handle none true, goesOn 0, goesOn 0,
    goesOn 1, goesOn 1, goesOn 1]

/-- A reader outlives its session, and two readers serve one conn id while the open session is counted for nobody. -/
theorem sessions_drift : (¬ ∀ target remoteAddr acts x, run target remoteAddr acts = some x → ∀ id c p payload,
      x.tasks.get id = some (.relay c p payload) → ∃ uc, x.conns.get c = some uc ∧ uc.peerId = p) ∧
    (¬ ∀ target remoteAddr acts x, run target remoteAddr acts = some x → ∀ id id' t t' c p p', x.tasks.get id = some t →
      x.tasks.get id' = some t' → t.serving = some (c, p) → t'.serving = some (c, p') → id = id') ∧
    ¬ ∀ target remoteAddr acts x, run target remoteAddr acts = some x → x.closing = 0 → ∀ p, x.activeConns p = x.sessionsOf p := by
  have hexpired : (run "dns" "127.0.0.1:53" bobExpires).any (fun x => decide (x.conns.get "c" = none ∧
      x.tasks.get 0 = some (.relay "c" "bob" [2]))) = true := by decide
  have hreplaced : (run "dns" "127.0.0.1:53" aliceReplaces).any (fun x => decide (
      x.tasks.get 0 = some (.read "c" "bob") ∧ x.tasks.get 1 = some (.flush "c" "alice" [[3]]) ∧ x.closing = 0 ∧
      x.activeConns "alice" = 0 ∧ x.sessionsOf "alice" = 1)) = true := by decide
  obtain ⟨x, hx, hgone⟩ := (any_eq_true _ _).1 hexpired
  obtain ⟨hconn, htask⟩ := of_decide_eq_true hgone
  obtain ⟨y, hy, htwo⟩ := (any_eq_true _ _).1 hreplaced
  obtain ⟨hbob, halice, hidle, hactive, hsessions⟩ := of_decide_eq_true htwo
  refine ⟨fun hall => ?_, fun hall => ?_, fun hall => ?_⟩
  · obtain ⟨uc, huc, -⟩ := hall _ _ _ x hx 0 "c" "bob" [2] htask
    rw [hconn] at huc
    cases huc
  · exact absurd (hall _ _ _ y hy 0 1 _ _ "c" "bob" "alice" hbob halice rfl rfl) (by decide)
  · have hcount := hall _ _ _ y hy hidle "alice"
    rw [hactive, hsessions] at hcount
    cases hcount

end UdpManager

end Mistl.Udp
