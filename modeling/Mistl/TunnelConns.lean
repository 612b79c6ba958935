import Mistl.Lib.Table
/-!
# TunnelConns — the connections of one TCP forward

`tunnel/tcp.rs`, `tunnel/tcp/tunnel.rs`, `tunnel/tcp/local.rs`: a `TcpManager` and the tasks that share it.  A step is what
one of them does from one lock or await to the next; decisions, the outcomes of connects, reads and writes and a peer's DID
are the environment's.  What a close tells the peer and the tunnel's own output are left out.
-/
namespace Mistl.Tunnel

abbrev Bytes := List UInt8

def pendingDataBufferMaxMsgs : Nat := 256

def pendingDataBufferMaxBytes : Nat := 1024 * 1024

def maxPendingConnsPerPeer : Nat := 8

def maxConnsPerPeer : Nat := 64

/-- `TunnelMessage`, its target apart -/
structure TunnelMessage where
  msgType : String
  connId : String
  payload : Option Bytes
  seq : Option Nat
  deriving DecidableEq

structure AuthRequest where
  peerId : String
  forwardKey : String
  targetAddr : String
  proto : String
  did : Option String
  deriving DecidableEq

/-! ## Sequence numbers -/

inductive SeqDecision where
  | accept
  | duplicate (received : Nat)
  | gap (expected received : Nat)
  | inconsistent

structure SeqState where
  nextExpected : Nat
  seqSeen : Bool
  deriving DecidableEq

def SeqState.new : SeqState := ⟨1, false⟩

/-- `SeqState::observe`, on 64-bit numbers -/
def SeqState.observe (s : SeqState) : Option Nat → SeqState × SeqDecision
  | none => (s, if s.seqSeen then .inconsistent else .accept)
  | some received =>
    if received < s.nextExpected then ({ s with seqSeen := true }, .duplicate received)
    else if received = s.nextExpected then (⟨(s.nextExpected + 1) % 2 ^ 64, true⟩, .accept)
    else ({ s with seqSeen := true }, .gap s.nextExpected received)

/-! ## Connections -/

/-- The write half of a backend stream: what it took, and whether a write to it has failed. -/
structure Socket where
  written : Bytes
  failed : Bool
  deriving DecidableEq

inductive ConnState where
  | pending (buffered : List Bytes) (bufferedBytes : Nat)
  | active (writer : Socket)
  deriving DecidableEq

def ConnState.isActive : ConnState → Bool
  | .pending _ _ => false
  | .active _ => true

/-- `TunnelConn`, `metrics` and `notify_remote` apart -/
structure TunnelConn where
  state : ConnState
  peerId : String
  recvSeq : SeqState
  did : Option String
  deriving DecidableEq

inductive DataOutcome where
  | duplicate (received : Nat)
  | gap (expected received : Nat)
  | inconsistent
  | write
  | buffered
  | pendingBufferOverflow

/-- What `handle_remote_data` does to a connection while it holds the lock. -/
def TunnelConn.receive (c : TunnelConn) (tm : TunnelMessage) : TunnelConn × DataOutcome :=
  let observed := c.recvSeq.observe tm.seq
  let c := { c with recvSeq := observed.1 }
  match observed.2 with
  | .duplicate received => (c, .duplicate received)
  | .gap expected received => (c, .gap expected received)
  | .inconsistent => (c, .inconsistent)
  | .accept => match c.state with
    | .active _ => (c, .write)
    | .pending buffered bufferedBytes =>
      let payload := tm.payload.getD []
      if pendingDataBufferMaxMsgs ≤ buffered.length ∨ pendingDataBufferMaxBytes < bufferedBytes + payload.length then
        (c, .pendingBufferOverflow)
      else ({ c with state := .pending (buffered ++ [payload]) (bufferedBytes + payload.length) }, .buffered)

theorem TunnelConn.receive_owner (c : TunnelConn) (tm : TunnelMessage) : (c.receive tm).1.peerId = c.peerId ∧
    (c.receive tm).1.did = c.did ∧ (c.receive tm).1.state.isActive = c.state.isActive := by
  unfold TunnelConn.receive
  dsimp only
  split
  · exact ⟨rfl, rfl, rfl⟩
  · exact ⟨rfl, rfl, rfl⟩
  · exact ⟨rfl, rfl, rfl⟩
  · split
    · exact ⟨rfl, rfl, rfl⟩
    · rename_i hstate
      split
      · exact ⟨rfl, rfl, rfl⟩
      · exact ⟨rfl, rfl, by rw [hstate]; rfl⟩

/-- An `Arc<RwLock<TunnelConn>>`: the connection, and whether a promotion holds its lock.  The id it was tracked under and
the request that its connect made, where it is not a local one, are kept for the statements. -/
structure Cell where
  id : String
  asked : Option AuthRequest
  conn : TunnelConn
  held : Bool
  deriving DecidableEq

/-! ## Tasks -/

/-- Why `authorize_and_activate` closes a connection. -/
inductive Why where
  | denied
  | unreachable
  | unwritable
  deriving DecidableEq

/-- Where `authorize_and_activate` stands. -/
inductive Phase where
  | deciding
  | decided (allowed : Bool)
  | connecting
  | connected
  | promoting (arc : Nat)
  | replaying (arc : Nat) (current : Bytes) (rest : List Bytes)
  | closing (why : Why)
  deriving DecidableEq

/-- What a task goes on with after a `close_conn`. -/
inductive After where
  | done
  | forward (connId : String)
  | sweep (peerId : String) (todo : List (String × Nat))
  deriving DecidableEq

/-- A task: an authorization, for the connection `own` that its connect made; a local connection whose connect is being
sent; a read loop; a `close_all_for_peer`; and any of these in a `close_conn`, before and after it took the entry. -/
inductive Task where
  | authorize (own : Nat) (req : AuthRequest) (connId : String) (phase : Phase)
  | dialing (connId : String)
  | forward (connId : String)
  | sweep (peerId : String) (todo : List (String × Nat))
  | closing (connId : String) (after : After)
  | settling (arc : Nat) (after : After)
  | done
  deriving DecidableEq

def After.task : After → Task
  | .done => .done
  | .forward connId => .forward connId
  | .sweep peerId todo => .sweep peerId todo

inductive Loop where
  | idle
  | connecting (peerId connId : String) (did : Option String)
  | data (arc : Nat) (peerId : String) (tm : TunnelMessage)
  | owned (arc : Nat) (tm : TunnelMessage)
  | writing (arc : Nat) (connId : String) (rest : Bytes)
  | closeFrom (arc : Nat) (connId peerId : String)
  | closing (connId : String)
  | settling (arc : Nat)
  deriving DecidableEq

def DataOutcome.next (arc : Nat) (tm : TunnelMessage) : DataOutcome → Loop
  | .duplicate _ => .idle
  | .gap _ _ => .closing tm.connId
  | .inconsistent => .closing tm.connId
  | .buffered => .idle
  | .pendingBufferOverflow => .closing tm.connId
  | .write => match tm.payload with
    | none => .idle
    | some payload => if payload = [] then .idle else .writing arc tm.connId payload

/-- What happened, for the statements: the authorizer answered a request; a connection got its backend stream; a read
loop was started for an id; a `close_conn` took a connection, in answer to a denial of `refused`. -/
inductive Event where
  | answered (own : Nat) (req : AuthRequest) (allowed : Bool)
  | attached (arc : Nat) (connId : String)
  | forwarding (connId : String)
  | closed (arc : Nat) (connId : String) (refused : Option Nat)
  deriving DecidableEq

/-- What a task that goes on after a `close_conn` starts. -/
def After.events : After → List Event
  | .forward connId => [.forwarding connId]
  | _ => []

/-! ## The manager -/

/-- `TcpManager`: the heap its `Arc`s point into, the tracked connections, `active_conns`, and what runs. -/
structure State where
  heap : List Cell
  conns : Table String Nat
  activeConns : Nat
  loop : Loop
  tasks : List Task
  cancelled : Bool
  log : List Event
  deriving DecidableEq

def State.initial : State := ⟨[], ∅, 0, .idle, [], false, []⟩

namespace State

def isActive (s : State) (arc : Nat) : Bool := (s.heap[arc]?).elim false fun cell => cell.conn.state.isActive

/-- A connection as `track_pending_conn` counts it against the limits of `peer_id`: whether at all, and whether it is
pending.  One whose lock is held counts as an established one. -/
def counted (s : State) (busy : Nat → Bool) (peerId : String) (arc : Nat) : Bool × Bool :=
  if busy arc then (true, false)
  else match s.heap[arc]? with
    | some cell => (decide (cell.conn.peerId = peerId), decide (cell.conn.peerId = peerId) && !cell.conn.state.isActive)
    | none => (false, false)

/-- Whether `track_pending_conn` still takes a connection of `peer_id`. -/
def roomFor (s : State) (busy : Nat → Bool) (peerId : String) : Bool :=
  decide (s.conns.total (fun _ arc => if (s.counted busy peerId arc).1 then 1 else 0) < maxConnsPerPeer) &&
    decide (s.conns.total (fun _ arc => if (s.counted busy peerId arc).2 then 1 else 0) < maxPendingConnsPerPeer)

/-- The connection that `track_pending_conn` makes. -/
def pendingConn (peerId : String) (did : Option String) : TunnelConn := ⟨.pending [] 0, peerId, .new, did⟩

/-- The end of `handle_remote_connect`: `track_pending_conn`, and a task for the authorization. -/
def trackPendingConn (s : State) (target remoteAddr : String) (busy : Nat → Bool) (peerId connId : String)
    (did : Option String) : State :=
  if s.roomFor busy peerId then
    let req : AuthRequest := ⟨peerId, target, remoteAddr, "tcp", did⟩
    { s with
      heap := s.heap ++ [⟨connId, some req, pendingConn peerId did, false⟩]
      conns := s.conns.insert connId s.heap.length
      loop := .idle
      tasks := s.tasks ++ [.authorize s.heap.length req connId .deciding] }
  else { s with loop := .idle }

/-- `track_conn`, for a local connection whose connect is then sent -/
def trackConn (s : State) (connId peerId : String) : State := { s with
    heap := s.heap ++ [⟨connId, none, ⟨.active ⟨[], false⟩, peerId, .new, none⟩, false⟩]
    conns := s.conns.insert connId s.heap.length
    activeConns := if s.conns.contains connId then s.activeConns else s.activeConns + 1
    tasks := s.tasks ++ [.dialing connId] }

/-- The first lock of `on_tunnel_message`. -/
def onTunnelMessage (s : State) (peerId : String) (tm : TunnelMessage) (did : Option String) : Loop := if tm.msgType = "connect" then
    if s.conns.contains tm.connId then .idle else .connecting peerId tm.connId did
  else if tm.msgType = "data" then (s.conns.get tm.connId).elim .idle (fun arc => .data arc peerId tm)
  else if tm.msgType = "close" then (s.conns.get tm.connId).elim .idle (fun arc => .closeFrom arc tm.connId peerId)
  else .idle

/-- The first lock of `close_conn`: the entry is taken out of the map. -/
def remove (s : State) (connId : String) (refused : Option Nat) : State :=
  match s.conns.get connId with
  | some arc => { s with conns := s.conns.erase connId, log := s.log ++ [.closed arc connId refused] }
  | none => s

/-- The second lock of `close_conn`: a connection that was open is no longer counted. -/
def settle (s : State) (arc : Nat) : State := if s.isActive arc then { s with activeConns := s.activeConns - 1 } else s

def setConn (s : State) (arc : Nat) (cell : Cell) : State := { s with heap := s.heap.set arc cell }

def become (s : State) (i : Nat) (t : Task) : State := { s with tasks := s.tasks.set i t }

/-- A task that comes back from `close_conn`. -/
def resume (s : State) (i : Nat) (after : After) : State := { s.become i after.task with log := s.log ++ after.events }

/-- `close_conn` of a task, up to its second lock -/
def closeConn (s : State) (i : Nat) (connId : String) (refused : Option Nat) (after : After) : State :=
  match s.conns.get connId with
  | some arc => (s.remove connId refused).become i (.settling arc after)
  | none => s.resume i after

/-- `close_conn` of the loop, up to its second lock -/
def loopCloseConn (s : State) (connId : String) : State :=
  match s.conns.get connId with
  | some arc => { s.remove connId none with loop := .settling arc }
  | none => { s with loop := .idle }

/-- What a connection weighs in `active_conns`. -/
def weight (s : State) (arc : Nat) : Nat := if s.isActive arc then 1 else 0

theorem settle_eq (s : State) (arc : Nat) : s.settle arc = { s with activeConns := s.activeConns - s.weight arc } := by
  unfold settle weight
  split <;> rfl

variable {connId : String} {s : State}

theorem remove_of_some {arc : Nat} (h : s.conns.get connId = some arc)
    (refused : Option Nat) : s.remove connId refused =
      { s with conns := s.conns.erase connId, log := s.log ++ [.closed arc connId refused] } := by
  unfold remove
  rw [h]

theorem closeConn_of_none (h : s.conns.get connId = none) (i : Nat)
    (refused : Option Nat) (after : After) : s.closeConn i connId refused after = s.resume i after := by
  unfold closeConn
  rw [h]

theorem closeConn_of_some {arc : Nat} (h : s.conns.get connId = some arc) (i : Nat)
    (refused : Option Nat) (after : After) : s.closeConn i connId refused after = { s with
        conns := s.conns.erase connId
        tasks := s.tasks.set i (.settling arc after)
        log := s.log ++ [.closed arc connId refused] } := by
  unfold closeConn
  rw [h, remove_of_some h]
  rfl

theorem loopCloseConn_of_none (h : s.conns.get connId = none) : s.loopCloseConn connId = { s with loop := .idle } := by
  unfold loopCloseConn
  rw [h]

theorem loopCloseConn_of_some {arc : Nat} (h : s.conns.get connId = some arc) : s.loopCloseConn connId = { s with
        conns := s.conns.erase connId
        loop := .settling arc
        log := s.log ++ [.closed arc connId none] } := by
  unfold loopCloseConn
  rw [h, remove_of_some h]

end State

/-! ## Steps -/

/-- The cell whose backend stream is at `writer`. -/
def Cell.withWriter (cell : Cell) (writer : Socket) (held : Bool) : Cell :=
  { cell with conn := { cell.conn with state := .active writer }, held := held }

def Socket.take (w : Socket) (bytes : Bytes) : Socket := { w with written := w.written ++ bytes }

/-- What the conditions on a run read of a step: a message comes in; a connection is tracked under an id; a `close_conn`
takes what is tracked under an id; a backend stream takes bytes. -/
inductive Act where
  | receives (peerId : String) (tm : TunnelMessage)
  | tracks (connId : String)
  | removes (connId : String)
  | writes (arc : Nat)
  | other

open State in
/-- One step of the loop or of a task.  `target` and `remoteAddr` are the forward's. -/
inductive Step (target remoteAddr : String) : State → Act → State → Prop where
  | receive {s : State} (peerId : String) (tm : TunnelMessage) (did : Option String) : s.loop = .idle → s.cancelled = false →
      Step target remoteAddr s (.receives peerId tm) { s with loop := s.onTunnelMessage peerId tm did }
  | track {s : State} (busy : Nat → Bool) {peerId connId : String} {did : Option String} : s.loop = .connecting peerId connId did →
      Step target remoteAddr s (.tracks connId) (s.trackPendingConn target remoteAddr busy peerId connId did)
  | check {s : State} (bound : Bool) {arc : Nat} {peerId : String} {tm : TunnelMessage} {cell : Cell} :
      s.loop = .data arc peerId tm → s.heap[arc]? = some cell → cell.held = false →
      Step target remoteAddr s .other
        { s with loop := if cell.conn.peerId = peerId ∧ (cell.conn.did = none ∨ bound = true) then .owned arc tm else .idle }
  | observe {s : State} {arc : Nat} {tm : TunnelMessage} {cell : Cell} :
      s.loop = .owned arc tm → s.heap[arc]? = some cell → cell.held = false →
      Step target remoteAddr s .other
        { s.setConn arc { cell with conn := (cell.conn.receive tm).1 } with loop := (cell.conn.receive tm).2.next arc tm }
  | write {s : State} (n : Nat) {arc : Nat} {connId : String} {rest : Bytes} {cell : Cell} {writer : Socket} :
      s.loop = .writing arc connId rest → s.heap[arc]? = some cell → cell.conn.state = .active writer →
      0 < n → n ≤ rest.length →
      Step target remoteAddr s (.writes arc)
        { s.setConn arc (cell.withWriter (writer.take (rest.take n)) cell.held) with
          loop := if n = rest.length then .idle else .writing arc connId (rest.drop n) }
  | writeFails {s : State} {arc : Nat} {connId : String} {rest : Bytes} {cell : Cell} {writer : Socket} :
      s.loop = .writing arc connId rest → s.heap[arc]? = some cell → cell.conn.state = .active writer →
      Step target remoteAddr s .other
        { s.setConn arc (cell.withWriter { writer with failed := true } cell.held) with loop := .closing connId }
  | closeFrom {s : State} {arc : Nat} {connId peerId : String} {cell : Cell} :
      s.loop = .closeFrom arc connId peerId → s.heap[arc]? = some cell → cell.held = false →
      Step target remoteAddr s .other { s with loop := if cell.conn.peerId = peerId then .closing connId else .idle }
  | loopClose {s : State} {connId : String} : s.loop = .closing connId →
      Step target remoteAddr s (.removes connId) (s.loopCloseConn connId)
  | loopSettle {s : State} {arc : Nat} {cell : Cell} : s.loop = .settling arc → s.heap[arc]? = some cell → cell.held = false →
      Step target remoteAddr s .other { s.settle arc with loop := .idle }
  | answer {s : State} (allowed : Bool) {i own : Nat} {req : AuthRequest} {connId : String} :
      s.tasks[i]? = some (.authorize own req connId .deciding) →
      Step target remoteAddr s .other
        { s.become i (.authorize own req connId (.decided allowed)) with log := s.log ++ [.answered own req allowed] }
  | decided {s : State} {i own : Nat} {req : AuthRequest} {connId : String} {allowed : Bool} :
      s.tasks[i]? = some (.authorize own req connId (.decided allowed)) →
      Step target remoteAddr s .other
        (s.become i (if s.cancelled = true ∨ s.conns.contains connId = false then .done
          else .authorize own req connId (if allowed then .connecting else .closing .denied)))
  | connect {s : State} {i own : Nat} {req : AuthRequest} {connId : String} :
      s.tasks[i]? = some (.authorize own req connId .connecting) →
      Step target remoteAddr s .other (s.become i (if s.cancelled then .done else .authorize own req connId .connected))
  | connectFails {s : State} {i own : Nat} {req : AuthRequest} {connId : String} :
      s.tasks[i]? = some (.authorize own req connId .connecting) →
      Step target remoteAddr s .other (s.become i (.authorize own req connId (.closing .unreachable)))
  | lookUp {s : State} {i own : Nat} {req : AuthRequest} {connId : String} : s.tasks[i]? = some (.authorize own req connId .connected) →
      Step target remoteAddr s .other (s.become i
        ((s.conns.get connId).elim .done (fun arc => .authorize own req connId (.promoting arc))))
  | promote {s : State} {i own : Nat} {req : AuthRequest} {connId : String} {arc : Nat} {cell : Cell}
      {buffered : List Bytes} {bufferedBytes : Nat} :
      s.tasks[i]? = some (.authorize own req connId (.promoting arc)) → s.heap[arc]? = some cell → cell.held = false →
      cell.conn.state = .pending buffered bufferedBytes →
      Step target remoteAddr s .other
        { (s.setConn arc (cell.withWriter ⟨[], false⟩ true)).become i (.authorize own req connId (.replaying arc [] buffered)) with
          activeConns := s.activeConns + 1
          log := s.log ++ [.attached arc connId] }
  | promoteLate {s : State} {i own : Nat} {req : AuthRequest} {connId : String} {arc : Nat} {cell : Cell} {writer : Socket} :
      s.tasks[i]? = some (.authorize own req connId (.promoting arc)) → s.heap[arc]? = some cell → cell.held = false →
      cell.conn.state = .active writer → Step target remoteAddr s .other (s.become i .done)
  | replayNext {s : State} {i own : Nat} {req : AuthRequest} {connId : String} {arc : Nat} {payload : Bytes}
      {rest : List Bytes} : s.tasks[i]? = some (.authorize own req connId (.replaying arc [] (payload :: rest))) →
      Step target remoteAddr s .other (s.become i (.authorize own req connId (.replaying arc payload rest)))
  | replayWrite {s : State} (n : Nat) {i own : Nat} {req : AuthRequest} {connId : String} {arc : Nat} {current : Bytes}
      {rest : List Bytes} {cell : Cell} {writer : Socket} :
      s.tasks[i]? = some (.authorize own req connId (.replaying arc current rest)) → s.heap[arc]? = some cell →
      cell.conn.state = .active writer → 0 < n → n ≤ current.length →
      Step target remoteAddr s (.writes arc)
        ((s.setConn arc (cell.withWriter (writer.take (current.take n)) cell.held)).become i
          (.authorize own req connId (.replaying arc (current.drop n) rest)))
  | replayFails {s : State} {i own : Nat} {req : AuthRequest} {connId : String} {arc : Nat} {current : Bytes}
      {rest : List Bytes} {cell : Cell} {writer : Socket} :
      s.tasks[i]? = some (.authorize own req connId (.replaying arc current rest)) → s.heap[arc]? = some cell →
      cell.conn.state = .active writer → current ≠ [] →
      Step target remoteAddr s .other ((s.setConn arc (cell.withWriter { writer with failed := true } false)).become i
        (.authorize own req connId (.closing .unwritable)))
  | replayDone {s : State} {i own : Nat} {req : AuthRequest} {connId : String} {arc : Nat} {cell : Cell} :
      s.tasks[i]? = some (.authorize own req connId (.replaying arc [] [])) → s.heap[arc]? = some cell →
      Step target remoteAddr s .other ((s.setConn arc { cell with held := false }).resume i (.forward connId))
  | authorizeClose {s : State} {i own : Nat} {req : AuthRequest} {connId : String} {why : Why} :
      s.tasks[i]? = some (.authorize own req connId (.closing why)) →
      Step target remoteAddr s (.removes connId) (s.closeConn i connId (if why = .denied then some own else none)
        (if why = .unwritable then .forward connId else .done))
  | dial {s : State} (connId peerId : String) : Step target remoteAddr s (.tracks connId) (s.trackConn connId peerId)
  | dialed {s : State} {i : Nat} {connId : String} : s.tasks[i]? = some (.dialing connId) →
      Step target remoteAddr s .other (s.resume i (.forward connId))
  | dialFails {s : State} {i : Nat} {connId : String} : s.tasks[i]? = some (.dialing connId) →
      Step target remoteAddr s .other (s.become i (.closing connId .done))
  | forwardEnds {s : State} {i : Nat} {connId : String} : s.tasks[i]? = some (.forward connId) →
      Step target remoteAddr s .other (s.become i (.closing connId .done))
  | sweep {s : State} (peerId : String) (todo : List (String × Nat)) :
      (∀ connId arc, (connId, arc) ∈ todo ↔ s.conns.get connId = some arc) → todo.Nodup →
      Step target remoteAddr s .other { s with tasks := s.tasks ++ [.sweep peerId todo] }
  | sweepNext {s : State} {i : Nat} {peerId connId : String} {arc : Nat} {todo : List (String × Nat)} {cell : Cell} :
      s.tasks[i]? = some (.sweep peerId ((connId, arc) :: todo)) → s.heap[arc]? = some cell → cell.held = false →
      Step target remoteAddr s .other (s.become i
        (if cell.conn.peerId = peerId then .closing connId (.sweep peerId todo) else .sweep peerId todo))
  | sweepEnds {s : State} {i : Nat} {peerId : String} : s.tasks[i]? = some (.sweep peerId []) →
      Step target remoteAddr s .other (s.become i .done)
  | close {s : State} {i : Nat} {connId : String} {after : After} : s.tasks[i]? = some (.closing connId after) →
      Step target remoteAddr s (.removes connId) (s.closeConn i connId none after)
  | settle {s : State} {i arc : Nat} {after : After} {cell : Cell} :
      s.tasks[i]? = some (.settling arc after) → s.heap[arc]? = some cell → cell.held = false →
      Step target remoteAddr s .other ((s.settle arc).resume i after)
  | cancel {s : State} : Step target remoteAddr s .other { s with cancelled := true }

/-- The states that runs reach whose steps all meet a condition, which reads the state before the step. -/
inductive Reach (target remoteAddr : String) (ok : State → Act → Prop) : State → Prop where
  | refl : Reach target remoteAddr ok .initial
  | tail {s s' : State} {act : Act} : Reach target remoteAddr ok s → ok s act → Step target remoteAddr s act s' →
      Reach target remoteAddr ok s'

theorem Reach.to {target remoteAddr : String} {ok : State → Act → Prop} {s s' s'' : State} {act : Act}
    (h : Reach target remoteAddr ok s) (hstep : Step target remoteAddr s act s') (hok : ok s act) (heq : s' = s'') :
    Reach target remoteAddr ok s'' :=
  heq ▸ h.tail hok hstep

/-! ## The messages and connections of a run -/

def connectMessage : TunnelMessage := ⟨"connect", "x", none, none⟩

def closeMessage : TunnelMessage := ⟨"close", "x", none, none⟩

/-- The request that a connect of `peerId` makes. -/
def request (peerId : String) : AuthRequest := ⟨peerId, "tcp:22", "127.0.0.1:22", "tcp", none⟩

/-- A connection of `peerId` that waits for its authorization. -/
def waiting (peerId : String) : Cell := ⟨"x", some (request peerId), State.pendingConn peerId none, false⟩

/-- The connection that `peerId` opened. -/
def opened (peerId : String) (held : Bool) : Cell := (waiting peerId).withWriter ⟨[], false⟩ held

/-- A connection in the table, with its authorization at `phase` -/
abbrev tracked (cell : Cell) (loop : Loop) (phase : Phase) : State :=
  ⟨[cell], Table.insert ∅ "x" 0, 0, loop, [.authorize 0 (request "alice") "x" phase], false, []⟩

abbrev allowed (cell : Cell) (loop : Loop) (phase : Phase) : State :=
  { tracked cell loop phase with log := [.answered 0 (request "alice") true] }

theorem reach_promoting {ok : State → Act → Prop} (hother : ∀ s, ok s .other)
    (hreceives : ok .initial (.receives "alice" connectMessage))
    (htracks : ok ⟨[], ∅, 0, .connecting "alice" "x" none, [], false, []⟩ (.tracks "x")) :
    Reach "tcp:22" "127.0.0.1:22" ok (allowed (waiting "alice") .idle (.promoting 0)) := by
  have h1 : Reach "tcp:22" "127.0.0.1:22" ok ⟨[], ∅, 0, .connecting "alice" "x" none, [], false, []⟩ :=
    Reach.refl.to (.receive "alice" connectMessage none rfl rfl) hreceives (by decide)
  have h2 : Reach _ _ _ (tracked (waiting "alice") .idle .deciding) := h1.to (.track (fun _ => false) rfl) htracks (by decide)
  have h3 : Reach _ _ _ (allowed (waiting "alice") .idle (.decided true)) := h2.to (.answer true (i := 0) rfl) (hother _) (by decide)
  have h4 : Reach _ _ _ (allowed (waiting "alice") .idle .connecting) := h3.to (.decided (i := 0) rfl) (hother _) (by decide)
  have h5 : Reach _ _ _ (allowed (waiting "alice") .idle .connected) := h4.to (.connect (i := 0) rfl) (hother _) (by decide)
  exact h5.to (.lookUp (i := 0) rfl) (hother _) (by decide)

/-- What happened to a connection of Alice that she opened and closed -/
abbrev openedAndClosed : List Event := [.answered 0 (request "alice") true, .attached 0 "x", .forwarding "x", .closed 0 "x" none]

/-- A connection that its peer closes once its read loop runs -/
theorem reach_closed {ok : State → Act → Prop} (hother : ∀ s, ok s .other)
    (hreceives : ∀ s tm, ok s (.receives "alice" tm))
    (htracks : ok ⟨[], ∅, 0, .connecting "alice" "x" none, [], false, []⟩ (.tracks "x"))
    (hremoves : ok ⟨[opened "alice" false], Table.insert ∅ "x" 0, 1, .closing "x", [.forward "x"], false,
      openedAndClosed.dropLast⟩ (.removes "x")) :
    Reach "tcp:22" "127.0.0.1:22" ok ⟨[opened "alice" false], ∅, 0, .idle, [.forward "x"], false, openedAndClosed⟩ := by
  have h1 : Reach _ _ _ ⟨[opened "alice" true], Table.insert ∅ "x" 0, 1, .idle,
      [.authorize 0 (request "alice") "x" (.replaying 0 [] [])], false, openedAndClosed.take 2⟩ :=
    (reach_promoting hother (hreceives _ _) htracks).to (.promote (i := 0) rfl (rfl : _ = some (waiting "alice")) rfl rfl)
      (hother _) (by decide)
  have h2 : Reach _ _ _ ⟨[opened "alice" false], Table.insert ∅ "x" 0, 1, .idle, [.forward "x"], false, openedAndClosed.dropLast⟩ :=
    h1.to (.replayDone (i := 0) rfl (rfl : _ = some (opened "alice" true))) (hother _) (by decide)
  have h3 : Reach _ _ _ ⟨[opened "alice" false], Table.insert ∅ "x" 0, 1, .closeFrom 0 "x" "alice", [.forward "x"], false,
      openedAndClosed.dropLast⟩ :=
    h2.to (.receive "alice" closeMessage none rfl rfl) (hreceives _ _) (by decide)
  have h4 : Reach _ _ _ ⟨[opened "alice" false], Table.insert ∅ "x" 0, 1, .closing "x", [.forward "x"], false,
      openedAndClosed.dropLast⟩ :=
    h3.to (.closeFrom rfl (rfl : _ = some (opened "alice" false)) rfl) (hother _) (by decide)
  have h5 : Reach _ _ _ ⟨[opened "alice" false], ∅, 1, .settling 0, [.forward "x"], false, openedAndClosed⟩ :=
    h4.to (.loopClose rfl) hremoves (by decide)
  exact h5.to (.loopSettle rfl (rfl : _ = some (opened "alice" false)) rfl) (hother _) (by decide)

end Mistl.Tunnel
