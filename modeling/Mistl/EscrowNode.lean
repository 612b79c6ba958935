import Mistl.EscrowArchive
import Mistl.EscrowCluster
/-!
# EscrowNode — requests, leases and the drive loop of one replica

The tasks of `escrow/replication/mod.rs` beside the drive loop, which they talk to through the bounded queue of `Inbound`
messages.  Every lease is owned by one task or one queued message and released when its owner goes.
-/
namespace Mistl.Escrow

inductive Inbound where
  | wire (sender : String) (msg : RaftMessage)
  | prepared (sender : String) (msg : RaftMessage) (leases : List Lease)
  | membership (voters learners : List String)
  | propose (command : Command) (term : Nat) (id : String)

def Inbound.leases : Inbound → List Lease
  | .prepared _ _ leases => leases
  | _ => []

inductive Task where
  /-- a client request that waits for its read barrier -/
  | barrier (command : Command) (term : Nat) (id ticket : String)
  /-- a command that may be staged and proposed -/
  | ready (command : Command) (term : Nat) (id : String)
  | staged (command : Command) (term : Nat) (id : String) (lease : Lease)
  /-- a proposal that was queued: the future keeps the lease until it is answered or times out -/
  | waiting (lease : Option Lease)
  | preparing (sender : String) (msg : RaftMessage) (todo : List Head) (leases : List Lease)
  /-- a snapshot offer or an export -/
  | keeping (lease : Lease)

def Task.leases : Task → List Lease
  | .staged _ _ _ lease | .keeping lease => [lease]
  | .waiting lease => lease.toList
  | .preparing _ _ _ leases => leases
  | _ => []

structure Node (σ : Type) where
  cluster : Cluster σ
  archive : Archive
  tasks : Multiset Task
  queue : List Inbound
  replies : Multiset Reply

structure Setup where
  cfg : Config
  room : String
  /-- whether a migration seed is configured -/
  seeded : Bool

/-- `MAX_PEER_QUEUE * 18 + MAX_REQUESTS` -/
def queueCapacity : Nat := 64 * 18 + maxRequests

def replyType : Json → Option String
  | .obj fields => match fields.lookup "type" with
    | some (.str t) => some t
    | _ => none
  | _ => none

def Command.slot : Command → Option String
  | .put _ head => some head.slot
  | .delete _ request => some request.slot
  | _ => none

variable {σ : Type} (C : Crates)

/-! ## Staging -/

def Archive.pinOne (a : Archive) (head : Head) : Archive × Except Error Lease :=
  match a.pinHeads C [head] with
  | some (a, lease) => (a, .ok lease)
  | none => (a, .error (.new .fetchFailed))

/-- `Cluster::stage`; `pulled` is what the peer sent, if it did in time. -/
def stageHead (setup : Setup) (running : Bool) (a : Archive) (head : Head) (pulled : Except Error (List UInt8 × List UInt8))
    (disk : Bool) : Archive × Except Error Lease :=
  match head.validate C gib with
  | .error e => (a, .error e)
  | .ok () => match head.verify C with
    | .error e => (a, .error e)
    | .ok () =>
      if running = false then (a, .error (.new .fetchFailed))
      else if a.has C head then a.pinOne C head
      else match head.validate C setup.cfg.maxBlobBytes with
        | .error e => (a, .error e)
        | .ok () => match pulled with
          | .error e => (a, .error e)
          | .ok (blob, bytes) => match a.stage C setup.cfg setup.room head blob bytes disk with
            | (a, .error e) => (a, .error e)
            | (a, .ok ()) => a.pinOne C head

def Archive.releaseAll (a : Archive) (leases : List Lease) : Archive := leases.foldl Archive.release a

/-! ## What is referred to -/

def State.retainedHeads (s : State) : Multiset Head := s.heads.entries.map (·.2) + s.previous.entries.map (·.2)

def Cluster.logHeads (c : Cluster σ) : List Head := c.engine.log.flatMap fun e => e.command.heads

/-- The hashes `Cluster::collect` keeps: those of the state, of the snapshot and of the log. -/
def Cluster.retained (c : Cluster σ) (hash : String) : Bool :=
  decide (hash ∈ c.state.retainedHeads.map (Head.hash C)) ||
  (match c.engine.snapshot with
    | none => false
    | some snapshot => match State.decode C snapshot.data applySlots with
      | .ok s => decide (hash ∈ s.retainedHeads.map (Head.hash C))
      | .error _ => false) ||
  decide (hash ∈ c.logHeads.map (Head.hash C))

namespace Node

def owned (tasks : Multiset Task) (queue : List Inbound) : Multiset Lease :=
  tasks.bind (fun t => (t.leases : Multiset Lease)) + (queue.flatMap Inbound.leases : List Lease)

def live (n : Node σ) : Multiset Lease := owned n.tasks n.queue

/-! ## The drive loop -/

def answers (setup : Setup) (n : Node σ) (env : Env) : Env := { env with
    has := n.archive.has C
    archiveFull := decide (setup.cfg.maxTotalBytes / 2 < n.archive.bytes)
    collects := !n.archive.writeFailed }

variable (K : Consensus σ) (setup : Setup)

/-- One round of the drive loop; the collection after a compaction is a step of its own. -/
def drive (n : Node σ) (env : Env) (input : Cluster.Input) : Node σ :=
  let next := n.cluster.handle C K (n.answers C setup env) input
  { n with cluster := next.1, replies := n.replies + next.2 }

/-- `Cluster::collect`: what neither the state, the snapshot, the log nor a live lease refers to is deleted. -/
def collect (n : Node σ) (env : Env) : Node σ := { n.drive C K setup env .maintain with
    archive := if n.cluster.collects C (n.answers C setup env) then
        (n.archive.collect (n.cluster.retained C)).getD n.archive
      else n.archive }

def acceptable (e : LogEntry) : Bool :=
  match e.command.content with
  | .membership _ => true
  | .command c => isOk (validate C c gib)
  | .unreadable => false

/-- `Body::Raft` of `Cluster::incoming`: a batch that refers to generations is prepared by a task of its own, unless one
is at it (`busy`). -/
def incoming (n : Node σ) (env : Env) (busy : Bool) (sender : String) (msg : RaftMessage) : Node σ :=
  let deliver := fun n : Node σ => n.drive C K setup env (.event (.message sender msg) false)
  match msg with
  | .appendEntries term _ _ _ entries _ =>
    if n.cluster.engine.currentTerm ≤ term ∧ entries ≠ [] then
      let n := n.drive C K setup env (.event (.message sender (.appendEntries term sender 0 0 [] 0)) true)
      let heads := entries.flatMap (fun e => e.command.heads)
      if entries.all (acceptable C) = false then n
      else if heads = [] then deliver n
      else if busy then n
      else { n with tasks := .preparing sender msg heads [] ::ₘ n.tasks }
    else deliver n
  | _ => deliver n

/-- One message taken from the queue; the leases of a prepared one are dropped after it. -/
def take (n : Node σ) (env : Env) (busy : Bool) : Node σ :=
  match n.queue with
  | [] => n
  | item :: queue =>
    let n := { n with queue := queue }
    match item with
    | .propose command term id => n.drive C K setup env (.propose command term id)
    | .membership voters learners => n.drive C K setup env (.membership voters learners)
    | .wire sender msg => n.incoming C K setup env busy sender msg
    | .prepared sender msg leases =>
      let n := { n with tasks := (leases.map Task.keeping : List Task) + n.tasks }
      if n.cluster.engine.currentTerm ≤ msg.term then n.drive C K setup env (.event (.message sender msg) false) else n

/-! ## Steps -/

/-- What a step is, as far as its effect on the archive goes. -/
inductive Label where
  | other
  | stage (disk : Bool)
  | collect

inductive Step (n : Node σ) : Label → Node σ → Prop
  /-- `Cluster::leader_request`, up to its read barrier -/
  | request (command : Command) (id ticket : String) : command.slot.isSome = true →
      validate C command setup.cfg.maxBlobBytes = .ok () → n.cluster.error = none → n.cluster.engine.role = .leader →
      (setup.seeded = true → n.cluster.state.migrationFinished = true) → n.queue.length < queueCapacity →
      Step n .other { n with
        tasks := .barrier command n.cluster.engine.currentTerm id ticket ::ₘ n.tasks
        queue := n.queue ++ [.propose (.readBarrier ticket) n.cluster.engine.currentTerm id] }
  /-- the barrier was answered, and the command would change the slot -/
  | preview (command : Command) (term : Nat) (id ticket : String) (rest : Multiset Task) (reply : Json) :
      n.tasks = .barrier command term id ticket ::ₘ rest → .client ticket reply ∈ n.replies →
      replyType reply = some "escrow_read_ready" → n.cluster.engine.role = .leader →
      n.cluster.engine.currentTerm = term →
      replyType (n.cluster.state.apply C command id setup.cfg.maxSlotsPerRoom).2 ≠ some "escrow_error" →
      command.slot.bind (n.cluster.state.apply C command id setup.cfg.maxSlotsPerRoom).1.heads.get
        ≠ command.slot.bind n.cluster.state.heads.get →
      Step n .other { n with tasks := .ready command term id ::ₘ rest }
  /-- `Cluster::import_legacy`, one of its proposals -/
  | migrate (command : Command) (term : Nat) : setup.seeded = true → command.isClient = false →
      (commandHeads command).length ≤ 1 → term ≤ n.cluster.engine.currentTerm →
      Step n .other { n with tasks := .ready command term "migration" ::ₘ n.tasks }
  | stage (command : Command) (term : Nat) (id : String) (rest : Multiset Task) (head : Head)
      (pulled : Except Error (List UInt8 × List UInt8)) (disk : Bool) (a : Archive) (lease : Lease) :
      n.tasks = .ready command term id ::ₘ rest → commandHeads command = [head] →
      stageHead C setup n.cluster.running n.archive head pulled disk = (a, .ok lease) →
      Step n (.stage disk) { n with archive := a, tasks := .staged command term id lease ::ₘ rest }
  | stageFailed (command : Command) (term : Nat) (id : String) (rest : Multiset Task) (head : Head)
      (pulled : Except Error (List UInt8 × List UInt8)) (disk : Bool) (a : Archive) (error : Error) :
      n.tasks = .ready command term id ::ₘ rest → commandHeads command = [head] →
      stageHead C setup n.cluster.running n.archive head pulled disk = (a, .error error) →
      Step n (.stage disk) { n with archive := a, tasks := rest }
  /-- `Cluster::propose`, without or with a lease -/
  | propose (command : Command) (term : Nat) (id : String) (rest : Multiset Task) :
      n.tasks = .ready command term id ::ₘ rest → commandHeads command = [] → n.queue.length < queueCapacity →
      Step n .other { n with tasks := .waiting none ::ₘ rest, queue := n.queue ++ [.propose command term id] }
  | proposeStaged (command : Command) (term : Nat) (id : String) (lease : Lease) (rest : Multiset Task) :
      n.tasks = .staged command term id lease ::ₘ rest → n.queue.length < queueCapacity →
      Step n .other { n with tasks := .waiting (some lease) ::ₘ rest, queue := n.queue ++ [.propose command term id] }
  /-- a task ends, by itself or by its timeout, and its leases with it -/
  | drop (task : Task) (rest : Multiset Task) : n.tasks = task ::ₘ rest →
      Step n .other { n with tasks := rest, archive := n.archive.releaseAll task.leases }
  | receive (sender : String) (msg : RaftMessage) : (∀ term leader snapshot, msg ≠ .installSnapshot term leader snapshot) →
      Step n .other { n with queue := n.queue ++ [.wire sender msg] }
  | change (voters learners : List String) : Step n .other { n with queue := n.queue ++ [.membership voters learners] }
  /-- `Receive::Complete` -/
  | received (sender : String) (term : Nat) (snapshot : RaftSnapshot) (s : State) (todo : List Head) :
      n.cluster.engine.currentTerm ≤ term → State.decode C snapshot.data applySlots = .ok s →
      (todo : Multiset Head) = s.retainedHeads →
      Step n .other { n with tasks := .preparing sender (.installSnapshot term sender snapshot) todo [] ::ₘ n.tasks }
  | prepare (sender : String) (msg : RaftMessage) (head : Head) (todo : List Head) (leases : List Lease)
      (rest : Multiset Task) (pulled : Except Error (List UInt8 × List UInt8)) (disk : Bool) (a : Archive) (lease : Lease) :
      n.tasks = .preparing sender msg (head :: todo) leases ::ₘ rest →
      stageHead C setup n.cluster.running n.archive head pulled disk = (a, .ok lease) →
      Step n (.stage disk) { n with archive := a, tasks := .preparing sender msg todo (leases ++ [lease]) ::ₘ rest }
  | prepareFailed (sender : String) (msg : RaftMessage) (head : Head) (todo : List Head) (leases : List Lease)
      (rest : Multiset Task) (pulled : Except Error (List UInt8 × List UInt8)) (disk : Bool) (a : Archive) (error : Error) :
      n.tasks = .preparing sender msg (head :: todo) leases ::ₘ rest →
      stageHead C setup n.cluster.running n.archive head pulled disk = (a, .error error) →
      Step n (.stage disk) { n with archive := a.releaseAll leases, tasks := rest }
  | prepared (sender : String) (msg : RaftMessage) (leases : List Lease) (rest : Multiset Task) :
      n.tasks = .preparing sender msg [] leases ::ₘ rest → n.queue.length < queueCapacity →
      Step n .other { n with tasks := rest, queue := n.queue ++ [.prepared sender msg leases] }
  | keep (heads : List Head) (a : Archive) (lease : Lease) : n.archive.pinHeads C heads = some (a, lease) →
      Step n .other { n with archive := a, tasks := .keeping lease ::ₘ n.tasks }
  | take (env : Env) (busy : Bool) : Step n .other (n.take C K setup env busy)
  | tick (env : Env) (event : Event) : event = .heartbeatTimeout ∨ event = .electionTimeout →
      Step n .other (n.drive C K setup env (.event event false))
  /-- a request stopped waiting for the answer to its proposal -/
  | gone (env : Env) (ticket : String) : Step n .other (n.drive C K setup env (.gone ticket))
  | collect (env : Env) : Step n .collect (n.collect C K setup env)

def Runs (ok : Node σ → Label → Prop) : Node σ → Node σ → Prop :=
  Relation.ReflTransGen fun n n' => ∃ label, ok n label ∧ Step C K setup n label n'

/-- What `Cluster::open` leaves: the archive has what the log refers to, and nothing is under way. -/
structure Opened (n : Node σ) : Prop where
  log : ∀ h ∈ n.cluster.logHeads, n.archive.has C h = true
  writable : n.archive.writeFailed = false
  rooms : n.archive.Roomed setup.room
  pins : n.archive.pins = ∅
  tasks : n.tasks = 0
  queue : n.queue = []
  error : n.cluster.error = none

end Node
end Mistl.Escrow
