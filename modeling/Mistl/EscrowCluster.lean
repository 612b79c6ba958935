import Mistl.EscrowEngine
import Mistl.SnapshotTransfers
/-!
# EscrowCluster — the drive loop of a replicated room

`Cluster` of `escrow/replication/mod.rs`, as the drive loop runs it, and `fail`, which stops it until a restart.  What the rest
of the node answers during a step is its environment `Env`.
-/
namespace Mistl.Escrow

def maxRequests : Nat := 32

def applySlots : Nat := 65536

inductive Fault where
  | refused (error : EngineError)
  | event (error : EngineError)
  | snapshotGeneration
  | unreadableCommand
  | generationUnavailable
  | markApplied (error : EngineError)
  | encode (error : SnapshotError)
  | compact (error : EngineError)
  | collect
  | snapshotOffer
  | wireLimit
  deriving DecidableEq

structure Pending where
  id : String
  /-- whether the request still waits for its answer -/
  waiting : Bool

inductive Reply where
  | client (ticket : String) (body : Json)
  | membershipAccepted (membership : Membership)
  | membershipRefused (error : String)
  deriving DecidableEq

structure Cluster (σ : Type) where
  engine : Engine σ
  state : State
  pending : Table String Pending
  error : Option Fault
  membershipPending : Option Membership
  running : Bool

structure Env where
  /-- `fresh_nonce`: 32 hex digits -/
  ticket : String
  ticket_hex : hexString ticket 32 = true
  /-- `Archive::has` -/
  has : Head → Bool
  /-- `archive.total_bytes() > cfg.max_total_bytes / 2` -/
  archiveFull : Bool
  /-- whether `Archive::collect` succeeds -/
  collects : Bool
  /-- the order in which a snapshot walks the maps -/
  walk : (s : State) → Iteration s
  /-- whether the generations of a snapshot were pinned and its offer made -/
  offers : String → Nat → RaftSnapshot → Bool
  /-- whether `wire::encode` takes a message -/
  encodes : RaftMessage → Bool

variable {σ : Type}

/-! ## Membership changes -/

def configuration (voters learners : List String) : Except String Membership :=
  if voters.length < 1 ∨ 9 < voters.length then .error "expected 1..9 voters"
  else if 9 < learners.length then .error "expected at most 9 learners"
  else if (validSet (voters ++ learners)) = false then .error "invalid, duplicate or overlapping member id"
  else .ok ⟨voters.insertionSort (· ≤ ·), none, learners.insertionSort (· ≤ ·)⟩

def checkVoters (current : Membership) (committed : Nat) (matched : String → Option Nat) : List String → Except String Unit
  | [] => .ok ()
  | voter :: voters =>
    if current.voters.contains voter then checkVoters current committed matched voters
    else if !current.learners.contains voter then .error "new voters must first join as learners"
    else if !(matched voter).any (fun index => decide (committed ≤ index)) then .error "learner has not durably caught up"
    else checkVoters current committed matched voters

/-- `membership::change` -/
def changeTo (current : Membership) (voters learners : List String) (committed : Nat) (matched : String → Option Nat) :
    Except String Membership :=
  if current.jointVoters.isSome then .error "membership change already in progress"
  else match configuration voters learners with
    | .error e => .error e
    | .ok next =>
      if 18 < (current.voters ++ next.voters ++ next.learners).dedup.length then
        .error "joint membership exceeds peer capacity"
      else match checkVoters current committed matched next.voters with
        | .error e => .error e
        | .ok () => .ok next

namespace Cluster

/-! ## Stopping -/

def drain (pending : Table String Pending) (code : Code) : Multiset Reply :=
  pending.entries.map (fun p => .client p.1 ((Error.new code).reply p.2.id))

def fail (c : Cluster σ) (fault : Fault) : Cluster σ × Multiset Reply :=
  ({ c with error := some fault, running := false, pending := ∅ }, drain c.pending .fetchFailed)

variable (C : Crates) (K : Consensus σ)

/-! ## Outputs -/

/-- A cluster on its way through the outputs of a step: the answers so far, and the fault that ends it. -/
structure Pass (σ : Type) where
  cluster : Cluster σ
  replies : Multiset Reply
  fault : Option Fault

def Pass.next (p : Pass σ) (f : Cluster σ → Multiset Reply → Pass σ) : Pass σ :=
  match p.fault with
  | some _ => p
  | none => f p.cluster p.replies

def barrier (c : Cluster σ) (env : Env) (outputs : List Output) : Pass σ × List Output := if outputs.contains .becameLeader then
    match c.engine.step K (.clientPropose (Command.readBarrier env.ticket).payload) with
    | (engine, .ok more) => (⟨{ c with engine := engine }, 0, none⟩, outputs ++ more)
    | (engine, .error error) => (⟨{ c with engine := engine }, 0, some (.refused error)⟩, outputs)
  else (⟨c, 0, none⟩, outputs)

def install (env : Env) : List Output → Cluster σ → Multiset Reply → Pass σ
  | [], c, replies => ⟨c, replies, none⟩
  | .installSnapshot snapshot :: outputs, c, replies =>
    match State.decode C snapshot.data applySlots with
    | .ok state =>
      if state.heads.all (fun _ h => env.has h) && state.previous.all (fun _ h => env.has h) then
        install env outputs { c with state := state } replies
      else ⟨c, replies, some .snapshotGeneration⟩
    | .error _ => ⟨c, replies, some .snapshotGeneration⟩
  | _ :: outputs, c, replies => install env outputs c replies

def applyEntry (env : Env) (entry : LogEntry) (c : Cluster σ) (replies : Multiset Reply) : Pass σ :=
  match entry.command.content with
  | .membership _ =>
    match c.engine.markApplied entry.index with
    | (engine, .ok ()) => ⟨{ c with engine := engine }, replies, none⟩
    | (engine, .error error) => ⟨{ c with engine := engine }, replies, some (.markApplied error)⟩
  | .unreadable => ⟨c, replies, some .unreadableCommand⟩
  | .command command =>
    if (commandHeads command).any (fun h => !env.has h) then ⟨c, replies, some .generationUnavailable⟩
    else
      let waiting := c.pending.get command.ticket
      let (state, response) := c.state.apply C command ((waiting.map Pending.id).getD "") applySlots
      let c := { c with state := state, pending := c.pending.erase command.ticket }
      match c.engine.markApplied entry.index with
      | (engine, .ok ()) =>
        ⟨{ c with engine := engine }, if waiting.isSome then .client command.ticket response ::ₘ replies else replies, none⟩
      | (engine, .error error) => ⟨{ c with engine := engine }, replies, some (.markApplied error)⟩

def applyEntries (env : Env) : List LogEntry → Cluster σ → Multiset Reply → Pass σ
  | [], c, replies => ⟨c, replies, none⟩
  | entry :: entries, c, replies => (applyEntry C env entry c replies).next (applyEntries env entries)

def unapplied (c : Cluster σ) : List LogEntry :=
  c.engine.log.filter (fun e => decide (c.engine.applied < e.index) && decide (e.index ≤ c.engine.commitIndex))

/-- `Cluster::collect`: what it reads can be read, and the archive is collected. -/
def collects (c : Cluster σ) (env : Env) : Bool := (match c.engine.snapshot with
    | none => true
    | some snapshot => isOk (State.decode C snapshot.data applySlots))
    && c.engine.log.all (fun e => e.command.content != .unreadable) && env.collects

def compaction (env : Env) (c : Cluster σ) (replies : Multiset Reply) : Pass σ :=
  if (c.engine.needsCompaction || env.archiveFull) = true ∧ c.engine.applied = c.engine.commitIndex
      ∧ (c.engine.snapshot.map RaftSnapshot.lastIncludedIndex).getD 0 < c.engine.commitIndex then
    match c.state.encode (env.walk c.state) with
    | .error e => ⟨c, replies, some (.encode e)⟩
    | .ok bytes =>
      match c.engine.compact K bytes with
      | (engine, .error error) => ⟨{ c with engine := engine }, replies, some (.compact error)⟩
      | (engine, .ok ()) =>
        let c := { c with engine := engine }
        if c.collects C env then ⟨c, replies, none⟩ else ⟨c, replies, some .collect⟩
  else ⟨c, replies, none⟩

def fitAppend (env : Env) (term : Nat) (leader : String) (prevIndex prevTerm : Nat) (entries : List LogEntry)
    (commit : Nat) : Nat → Option RaftMessage
  | 0 =>
    let msg := .appendEntries term leader prevIndex prevTerm (entries.take 1) (min commit (prevIndex + 1))
    if env.encodes msg then some msg else none
  | n + 1 =>
    let batch := entries.take (n + 2)
    let msg := .appendEntries term leader prevIndex prevTerm batch (min commit (prevIndex + batch.length))
    if env.encodes msg then some msg else fitAppend env term leader prevIndex prevTerm entries commit n

def fitMessage (env : Env) : RaftMessage → Option RaftMessage
  | .appendEntries term leader prevIndex prevTerm [] commit =>
    let msg := .appendEntries term leader prevIndex prevTerm [] (min commit prevIndex)
    if env.encodes msg then some msg else none
  | .appendEntries term leader prevIndex prevTerm entries commit =>
    fitAppend env term leader prevIndex prevTerm entries commit ((entries.take 8).length - 1)
  | msg => if env.encodes msg then some msg else none

def send (env : Env) : List Output → Cluster σ → Multiset Reply → Pass σ
  | [], c, replies => ⟨c, replies, none⟩
  | .sendMessage recipient (.installSnapshot term _ snapshot) :: outputs, c, replies =>
    let snapshot := c.engine.snapshot.getD snapshot
    match State.decode C snapshot.data applySlots with
    | .ok _ => if env.offers recipient term snapshot then send env outputs c replies else ⟨c, replies, some .snapshotOffer⟩
    | .error _ => ⟨c, replies, some .snapshotOffer⟩
  | .sendMessage _ msg :: outputs, c, replies =>
    match fitMessage env msg with
    | some _ => send env outputs c replies
    | none => ⟨c, replies, some .wireLimit⟩
  | _ :: outputs, c, replies => send env outputs c replies

def settleMembership (outputs : List Output) (c : Cluster σ) (replies : Multiset Reply) : Cluster σ × Multiset Reply :=
  match c.membershipPending with
  | none => (c, replies)
  | some target =>
    if K.committedMembership c.engine.raft = target then
      ({ c with membershipPending := none }, .membershipAccepted target ::ₘ replies)
    else if outputs.contains .membershipRejected ∨ c.engine.role ≠ .leader then
      ({ c with membershipPending := none }, .membershipRefused "membership_change_rejected" ::ₘ replies)
    else (c, replies)

def settle (outputs : List Output) (c : Cluster σ) (replies : Multiset Reply) : Pass σ :=
  let settled := c.settleMembership K outputs replies
  if settled.1.engine.role ≠ .leader then
    ⟨{ settled.1 with pending := ∅ }, drain settled.1.pending .busy + settled.2, none⟩
  else ⟨settled.1, settled.2, none⟩

/-- `Cluster::outputs`, up to the fault that ends it. -/
def pass (c : Cluster σ) (env : Env) (outputs : List Output) (suppressSend : Bool) : Pass σ :=
  let started := c.barrier K env outputs
  let installed := started.1.next (install C env started.2)
  let applied := installed.next (fun c r => applyEntries C env c.unapplied c r)
  let compacted := applied.next (compaction C K env)
  let sent := compacted.next (send C env (if suppressSend then [] else started.2))
  sent.next (settle K started.2)

def Pass.finish (p : Pass σ) : Cluster σ × Multiset Reply :=
  match p.fault with
  | none => (p.cluster, p.replies)
  | some fault => ((p.cluster.fail fault).1, p.replies + (p.cluster.fail fault).2)

def outputs (c : Cluster σ) (env : Env) (outputs : List Output) (suppressSend : Bool) : Cluster σ × Multiset Reply :=
  (c.pass C K env outputs suppressSend).finish

/-! ## Inputs -/

def event (c : Cluster σ) (env : Env) (event : Event) (suppressSend : Bool) : Cluster σ × Multiset Reply :=
  if c.error.isSome then (c, 0)
  else match c.engine.step K event with
    | (engine, .ok outputs) => Cluster.outputs C K { c with engine := engine } env outputs suppressSend
    | (engine, .error error) =>
      let c := { c with engine := engine }
      if engine.stopped then c.fail (.event error) else (c, 0)

def retain (c : Cluster σ) : Cluster σ := { c with pending := c.pending.filter (fun _ p => p.waiting) }

/-- The append-entries request that would carry a command, with which the wire is tried. -/
def probe (c : Cluster σ) (command : Command) (term : Nat) : RaftMessage :=
  let last := c.engine.log.getLast?
  let prevIndex := (last.map LogEntry.index).getD ((c.engine.snapshot.map RaftSnapshot.lastIncludedIndex).getD 0)
  let prevTerm := (last.map LogEntry.term).getD ((c.engine.snapshot.map RaftSnapshot.lastIncludedTerm).getD 0)
  .appendEntries term c.engine.raft.id prevIndex prevTerm [⟨term, prevIndex + 1, command.payload⟩] c.engine.commitIndex

def proposable (c : Cluster σ) (env : Env) (command : Command) (term : Nat) : Bool :=
  decide (c.error = none) && decide (c.engine.role = .leader) && decide (c.engine.currentTerm = term)
    && decide (c.retain.pending.size < maxRequests) && env.encodes (c.probe command term)

def proposal (c : Cluster σ) (env : Env) (command : Command) (term : Nat) (id : String) : Cluster σ × Multiset Reply :=
  let c := c.retain
  if c.error.isSome ∨ c.engine.role ≠ .leader ∨ c.engine.currentTerm ≠ term ∨ maxRequests ≤ c.pending.size then
    (c, {.client command.ticket ((Error.new .busy).reply id)})
  else if env.encodes (c.probe command term) = false then
    (c, {.client command.ticket ((Error.new .tooLarge).reply id)})
  else
    let c := { c with pending := c.pending.insert command.ticket ⟨id, true⟩ }
    match c.engine.step K (.clientPropose command.payload) with
    | (engine, .ok outputs) => Cluster.outputs C K { c with engine := engine } env outputs false
    | (engine, .error error) =>
      let stopped := fail { c with engine := engine, pending := c.pending.erase command.ticket } (.refused error)
      (stopped.1, .client command.ticket ((Error.new .busy).reply id) ::ₘ stopped.2)

def target (c : Cluster σ) (voters learners : List String) : Except String Membership :=
  let current := c.engine.raft.membership
  changeTo current voters learners c.engine.commitIndex
    (fun id => if current.peers.contains id then some (K.matchedIndex c.engine.raft id) else none)

/-- `Inbound::Membership` -/
def changeMembership (c : Cluster σ) (env : Env) (voters learners : List String) : Cluster σ × Multiset Reply :=
  if c.engine.role ≠ .leader ∨ c.membershipPending.isSome then (c, {.membershipRefused "not_leader_or_busy"})
  else match c.target K voters learners with
    | .error e => (c, {.membershipRefused e})
    | .ok target =>
      let c := { c with membershipPending := some target }
      match c.engine.step K (.changeMembership target.voters target.learners) with
      | (engine, .ok outputs) => Cluster.outputs C K { c with engine := engine } env outputs false
      | (engine, .error error) => fail { c with engine := engine } (.refused error)

inductive Input where
  | propose (command : Command) (term : Nat) (id : String)
  | membership (voters learners : List String)
  | event (event : Event) (suppressSend : Bool)
  | maintain
  /-- a request stopped waiting -/
  | gone (ticket : String)

def handle (c : Cluster σ) (env : Env) (input : Input) : Cluster σ × Multiset Reply :=
  if c.running = false then (c, 0)
  else match input with
    | .propose command term id => c.proposal C K env command term id
    | .membership voters learners => c.changeMembership C K env voters learners
    | .event event suppressSend => c.event C K env event suppressSend
    | .maintain => if c.collects C env then (c, 0) else c.fail .collect
    | .gone ticket =>
      match c.pending.get ticket with
      | none => (c, 0)
      | some p => ({ c with pending := c.pending.insert ticket { p with waiting := false } }, 0)

/-! ## A node for concrete runs -/

/-- Some order for every state. -/
noncomputable def someWalk (s : State) : Iteration s :=
  ⟨s.heads.entries.toList, s.previous.entries.toList, s.deleted.entries.toList, Multiset.coe_toList _,
    Multiset.coe_toList _, Multiset.coe_toList _⟩

abbrev nonce (n : Nat) : String := hexPad 28 n

/-- A node none of whose answers is in the way. -/
noncomputable def easyEnv (n : Nat) : Env where
  ticket := nonce n
  ticket_hex := hexString_hexPad 28 n
  has := fun _ => true
  archiveFull := false
  collects := true
  walk := someWalk
  offers := fun _ _ _ => true
  encodes := fun _ => true

def opened (engine : Engine Unit) : Cluster Unit := ⟨engine, State.default, ∅, none, none, true⟩

end Cluster
end Mistl.Escrow
