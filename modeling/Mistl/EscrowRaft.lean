import Mistl.EscrowSnapshot
/-!
# EscrowRaft — the values of the consensus library and the storage behind it

The types of `mistlib-consensus-core` as far as the escrow service reads them, and `Storage` of
`escrow/replication/engine.rs`.  The library's own transition function is a parameter (`Consensus`).  The bytes of a log
entry are kept as what they decode to, beside their number.
-/
namespace Mistl.Escrow

/-! ## Commands in the log -/

def Delete.toJson (d : Delete) : Json := .obj [("slot", .str d.slot), ("seq", .int d.seq), ("head", .str d.head), ("sig", .str d.sig)]

/-- A command under its tag `op`. -/
def Command.toJson : Command → Json
  | .readBarrier t => .obj [("op", .str "read_barrier"), ("ticket", .str t)]
  | .put t head => .obj [("op", .str "put"), ("ticket", .str t), ("head", head.toJson)]
  | .delete t request => .obj [("op", .str "delete"), ("ticket", .str t), ("request", request.toJson)]
  | .bootstrap t heads => .obj [("op", .str "bootstrap"), ("ticket", .str t), ("heads", .arr (heads.map Head.toJson))]
  | .bootstrapBegin t => .obj [("op", .str "bootstrap_begin"), ("ticket", .str t)]
  | .bootstrapComplete t => .obj [("op", .str "bootstrap_complete"), ("ticket", .str t)]

structure Membership where
  voters : List String
  jointVoters : Option (List String)
  learners : List String
  deriving DecidableEq

def Membership.peers (m : Membership) : List String := (m.voters ++ m.jointVoters.getD [] ++ m.learners).dedup

/-- What the bytes of an entry decode to: `decode_membership`, a command, or neither. -/
inductive Content where
  | membership (m : Membership)
  | command (c : Command)
  | unreadable
  deriving DecidableEq

structure Payload where
  content : Content
  size : Nat
  deriving DecidableEq

/-- `serde_json::to_vec(&command)` -/
def Command.payload (c : Command) : Payload := ⟨.command c, c.toJson.size⟩

def Payload.heads (p : Payload) : List Head :=
  match p.content with
  | .command c => commandHeads c
  | _ => []

structure LogEntry where
  term : Nat
  index : Nat
  command : Payload
  deriving DecidableEq

structure RaftSnapshot where
  lastIncludedIndex : Nat
  lastIncludedTerm : Nat
  data : List UInt8
  membership : Option Membership
  deriving DecidableEq

inductive RaftMessage where
  | requestVote (term : Nat) (candidateId : String) (lastLogIndex lastLogTerm : Nat)
  | requestVoteResponse (term : Nat) (voterId : String) (granted : Bool)
  | appendEntries (term : Nat) (leaderId : String) (prevLogIndex prevLogTerm : Nat) (entries : List LogEntry)
      (leaderCommit : Nat)
  | appendEntriesResponse (term : Nat) (followerId : String) (success : Bool) (matchIndex : Nat)
  | appendEntriesConflict (term : Nat) (followerId : String)
  | installSnapshot (term : Nat) (leaderId : String) (snapshot : RaftSnapshot)
  | installSnapshotResponse (term : Nat) (followerId : String) (success : Bool) (lastIncludedIndex : Nat)
  deriving DecidableEq

def RaftMessage.term : RaftMessage → Nat
  | .requestVote t .. | .requestVoteResponse t .. | .appendEntries t .. | .appendEntriesResponse t ..
  | .appendEntriesConflict t .. | .installSnapshot t .. | .installSnapshotResponse t .. => t

/-- `message_sender` -/
def RaftMessage.sender : RaftMessage → String
  | .requestVote _ s .. | .requestVoteResponse _ s .. | .appendEntries _ s .. | .appendEntriesResponse _ s ..
  | .appendEntriesConflict _ s .. | .installSnapshot _ s .. | .installSnapshotResponse _ s .. => s

inductive Event where
  | addPeer (peer : String)
  | removePeer (peer : String)
  | addLearner (peer : String)
  | changeMembership (voters learners : List String)
  | clientPropose (command : Payload)
  | electionTimeout
  | heartbeatTimeout
  | message (sender : String) (msg : RaftMessage)
  | compactSnapshot (index : Nat) (data : List UInt8)

inductive Output where
  | resetElectionTimer
  | resetHeartbeatTimer
  | sendMessage (recipient : String) (msg : RaftMessage)
  | becameLeader
  | proposed (index : Nat)
  | installSnapshot (snapshot : RaftSnapshot)
  | snapshotCompacted (index : Nat)
  | membershipRejected
  deriving DecidableEq

inductive Role where
  | follower | candidate | leader
  deriving DecidableEq

/-! ## Storage -/

structure Storage where
  term : Nat
  vote : Option String
  log : List LogEntry
  committed : Nat
  snapshot : Option RaftSnapshot
  dirty : Bool

def Storage.base (s : Storage) : Nat := (s.snapshot.map RaftSnapshot.lastIncludedIndex).getD 0

def Storage.entry (s : Storage) (index : Nat) : Option LogEntry := if index < s.base + 1 then none else s.log[index - (s.base + 1)]?

def Storage.lastLogIndex (s : Storage) : Nat := (s.log.getLast?.map LogEntry.index).getD s.base

def Storage.termAt (s : Storage) (index : Nat) : Option Nat :=
  match s.snapshot with
  | some snapshot =>
    if index = snapshot.lastIncludedIndex then some snapshot.lastIncludedTerm
    else if index < snapshot.lastIncludedIndex then none
    else if index = 0 then some 0 else (s.entry index).map LogEntry.term
  | none => if index = 0 then some 0 else (s.entry index).map LogEntry.term

/-- `RaftState`: the fields the service reads, and the library's own. -/
structure RaftState (σ : Type) where
  id : String
  storage : Storage
  role : Role
  commitIndex : Nat
  leaderId : Option String
  membership : Membership
  own : σ

structure Consensus (σ : Type) where
  step : RaftState σ → Event → RaftState σ × List Output
  acceptsPeer : RaftState σ → String → Bool
  committedMembership : RaftState σ → Membership
  matchedIndex : RaftState σ → String → Nat

end Mistl.Escrow
