import Mistl.EscrowRaft
/-!
# EscrowEngine — the durable engine around the consensus library

`escrow/replication/engine.rs`: which events reach the library, and that its state is durable before anything else is
done with it.
-/
namespace Mistl.Escrow

def maxCommandBytes : Nat := 16 * 1024

def maxEntries : Nat := 1024

inductive EngineError where
  | stopped | logFull | oversizedCommand | termExhausted | unknownVoter | senderMismatch | prefixBounds | oversizedLog | entry
  | termOrder | committedConflict | acknowledgement | candidateLog | snapshot | snapshotMembership | emptyVoters
  | jointMembership | snapshotAcknowledgement | persist | applicationCursor | oversizedSnapshot | unapplied | rejected
  deriving DecidableEq

structure Engine (σ : Type) where
  raft : RaftState σ
  applied : Nat
  savedCommit : Nat
  stopped : Bool
  acknowledged : Table String Nat
  disk : List Bool

variable {σ : Type}

variable {event : Event}

namespace Engine

def log (e : Engine σ) : List LogEntry := e.raft.storage.log
def currentTerm (e : Engine σ) : Nat := e.raft.storage.term
def commitIndex (e : Engine σ) : Nat := e.raft.commitIndex
def role (e : Engine σ) : Role := if e.stopped then .follower else e.raft.role
def snapshot (e : Engine σ) : Option RaftSnapshot := if e.stopped then none else e.raft.storage.snapshot
def needsCompaction (e : Engine σ) : Bool := decide (128 ≤ e.log.length) && decide (e.raft.storage.base < e.applied)

/-! ## Checks -/

def checkEntries : List LogEntry → (index priorTerm term : Nat) → Except EngineError Unit
  | [], _, _, _ => .ok ()
  | e :: entries, index, priorTerm, term =>
    if e.index = index ∧ 0 < e.term ∧ e.term ≤ term ∧ priorTerm ≤ e.term ∧ e.command.size ≤ maxCommandBytes then
      checkEntries entries (index + 1) e.term term
    else .error .entry

def validateEntries (entries : List LogEntry) (previous term : Nat) : Except EngineError Unit :=
  if maxEntries < entries.length ∨ u64Max - entries.length ≤ previous then .error .oversizedLog
  else checkEntries entries (previous + 1) 0 term

def validIds (ids : List String) : Bool :=
  decide (ids.length ≤ 64) && ids.all (fun id => id.utf8ByteSize != 0 && decide (id.utf8ByteSize ≤ 128))
    && decide ids.Nodup

def validateSnapshot (snapshot : RaftSnapshot) (term : Nat) : Except EngineError Unit :=
  if snapshot.lastIncludedIndex = 0 ∨ u64Max ≤ snapshot.lastIncludedIndex ∨ snapshot.lastIncludedTerm = 0
      ∨ term < snapshot.lastIncludedTerm ∨ snapshotBytes < snapshot.data.length then .error .snapshot
  else match snapshot.membership with
    | none => .ok ()
    | some m =>
      if (validIds m.voters && validIds m.learners) = false then .error .snapshotMembership
      else if m.voters = [] then .error .emptyVoters
      else if (m.jointVoters.any (fun ids => ids.isEmpty || !validIds ids)) = true then .error .jointMembership
      else .ok ()

def admitAppend (e : Engine σ) (term : Nat) (prevLogIndex prevLogTerm : Nat) (entries : List LogEntry) : Except EngineError Nat :=
  if u64Max ≤ prevLogIndex ∨ term < prevLogTerm then .error .prefixBounds
  else match validateEntries entries prevLogIndex term with
    | .error error => .error error
    | .ok () =>
      if (entries.head?.any (fun entry => decide (entry.term < prevLogTerm))) = true then .error .termOrder
      else
        let end_ := prevLogIndex + entries.length
        if maxEntries < end_ - e.raft.storage.base ∧ e.raft.storage.base ≤ prevLogIndex then .error .logFull
        else if e.currentTerm ≤ term ∧ e.raft.storage.termAt prevLogIndex = some prevLogTerm ∧
            ((entries.filter (fun entry => decide (entry.index ≤ e.commitIndex))).any
              (fun entry => decide (e.raft.storage.entry entry.index ≠ some entry))) = true then
          .error .committedConflict
        else .ok end_

variable (K : Consensus σ)

/-- What `Engine::step` lets through: the event as the library gets it, the acknowledgements and the end of an appended
batch. -/
def admitEvent (e : Engine σ) (event : Event) : Except EngineError (Event × Table String Nat × Option Nat) :=
  let plain := Except.ok (event, e.acknowledged, none)
  match event with
  | .addPeer _ | .removePeer _ | .addLearner _ | .changeMembership _ _ =>
    if e.log.length < maxEntries - 1 then plain else .error .logFull
  | .clientPropose command =>
    if maxCommandBytes < command.size then .error .oversizedCommand
    else if e.log.length < maxEntries then plain else .error .logFull
  | .electionTimeout => if e.currentTerm < u64Max - 1 then plain else .error .termExhausted
  | .message sender msg =>
    if sender = e.raft.id ∨ K.acceptsPeer e.raft sender = false then .error .unknownVoter
    else if msg.sender ≠ sender then .error .senderMismatch
    else if u64Max ≤ msg.term then .error .termExhausted
    else match msg with
      | .appendEntries term leader prevLogIndex prevLogTerm entries leaderCommit =>
        match e.admitAppend term prevLogIndex prevLogTerm entries with
        | .error error => .error error
        | .ok end_ =>
          .ok (.message sender (.appendEntries term leader prevLogIndex prevLogTerm entries (min leaderCommit end_)),
            e.acknowledged, some end_)
      | .appendEntriesResponse term follower true matchIndex =>
        if e.raft.storage.lastLogIndex < matchIndex then .error .acknowledgement
        else if term = e.currentTerm ∧ e.role = .leader then
          let acknowledged := max ((e.acknowledged.get sender).getD 0) matchIndex
          .ok (.message sender (.appendEntriesResponse term follower true acknowledged),
            e.acknowledged.insert sender acknowledged, none)
        else plain
      | .requestVote term _ lastLogIndex lastLogTerm =>
        if u64Max ≤ lastLogIndex ∨ term < lastLogTerm then .error .candidateLog else plain
      | .installSnapshot term _ snapshot =>
        match validateSnapshot snapshot term with
        | .error error => .error error
        | .ok () => plain
      | .installSnapshotResponse _ _ true lastIncludedIndex =>
        if e.raft.storage.lastLogIndex < lastIncludedIndex then .error .snapshotAcknowledgement else plain
      | _ => plain
  | .heartbeatTimeout | .compactSnapshot _ _ => plain

def confirm (end_ : Option Nat) : Output → Output
  | .sendMessage to_ (.appendEntriesResponse term follower true matchIndex) =>
    .sendMessage to_ (.appendEntriesResponse term follower true (end_.getD matchIndex))
  | output => output

def appliedAfter (applied : Nat) (outputs : List Output) : Nat := outputs.foldl (fun n output => match output with
    | .installSnapshot snapshot => max n snapshot.lastIncludedIndex
    | _ => n) applied

def persist (e : Engine σ) : Engine σ × Except EngineError Unit :=
  let saved := { e.raft with storage := { e.raft.storage with dirty := false } }
  match e.disk with
  | false :: disk => ({ e with disk := disk, stopped := true }, .error .persist)
  | true :: disk => ({ e with disk := disk, raft := saved, savedCommit := e.commitIndex }, .ok ())
  | [] => ({ e with raft := saved, savedCommit := e.commitIndex }, .ok ())

def advance (e : Engine σ) (event : Event) (acknowledged : Table String Nat) (end_ : Option Nat) : Engine σ × List Output :=
  let start := { e.raft with storage := { e.raft.storage with committed := e.commitIndex } }
  let (raft, outputs) := K.step start event
  let changed := decide (raft.storage.term ≠ e.currentTerm) || decide (raft.role ≠ e.raft.role)
  ({ e with
      raft := { raft with storage := { raft.storage with committed := raft.commitIndex } },
      acknowledged := if changed then ∅ else acknowledged,
      applied := appliedAfter e.applied (outputs.map (confirm end_)) },
    outputs.map (confirm end_))

def save (e : Engine σ) (outputs : List Output) : Engine σ × Except EngineError (List Output) :=
  if e.raft.storage.dirty = true ∨ e.savedCommit ≠ e.commitIndex then
    match e.persist with
    | (e, .ok ()) => (e, .ok outputs)
    | (e, .error error) => (e, .error error)
  else (e, .ok outputs)

def step (e : Engine σ) (event : Event) : Engine σ × Except EngineError (List Output) :=
  if e.stopped then (e, .error .stopped)
  else match e.admitEvent K event with
    | .error error => (e, .error error)
    | .ok (event, acknowledged, end_) =>
      let next := e.advance K event acknowledged end_
      next.1.save next.2

def markApplied (e : Engine σ) (index : Nat) : Engine σ × Except EngineError Unit :=
  if e.stopped then (e, .error .stopped)
  else if index = e.applied then (e, .ok ())
  else if index = e.applied + 1 ∧ index ≤ e.commitIndex then { e with applied := index }.persist
  else (e, .error .applicationCursor)

def compact (e : Engine σ) (data : List UInt8) : Engine σ × Except EngineError Unit :=
  if e.stopped then (e, .error .stopped)
  else if snapshotBytes < data.length then (e, .error .oversizedSnapshot)
  else if e.applied ≠ e.commitIndex then (e, .error .unapplied)
  else if e.applied = e.raft.storage.base then (e, .ok ())
  else match e.step K (.compactSnapshot e.applied data) with
    | (next, .error error) => (next, .error error)
    | (next, .ok outputs) =>
      if outputs.any (fun o => match o with | .snapshotCompacted _ => true | _ => false) then (next, .ok ())
      else (next, .error .rejected)

/-! ## What a step can answer -/

variable {K} {e : Engine σ}

theorem persist_cases : (∃ disk, e.persist = ({ e with disk := disk, stopped := true }, .error .persist)) ∨
    ∃ next, e.persist = (next, .ok ()) ∧ next.stopped = e.stopped ∧ next.log = e.log ∧ next.currentTerm = e.currentTerm := by
  unfold persist
  cases e.disk with
  | nil => exact .inr ⟨_, rfl, rfl, rfl, rfl⟩
  | cons ok disk =>
    cases ok with
    | false => exact .inl ⟨disk, rfl⟩
    | true => exact .inr ⟨_, rfl, rfl, rfl, rfl⟩

theorem save_cases (outputs : List Output) : (∃ next error, e.save outputs = (next, .error error) ∧
      next.stopped = true ∧ next.log = e.log ∧ next.currentTerm = e.currentTerm) ∨
    ∃ next, e.save outputs = (next, .ok outputs) ∧ next.stopped = e.stopped ∧ next.log = e.log ∧ next.currentTerm = e.currentTerm := by
  unfold save
  split
  · rcases persist_cases (e := e) with ⟨disk, h⟩ | ⟨next, h, hl⟩
    · rw [h]
      exact .inl ⟨_, _, rfl, rfl, rfl, rfl⟩
    · rw [h]
      exact .inr ⟨next, rfl, hl⟩
  · exact .inr ⟨e, rfl, rfl, rfl, rfl⟩

/-- **What a step can do**: refuse, and leave the engine; or let the library advance, and then fail to write it down or
return its outputs. -/
theorem step_cases (K : Consensus σ) (e : Engine σ) (event : Event) : (e.stopped = true ∧ e.step K event = (e, .error .stopped)) ∨
    (e.stopped = false ∧ ∃ error, e.admitEvent K event = .error error ∧ e.step K event = (e, .error error)) ∨
    (e.stopped = false ∧ ∃ event' acknowledged end_ next, e.admitEvent K event = .ok (event', acknowledged, end_) ∧
      next.log = (e.advance K event' acknowledged end_).1.log ∧
      next.currentTerm = (e.advance K event' acknowledged end_).1.currentTerm ∧
      ((∃ error, e.step K event = (next, .error error) ∧ next.stopped = true) ∨
        (e.step K event = (next, .ok (e.advance K event' acknowledged end_).2) ∧ next.stopped = false))) := by
  unfold step
  cases hst : e.stopped with
  | true => exact .inl ⟨rfl, rfl⟩
  | false =>
    refine .inr ?_
    cases ha : e.admitEvent K event with
    | error error => exact .inl ⟨rfl, error, rfl, rfl⟩
    | ok admitted =>
      obtain ⟨event', acknowledged, end_⟩ := admitted
      refine .inr ⟨rfl, event', acknowledged, end_, ?_⟩
      rcases save_cases (e := (e.advance K event' acknowledged end_).1) (e.advance K event' acknowledged end_).2 with
        ⟨next, error, h, hs, hl, ht⟩ | ⟨next, h, hs, hl, ht⟩
      · exact ⟨next, rfl, hl, ht, .inl ⟨error, h, hs⟩⟩
      · exact ⟨next, rfl, hl, ht, .inr ⟨h, hs.trans hst⟩⟩

theorem step_refused {error : EngineError} (h : (e.step K event).2 = .error error)
    (hs : (e.step K event).1.stopped = false) :
    e.stopped = false ∧ e.admitEvent K event = .error error ∧ (e.step K event).1 = e := by
  rcases step_cases K e event with ⟨hst, he⟩ | ⟨hst, x, ha, he⟩ | ⟨hst, _, _, _, next, ha, -, -, ⟨x, he, hx⟩ | ⟨he, -⟩⟩
  · rw [he, hst] at hs
    cases hs
  · rw [he] at h ⊢
    cases h
    exact ⟨hst, ha, rfl⟩
  · rw [he, hx] at hs
    cases hs
  · rw [he] at h
    cases h

theorem step_of_admitEvent {error : EngineError} (hst : e.stopped = false)
    (ha : e.admitEvent K event = .error error) : e.step K event = (e, .error error) := by
  rw [step, hst, ha]
  rfl

theorem becameLeader_mem {end_ : Option Nat} {sent : List Output} :
    Output.becameLeader ∈ sent.map (confirm end_) ↔ Output.becameLeader ∈ sent := by
  rw [List.mem_map]
  constructor
  · rintro ⟨output, hm, ho⟩
    unfold confirm at ho
    split at ho
    · cases ho
    · exact ho ▸ hm
  · intro hm
    exact ⟨_, hm, rfl⟩

theorem stopped_of_leader (h : e.role = .leader) : e.stopped = false := by
  unfold role at h
  split at h
  · cases h
  · rename_i hs
    exact Bool.eq_false_iff.2 hs

theorem admit_propose (command : Payload) : (∃ error, e.admitEvent K (.clientPropose command) = .error error) ↔
    ¬ (command.size ≤ maxCommandBytes ∧ e.log.length < maxEntries) := by
  unfold admitEvent
  dsimp only
  split
  · constructor
    · intro _ h
      omega
    · intro _
      exact ⟨_, rfl⟩
  · split
    · constructor
      · rintro ⟨_, h⟩
        cases h
      · intro h
        omega
    · constructor
      · intro _ h
        omega
      · intro _
        exact ⟨_, rfl⟩

theorem admit_membership (voters learners : List String) :
    (∃ error, e.admitEvent K (.changeMembership voters learners) = .error error) ↔ ¬ e.log.length < maxEntries - 1 := by
  unfold admitEvent
  dsimp only
  split
  · constructor
    · rintro ⟨_, h⟩
      cases h
    · intro h
      omega
  · constructor
    · intro _ h
      omega
    · intro _
      exact ⟨_, rfl⟩

end Engine

/-- **How nodes become leaders**: by a timeout or a message, and with the log they have. -/
structure Consensus.Elections (K : Consensus σ) : Prop where
  log : ∀ r event, .becameLeader ∈ (K.step r event).2 → (K.step r event).1.storage.log = r.storage.log
  propose : ∀ r command, .becameLeader ∉ (K.step r (.clientPropose command)).2
  membership : ∀ r voters learners, .becameLeader ∉ (K.step r (.changeMembership voters learners)).2

namespace Engine

variable {K : Consensus σ} {e next : Engine σ} {outputs : List Output}

theorem step_elected (hK : K.Elections) (h : e.step K event = (next, .ok outputs))
    (hl : .becameLeader ∈ outputs) : next.stopped = false ∧ next.log = e.log := by
  rcases step_cases K e event with ⟨-, he⟩ | ⟨-, x, -, he⟩ | ⟨hst, event', ack, end_, n, -, hlog, -, ⟨x, he, -⟩ | ⟨he, hs⟩⟩
  · rw [he] at h; cases h
  · rw [he] at h; cases h
  · rw [he] at h; cases h
  · rw [he] at h
    cases h
    exact ⟨hs, hlog.trans (hK.log _ _ (becameLeader_mem.1 hl))⟩

theorem step_propose_elects (hK : K.Elections) {command : Payload}
    (h : e.step K (.clientPropose command) = (next, .ok outputs)) : .becameLeader ∉ outputs := by
  rcases step_cases K e (.clientPropose command) with
    ⟨-, he⟩ | ⟨-, x, -, he⟩ | ⟨hst, event', ack, end_, n, ha, -, -, ⟨x, he, -⟩ | ⟨he, -⟩⟩
  · rw [he] at h; cases h
  · rw [he] at h; cases h
  · rw [he] at h; cases h
  · rw [he] at h
    cases h
    have hev : event' = .clientPropose command := by
      simp only [admitEvent] at ha
      split at ha
      · cases ha
      · split at ha <;> cases ha
        rfl
    subst hev
    exact fun hm => hK.propose _ command (becameLeader_mem.1 hm)

theorem step_membership_elects (hK : K.Elections) {voters learners : List String}
    (h : e.step K (.changeMembership voters learners) = (next, .ok outputs)) : .becameLeader ∉ outputs := by
  rcases step_cases K e (.changeMembership voters learners) with
    ⟨-, he⟩ | ⟨-, x, -, he⟩ | ⟨hst, event', ack, end_, n, ha, -, -, ⟨x, he, -⟩ | ⟨he, -⟩⟩
  · rw [he] at h; cases h
  · rw [he] at h; cases h
  · rw [he] at h; cases h
  · rw [he] at h
    cases h
    have hev : event' = .changeMembership voters learners := by
      simp only [admitEvent] at ha
      split at ha <;> cases ha
      rfl
    subst hev
    exact fun hm => hK.membership _ voters learners (becameLeader_mem.1 hm)

end Engine

/-! ## A library for concrete runs -/

/-- Elections and proposals of a cluster whose other voters stay silent but for a vote: a lone voter leads and commits at
once, other leaders append and commit nothing. -/
def Consensus.silent : Consensus Unit where
  step := fun r event =>
    let alone := decide (r.membership.voters.length = 1)
    match event with
    | .electionTimeout =>
      let storage := { r.storage with term := r.storage.term + 1, vote := some r.id, dirty := true }
      if alone then ({ r with storage := storage, role := .leader }, [.becameLeader])
      else ({ r with storage := storage, role := .candidate }, [])
    | .message _ (.requestVoteResponse term _ true) =>
      if r.role = .candidate ∧ term = r.storage.term then ({ r with role := .leader }, [.becameLeader]) else (r, [])
    | .clientPropose command =>
      if r.role = .leader then
        let index := r.storage.lastLogIndex + 1
        ({ r with
            storage := { r.storage with log := r.storage.log ++ [⟨r.storage.term, index, command⟩], dirty := true },
            commitIndex := if alone then index else r.commitIndex }, [.proposed index])
      else (r, [])
    | _ => (r, [])
  acceptsPeer := fun r peer => r.membership.peers.contains peer
  committedMembership := fun r => r.membership
  matchedIndex := fun _ _ => 0

theorem Consensus.silent_message (r : RaftState Unit) (sender : String) (msg : RaftMessage) :
    (Consensus.silent.step r (.message sender msg)).1.storage = r.storage := by
  unfold Consensus.silent
  cases msg with
  | requestVoteResponse term voter granted =>
    cases granted with
    | true =>
      dsimp only
      split <;> rfl
    | false => rfl
  | _ => rfl

theorem Consensus.silent_elections : Consensus.silent.Elections where
  log := by
    intro r event h
    cases event with
    | clientPropose command =>
      unfold Consensus.silent at h
      dsimp only at h
      split at h <;> simp at h
    | electionTimeout =>
      unfold Consensus.silent
      dsimp only
      split <;> rfl
    | message sender msg => rw [Consensus.silent_message]
    | _ => rfl
  propose := by
    intro r command h
    unfold Consensus.silent at h
    dsimp only at h
    split at h <;> simp at h
  membership := by
    intro r voters learners h
    simp [Consensus.silent] at h

def Engine.opened (id : String) (voters : List String) : Engine Unit where
  raft :=
    { id := id, storage := ⟨0, none, [], 0, none, false⟩, role := .follower, commitIndex := 0, leaderId := none,
      membership := ⟨voters, none, []⟩, own := () }
  applied := 0
  savedCommit := 0
  stopped := false
  acknowledged := ∅
  disk := []

end Mistl.Escrow
