import Mistl.TunnelConns
/-!
# TunnelStdio — the stdio executor

`tunnel/proxy.rs` and `tunnel/stdio/packet.rs`.  One worker takes the events in turn, from lock section to lock section;
between these the children end and their cleanup tasks go on.  Every claim of `active_peer` has a session number; the logs
are for the statements.  Decisions, the cooldown of a denied peer, spawns and sends are the environment's.
-/
namespace Mistl.Tunnel
namespace Stdio

inductive StreamType where
  | stdin
  | stdout
  | stderr
  deriving DecidableEq

def unwrapPacket : Bytes → StreamType × Bytes
  | [] => (.stdin, [])
  | 1 :: payload => (.stdout, payload)
  | 2 :: payload => (.stderr, payload)
  | _ :: payload => (.stdin, payload)

def maxPendingOpens : Nat := 8

def maxPendingStdinBytes : Nat := 64 * 1024

/-- `PendingOpen`, and the authorization that it waits for -/
structure PendingOpen where
  queued : List Bytes
  queuedBytes : Nat
  auth : Nat
  deriving DecidableEq

/-- An authorization that was started, when, and whether its result has been taken. -/
structure Auth where
  peerId : String
  started : Nat
  answered : Bool
  deriving DecidableEq

/-- The task that waits for a child: not there yet, waiting, past its look at the generation, or done. -/
inductive Cleanup where
  | unborn
  | waiting
  | clearStdin
  | clearActive
  | done
  deriving DecidableEq

/-- A spawned command: its peer and session, whether it runs and whether its kill switch was fired or dropped. -/
structure Child where
  owner : String
  session : Nat
  gen : Nat
  alive : Bool
  killed : Bool
  cleanup : Cleanup
  deriving DecidableEq

inductive Worker where
  | idle
  | message (peerId : String) (data : Bytes)
  | openActive (peerId : String) (data : Bytes)
  | openStdin (peerId : String) (data : Bytes)
  | write (chunks : List Bytes) (sender : String)
  | closeActive (peerId : String)
  | closeStdin
  | closeKill
  | authActive (peerId : String) (queued : List Bytes) (auth : Nat)
  | authStdin (peerId : String) (queued : List Bytes) (auth : Nat)
  | claim (peerId : String) (queued : List Bytes) (auth : Nat)
  | spawn (peerId : String) (queued : List Bytes)
  | failed (peerId : String) (queued : List Bytes)
  | installStdin (child : Nat) (peerId : String) (queued : List Bytes)
  | installKill (child : Nat) (peerId : String) (queued : List Bytes)
  | bump (child : Nat) (peerId : String) (queued : List Bytes)
  deriving DecidableEq

/-- A claim of `active_peer`: when its authorization was started, and the last close of its peer. -/
structure Grant where
  peerId : String
  started : Nat
  lastClose : Option Nat
  deriving DecidableEq

structure Executor where
  activePeer : Option String
  stdinTx : Option Nat
  killTx : Option Nat
  generation : Nat
  pendingOpens : Table String PendingOpen
  worker : Worker
  children : List Child
  auths : List Auth
  session : Nat
  clock : Nat
  lastClose : Table String Nat
  fed : List (Nat × String)
  grants : List Grant
  cleared : List (Nat × Nat)
  deriving DecidableEq

namespace Executor

def initial : Executor := ⟨none, none, none, 0, ∅, .idle, [], [], 0, 0, ∅, [], [], []⟩

/-- The end of `handle_message` for another peer than the session's: its stdin is queued where its open is pending. -/
def queue (x : Executor) (peerId : String) (data : Bytes) : Executor :=
  let packet := unwrapPacket data
  match x.pendingOpens.get peerId with
  | some entry =>
    if packet.1 = .stdin ∧ entry.queuedBytes + packet.2.length ≤ maxPendingStdinBytes then
      { x with
        worker := .idle
        pendingOpens := x.pendingOpens.insert peerId
          { entry with queued := entry.queued ++ [packet.2], queuedBytes := entry.queuedBytes + packet.2.length } }
    else { x with worker := .idle }
  | none => { x with worker := .idle }

/-- The end of `handle_open`: the open is pending, and its authorization started. -/
def insertOpen (x : Executor) (peerId : String) : Executor :=
  if maxPendingOpens ≤ x.pendingOpens.size then x
  else { x with
    pendingOpens := x.pendingOpens.insert peerId ⟨[], 0, x.auths.length⟩
    auths := x.auths ++ [⟨peerId, x.clock, false⟩] }

def grant (x : Executor) (peerId : String) (auth : Nat) : Grant :=
  ⟨peerId, (x.auths[auth]?).elim 0 Auth.started, x.lastClose.get peerId⟩

/-- Who a cleanup takes the `stdin_tx` from. -/
def stdinOwner (x : Executor) : List Nat := (x.stdinTx.bind (fun c => x.children[c]?)).toList.map Child.session

end Executor

/-- `Executor::dispatch` takes an event. -/
inductive Take : Executor → Executor → Prop where
  | message {x : Executor} (peerId : String) (data : Bytes) : x.worker = .idle →
      Take x { x with worker := .message peerId data, clock := x.clock + 1 }
  | opened {x : Executor} : x.worker = .idle → Take x { x with clock := x.clock + 1 }
  | close {x : Executor} (peerId : String) : x.worker = .idle → Take x { x with
        worker := .closeActive peerId
        clock := x.clock + 1
        pendingOpens := x.pendingOpens.erase peerId
        lastClose := x.lastClose.insert peerId x.clock }
  | denied {x : Executor} {k : Nat} {a : Auth} : x.worker = .idle → x.auths[k]? = some a → a.answered = false → Take x { x with
        clock := x.clock + 1
        pendingOpens := x.pendingOpens.erase a.peerId
        auths := x.auths.set k { a with answered := true } }
  | withdrawn {x : Executor} {k : Nat} {a : Auth} : x.worker = .idle → x.auths[k]? = some a → a.answered = false →
      x.pendingOpens.get a.peerId = none →
      Take x { x with clock := x.clock + 1, auths := x.auths.set k { a with answered := true } }

/-- `Executor::dispatch` takes an allow result, of the `k`th authorization. -/
inductive TakeAllowed (k : Nat) : Executor → Executor → Prop where
  | pending {x : Executor} {a : Auth} {entry : PendingOpen} : x.worker = .idle → x.auths[k]? = some a →
      a.answered = false → x.pendingOpens.get a.peerId = some entry →
      TakeAllowed k x { x with
        worker := .authActive a.peerId entry.queued k
        clock := x.clock + 1
        pendingOpens := x.pendingOpens.erase a.peerId
        auths := x.auths.set k { a with answered := true } }

/-- A lock section of the worker that leaves the session alone. -/
inductive Read (gate : Bool) : Executor → Executor → Prop where
  | own {x : Executor} {peerId : String} {data : Bytes} : x.worker = .message peerId data → x.activePeer = some peerId →
      Read gate x { x with
        worker := if (unwrapPacket data).1 = .stdin then .write [(unwrapPacket data).2] peerId else .idle }
  | other {x : Executor} {peerId : String} {data : Bytes} : x.worker = .message peerId data →
      x.activePeer ≠ some peerId → Read gate x (x.queue peerId data)
  | opening {x : Executor} {peerId : String} {data : Bytes} : x.worker = .message peerId data →
      x.activePeer ≠ some peerId → gate = true → x.pendingOpens.get peerId = none →
      Read gate x { x with worker := .openActive peerId data }
  | openBusy {x : Executor} {peerId : String} {data : Bytes} :
      (x.worker = .openActive peerId data ∧ x.activePeer ≠ none) ∨ (x.worker = .openStdin peerId data ∧ x.stdinTx ≠ none) →
      Read gate x (x.queue peerId data)
  | openFree {x : Executor} {peerId : String} {data : Bytes} : x.worker = .openActive peerId data → x.activePeer = none →
      Read gate x { x with worker := .openStdin peerId data }
  | insertOpen {x : Executor} {peerId : String} {data : Bytes} : x.worker = .openStdin peerId data → x.stdinTx = none →
      Read gate x ((x.insertOpen peerId).queue peerId data)
  | wrote {x : Executor} {sender : String} : x.worker = .write [] sender → Read gate x { x with worker := .idle }
  | dropped {x : Executor} {chunk : Bytes} {chunks : List Bytes} {sender : String} :
      x.worker = .write (chunk :: chunks) sender → Read gate x { x with worker := .write chunks sender }
  | write {x : Executor} {chunk : Bytes} {chunks : List Bytes} {sender : String} {c : Nat} :
      x.worker = .write (chunk :: chunks) sender → x.stdinTx = some c →
      Read gate x { x with worker := .write chunks sender, fed := x.fed ++ [(c, sender)] }
  | notActive {x : Executor} {peerId : String} : x.worker = .closeActive peerId → x.activePeer ≠ some peerId →
      Read gate x { x with worker := .idle }
  | authBusy {x : Executor} {peerId : String} {queued : List Bytes} {k : Nat} :
      (x.worker = .authActive peerId queued k ∧ x.activePeer ≠ none) ∨
        (x.worker = .authStdin peerId queued k ∧ x.stdinTx ≠ none) → Read gate x { x with worker := .idle }
  | authFree {x : Executor} {peerId : String} {queued : List Bytes} {k : Nat} : x.worker = .authActive peerId queued k →
      x.activePeer = none → Read gate x { x with worker := .authStdin peerId queued k }
  | claiming {x : Executor} {peerId : String} {queued : List Bytes} {k : Nat} : x.worker = .authStdin peerId queued k →
      x.stdinTx = none → Read gate x { x with worker := .claim peerId queued k }

/-- A lock section of the worker that begins or ends a session, and the start of a command. -/
inductive Write (command : List String) : Executor → Executor → Prop where
  | closeActive {x : Executor} {peerId : String} : x.worker = .closeActive peerId → x.activePeer = some peerId →
      Write command x { x with worker := .closeStdin, activePeer := none }
  | closeStdin {x : Executor} : x.worker = .closeStdin → Write command x { x with worker := .closeKill, stdinTx := none }
  | closeKill {x : Executor} : x.worker = .closeKill → Write command x { x with
        worker := .idle
        killTx := none
        children := x.killTx.elim x.children (fun c => x.children.modify c (fun d => { d with killed := true })) }
  | claim {x : Executor} {peerId : String} {queued : List Bytes} {k : Nat} : x.worker = .claim peerId queued k →
      Write command x { x with
        worker := .spawn peerId queued
        activePeer := some peerId
        session := x.session + 1
        grants := x.grants ++ [x.grant peerId k] }
  | empty {x : Executor} {peerId : String} {queued : List Bytes} : x.worker = .spawn peerId queued → command = [] →
      Write command x { x with worker := .write queued peerId }
  | notSpawned {x : Executor} {peerId : String} {queued : List Bytes} : x.worker = .spawn peerId queued → command ≠ [] →
      Write command x { x with worker := .failed peerId queued }
  | failed {x : Executor} {peerId : String} {queued : List Bytes} : x.worker = .failed peerId queued →
      Write command x { x with worker := .write queued peerId, activePeer := none }
  | spawn {x : Executor} {peerId : String} {queued : List Bytes} : x.worker = .spawn peerId queued → command ≠ [] →
      Write command x { x with
        worker := .installStdin x.children.length peerId queued
        children := x.children ++ [⟨peerId, x.session, 0, true, false, .unborn⟩] }
  | installStdin {x : Executor} {c : Nat} {peerId : String} {queued : List Bytes} : x.worker = .installStdin c peerId queued →
      Write command x { x with worker := .installKill c peerId queued, stdinTx := some c }
  | installKill {x : Executor} {c : Nat} {peerId : String} {queued : List Bytes} : x.worker = .installKill c peerId queued →
      Write command x { x with
        worker := .bump c peerId queued
        killTx := some c
        children := x.killTx.elim x.children (fun c => x.children.modify c (fun d => { d with killed := true })) }
  | bump {x : Executor} {c : Nat} {peerId : String} {queued : List Bytes} : x.worker = .bump c peerId queued → Write command x { x with
        worker := .write queued peerId
        generation := (x.generation + 1) % 2 ^ 64
        children := x.children.modify c (fun d => { d with gen := (x.generation + 1) % 2 ^ 64, cleanup := .waiting }) }

inductive Tidy : Executor → Executor → Prop where
  | exit {x : Executor} (c : Nat) : Tidy x { x with children := x.children.modify c (fun d => { d with alive := false }) }
  | skip {x : Executor} {c : Nat} {d : Child} : x.children[c]? = some d → d.cleanup = .waiting → d.alive = false →
      x.generation ≠ d.gen → Tidy x { x with children := x.children.modify c (fun d => { d with cleanup := .done }) }
  | clearStdin {x : Executor} {c : Nat} {d : Child} : x.children[c]? = some d → d.cleanup = .clearStdin → Tidy x { x with
        stdinTx := none
        children := x.children.modify c (fun d => { d with cleanup := .clearActive })
        cleared := x.cleared ++ x.stdinOwner.map (fun s => (d.session, s)) }
  | clearActive {x : Executor} {c : Nat} {d : Child} : x.children[c]? = some d → d.cleanup = .clearActive → Tidy x { x with
        activePeer := none
        children := x.children.modify c (fun d => { d with cleanup := .done })
        cleared := x.cleared ++ if x.activePeer = none then [] else [(d.session, x.session)] }

inductive Check : Executor → Executor → Prop where
  | current {x : Executor} {c : Nat} {d : Child} : x.children[c]? = some d → d.cleanup = .waiting → d.alive = false →
      x.generation = d.gen →
      Check x { x with children := x.children.modify c (fun d => { d with cleanup := .clearStdin }) }

inductive Act where
  | take
  | allowed (k : Nat)
  | read
  | write
  | tidy
  | check

inductive Step (gate : Bool) (command : List String) : Executor → Act → Executor → Prop where
  | take {x x' : Executor} : Take x x' → Step gate command x .take x'
  | allowed {x x' : Executor} {k : Nat} : TakeAllowed k x x' → Step gate command x (.allowed k) x'
  | read {x x' : Executor} : Read gate x x' → Step gate command x .read x'
  | write {x x' : Executor} : Write command x x' → Step gate command x .write x'
  | tidy {x x' : Executor} : Tidy x x' → Step gate command x .tidy x'
  | check {x x' : Executor} : Check x x' → Step gate command x .check x'

inductive Reach (gate : Bool) (command : List String) (ok : Executor → Act → Prop) : Executor → Prop where
  | refl : Reach gate command ok .initial
  | tail {x x' : Executor} {act : Act} : Reach gate command ok x → ok x act → Step gate command x act x' → Reach gate command ok x'

/-- Between the claim of `active_peer` and the new generation. -/
def Worker.starting : Worker → Bool
  | .spawn _ _ => true
  | .failed _ _ => true
  | .installStdin _ _ _ => true
  | .installKill _ _ _ => true
  | .bump _ _ _ => true
  | _ => false

/-- **A result is taken while the open at hand is the one that its authorization was started for, no session is begun while a
cleanup is about to clear, no cleanup looks at the generation while a session is being begun**, and there are fewer children
than generations. -/
def Orderly (x : Executor) : Act → Prop
  | .allowed k => ∀ a entry, x.auths[k]? = some a → x.pendingOpens.get a.peerId = some entry → entry.auth = k
  | .write => (∀ peerId queued auth, x.worker = .claim peerId queued auth → ∀ d ∈ x.children,
      d.cleanup ≠ .clearStdin ∧ d.cleanup ≠ .clearActive) ∧ x.children.length + 1 < 2 ^ 64
  | .check => x.worker.starting = false
  | _ => True

/-- **Who owns a session.**  Stdin comes from the child's owner; a session is made by an authorization started after the last
close of its peer; a cleanup clears its own session; a child that runs is the one that a close of its owner kills. -/
structure Executor.Owned (x : Executor) : Prop where
  fed : ∀ c sender, (c, sender) ∈ x.fed → ∃ d, x.children[c]? = some d ∧ d.owner = sender
  granted : ∀ g ∈ x.grants, ∀ t, g.lastClose = some t → t < g.started
  cleared : ∀ s s', (s, s') ∈ x.cleared → s' = s
  running : x.worker = .idle → ∀ c d, x.children[c]? = some d → d.alive = true → d.killed = false →
    x.activePeer = some d.owner ∧ x.killTx = some c

end Stdio
end Mistl.Tunnel
