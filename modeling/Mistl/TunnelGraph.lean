import Mistl.NostrEvent
import Mistl.TunnelApproval
/-!
# TunnelGraph — edits of a room's graph

`tunnel/graph.rs` with `tunnel/controller.rs` and `statefile.rs`.  An edit by the owner, or by a peer with a grant, goes to
the file, to memory and to the controller in an order of its own for each kind; any of them may fail.  `clean` is where an
edit is all or nothing all the same.
-/
open Mistl.Table

namespace Mistl.Graph

open Tunnel (Direction Proto ForwardSpec splitNodeScope rsplitAt)
open Nostr (parseUnsigned)

structure Permissions where
  editLinks : Bool
  addForwards : Bool
  removeForwards : Bool
  deriving DecidableEq

structure Policy where
  broadcast : Bool
  locked : Bool
  links : Finset String
  permissions : Table String Permissions
  deriving DecidableEq

inductive Action where
  | link (peerId : String) (connected : Bool)
  | broadcast (enabled : Bool)
  | lock (locked : Bool)
  | permission (peerId : String) (permissions : Permissions)
  | addForward (direction proto addr target : String)
  | removeForward (target : String)
  deriving DecidableEq

namespace Policy

/-- `Policy::default` -/
def initial : Policy := ⟨true, false, ∅, ∅⟩

def allowsTraffic (p : Policy) (peer : String) : Bool := p.broadcast || decide (peer ∈ p.links)

def granted (grants : Permissions) : Action → Bool
  | .link _ _ => grants.editLinks
  | .addForward _ _ _ _ => grants.addForwards
  | .removeForward _ => grants.removeForwards
  | .broadcast _ | .lock _ | .permission _ _ => false

def authorize (p : Policy) (actor owner : String) (action : Action) : Except String Unit :=
  if actor = owner then .ok ()
  else do
    ensure (!p.locked) "node is locked by its owner"
    ensure (granted ((p.permissions.get actor).getD ⟨false, false, false⟩) action)
      "node owner has not granted permission for this operation"

end Policy

inductive ForwardOrigin where
  | «local»
  | remote
  deriving DecidableEq

structure PersistedForward where
  direction : String
  proto : String
  addr : String
  listenPort : Int
  target : String
  origin : ForwardOrigin
  deriving DecidableEq

def PersistedForward.fromSpec (spec : ForwardSpec) : PersistedForward :=
  ⟨match spec.direction with | .serve => "serve" | .connect => "connect", spec.proto.name, spec.addr, spec.listenPort,
    spec.target, .local⟩

def PersistedForward.toSpec (f : PersistedForward) : Option ForwardSpec :=
  (if f.direction = "serve" then some Direction.serve else if f.direction = "connect" then some .connect else none).bind
    (fun direction => (Proto.fromName f.proto).map (fun proto => ⟨direction, proto, f.addr, f.listenPort, f.target⟩))

structure Saved where
  policy : Policy
  forwards : List PersistedForward
  deriving DecidableEq

/-- `Saved::default` -/
def Saved.initial : Saved := ⟨.initial, []⟩

def Saved.has (s : Saved) (target : String) : Bool := s.forwards.any fun f => f.target == target

def Saved.push (s : Saved) (f : PersistedForward) : Saved := { s with forwards := s.forwards ++ [f] }

def Saved.remove (s : Saved) (target : String) : Saved := { s with forwards := s.forwards.filter (fun f => f.target != target) }

/-- What an edit reads of the `NodeView` of a peer. -/
structure NodeView where
  broadcast : Bool
  links : Finset String
  forwards : List Json

/-- How a write of the file ends: it is done, fails before the file is replaced, or fails after that. -/
inductive Write where
  | done
  | refused (error : String)
  | unsynced (error : String)

/-- What an edit meets: how its first and its second write end, whether a call of the controller is let through, what
`check_listen_port` says of a port, and the id that is drawn. -/
structure Calls where
  first : Write
  second : Write
  add : Except String Unit
  remove : Except String Unit
  listen : Except String Unit
  uuid : String

structure Node where
  owner : String
  saved : Saved
  disk : Option Saved
  running : Table String ForwardSpec
  remote : Table String NodeView

/-! ## Checks -/

def validatePeer (peer owner : String) : Except String Unit :=
  ensure (!Authz.isBlank peer && decide (peer.utf8ByteSize ≤ 256) && decide (peer ≠ owner) && !peer.toList.contains '@')
    "invalid peer id"

/-- The edit of a `Link` action. -/
def Policy.link (p : Policy) (owner peerId : String) (connected : Bool) : Except String Policy := do
  validatePeer peerId owner
  .ok { p with links := if connected then insert peerId p.links else p.links.erase peerId }

/-- The edit of a `Permission` action. -/
def Policy.permit (p : Policy) (owner peerId : String) (permissions : Permissions) : Except String Policy := do
  validatePeer peerId owner
  .ok { p with permissions := p.permissions.insert peerId permissions }

/-- What stops `u16::from_str` after the number `n`: what is no digit, or the first digit that is one too many. -/
def digitError (n : Nat) : List Char → String
  | [] => "invalid digit found in string"
  | c :: digits =>
    if c.isDigit = false then "invalid digit found in string"
    else if 2 ^ 16 ≤ n * 10 + (c.toNat - 48) then "number too large to fit in target type"
    else digitError (n * 10 + (c.toNat - 48)) digits

/-- What `u16::from_str` says of a text that is no number of its range. -/
def parseIntError (text : List Char) : String :=
  match text with
  | [] => "cannot parse integer from empty string"
  | '+' :: digits => digitError 0 digits
  | _ => digitError 0 text

/-- `forward_spec`, with the id that a serve forward is named after -/
def forwardSpec (direction proto addr target owner uuid : String) : Except String ForwardSpec := do
  let p ← okOr (Proto.fromName proto) ("unsupported protocol: " ++ proto)
  ensure (decide (addr.utf8ByteSize ≤ 512) && addr.toList.all (fun c => !Authz.isWhitespace c)) "invalid host:port"
  let (host, port) ← okOr ((splitLast ':' addr.toList).map (fun p => (String.ofList p.1, p.2))) "address must be host:port"
  let port ← okOr (parseUnsigned (2 ^ 16) port) (parseIntError port)
  ensure (decide (0 < port) && decide (host ≠ "")) "port must be 1–65535"
  match direction with
  | "serve" => .ok ⟨.serve, p, addr, -1, "graph:" ++ uuid ++ "@" ++ owner⟩
  | "connect" => do
    ensure (decide (host = "127.0.0.1")) "local listeners use 127.0.0.1; enter 127.0.0.1:port"
    ensure (decide (target ≠ "") && decide (target.utf8ByteSize ≤ 1024)) "select a published service"
    .ok ⟨.connect, p, addr, port, target⟩
  | _ => .error "direction must be serve or connect"

variable (isLinkLocalHost : String → Bool)

namespace Node

/-- What `graph_apply` demands of a connect forward: a peer that this node lets through, and that publishes the service. -/
def published (x : Node) (proto target : String) : Except String Unit := do
  let peer ← okOr (splitNodeScope target).2 "direct forwards require a node-scoped target"
  ensure (x.saved.policy.allowsTraffic peer) "connect the nodes first"
  let node ← okOr (x.remote.get peer) "peer graph is unavailable"
  ensure (node.broadcast || decide (x.owner ∈ node.links)) "peer must allow this connection first"
  ensure (node.forwards.any (fun f => (f.index "target").asStr == some target && (f.index "proto").asStr == some proto &&
    (f.index "direction").asStr == some "serve")) "published service is no longer available"

def admitForward (x : Node) (actor direction proto addr target : String) (calls : Calls) : Except String ForwardSpec := do
  let spec ← forwardSpec direction proto addr target x.owner calls.uuid
  ensure (decide (actor = x.owner) || decide (spec.direction ≠ .serve) || !isLinkLocalHost spec.addr)
    "link-local targets cannot be proposed remotely"
  (if spec.direction = .connect then x.published proto target else .ok ())
  ensure (!decide (0 < spec.listenPort) || x.running.all (fun _ f => !decide (f.proto = spec.proto ∧
    f.listenPort = spec.listenPort))) "local port already configured"
  (if spec.listenPort ≤ 0 then .ok () else calls.listen)
  .ok spec

/-! ## The controller and the file -/

/-- `ForwardController::add_forward` -/
def controllerAdd (x : Node) (spec : ForwardSpec) (let_ : Except String Unit) : Except String Node := do
  ensure (decide (spec.target ≠ "")) "forward target must not be empty"
  ensure (!x.running.contains spec.target) ("forward already exists: " ++ spec.target)
  let_
  .ok { x with running := x.running.insert spec.target spec }

/-- `ForwardController::remove_forward` -/
def controllerRemove (x : Node) (key : String) (let_ : Except String Unit) : Except String Node := do
  ensure (x.running.contains key) ("forward not found: " ++ key)
  let_
  .ok { x with running := x.running.erase key }

def persist (x : Node) (next : Saved) : Write → Node × Except String Unit
  | .done => ({ x with saved := next, disk := some next }, .ok ())
  | .refused e => (x, .error e)
  | .unsynced e => ({ x with disk := some next }, .error e)

/-! ## Edits -/

def originOf (x : Node) (actor : String) (spec : ForwardSpec) : PersistedForward :=
  { PersistedForward.fromSpec spec with origin := if actor = x.owner then .local else .remote }

/-- `graph_apply`, for a forward that passed its checks -/
def addGraphForward (x : Node) (actor : String) (spec : ForwardSpec) (calls : Calls) : Node × Except String Unit :=
  match x.controllerAdd spec calls.add with
  | .error e => (x, .error e)
  | .ok y =>
    match y.persist (x.saved.push (originOf x actor spec)) calls.first with
    | (z, .ok ()) => (z, .ok ())
    | (z, .error e) => ((z.controllerRemove spec.target calls.remove).toOption.getD z, .error e)

/-- `graph_apply`, for a forward to remove -/
def removeGraphForward (x : Node) (target : String) (calls : Calls) : Node × Except String Unit :=
  if !x.saved.has target then (x, .error
    "only graph-managed forwards can be removed here; use the existing forward list for legacy rules")
  else
    match x.persist (x.saved.remove target) calls.first with
    | (y, .error e) => (y, .error e)
    | (y, .ok ()) =>
      match y.controllerRemove target calls.remove with
      | .ok z => (z, .ok ())
      | .error e =>
        match y.persist x.saved calls.second with
        | (z, .error e') => (z, .error e')
        | (z, .ok ()) => (z, .error e)

/-- `graph_apply`, for an edit of the policy alone -/
def editPolicy (x : Node) (policy : Except String Policy) (calls : Calls) : Node × Except String Unit :=
  match policy with
  | .error e => (x, .error e)
  | .ok policy => x.persist { x.saved with policy := policy } calls.first

def graphApply (x : Node) (actor : String) (action : Action) (calls : Calls) : Node × Except String Unit :=
  match x.saved.policy.authorize actor x.owner action with
  | .error e => (x, .error e)
  | .ok () =>
    match action with
    | .link peerId connected => x.editPolicy (x.saved.policy.link x.owner peerId connected) calls
    | .broadcast enabled => x.editPolicy (.ok { x.saved.policy with broadcast := enabled }) calls
    | .lock locked => x.editPolicy (.ok { x.saved.policy with locked := locked }) calls
    | .permission peerId permissions => x.editPolicy (x.saved.policy.permit x.owner peerId permissions) calls
    | .addForward direction proto addr target =>
      match x.admitForward isLinkLocalHost actor direction proto addr target calls with
      | .error e => (x, .error e)
      | .ok spec => x.addGraphForward actor spec calls
    | .removeForward target => x.removeGraphForward target calls

/-- `restore_graph_forwards`, with the forwards that start -/
def restoreGraphForwards (x : Node) (starts : PersistedForward → Except String Unit) : Node := x.saved.forwards.foldl (fun x f =>
    (f.toSpec.bind (fun spec => (x.controllerAdd spec (starts f)).toOption)).getD x) x

def graphRemoveRoomForwards (x : Node) (stops : PersistedForward → Except String Unit) : Node :=
  x.saved.forwards.foldl (fun x f => (x.controllerRemove f.target (stops f)).toOption.getD x) x

/-! ## All or nothing -/

def edited (x : Node) (calls : Calls) : Action → Option String
  | .addForward direction proto addr target =>
    (forwardSpec direction proto addr target x.owner calls.uuid).toOption.map ForwardSpec.target
  | .removeForward target => some target
  | _ => none

def edit (x : Node) (actor : String) (action : Action) (calls : Calls) : Except String Saved := do
  x.saved.policy.authorize actor x.owner action
  match action with
  | .link peerId connected => (x.saved.policy.link x.owner peerId connected).map (fun p => { x.saved with policy := p })
  | .broadcast enabled => .ok { x.saved with policy := { x.saved.policy with broadcast := enabled } }
  | .lock locked => .ok { x.saved with policy := { x.saved.policy with locked := locked } }
  | .permission peerId permissions => (x.saved.policy.permit x.owner peerId permissions).map (fun p => { x.saved with policy := p })
  | .addForward direction proto addr target => do
    let spec ← x.admitForward isLinkLocalHost actor direction proto addr target calls
    let _ ← x.controllerAdd spec calls.add
    .ok (x.saved.push (originOf x actor spec))
  | .removeForward target => do
    ensure (x.saved.has target) "only graph-managed forwards can be removed here; use the existing forward list for legacy rules"
    .ok (x.saved.remove target)

def mustRemove (x : Node) (actor : String) (action : Action) (calls : Calls) : Prop :=
  (∃ target, action = .removeForward target ∧ x.saved.has target = true) ∧ actor = x.owner ∧ calls.first = .done ∧ calls.second = .done

/-- An edit that fails leaves what is saved, in memory and in the file, and what runs; one that succeeds leaves file and
memory agreeing, and its forward saved if and only if it runs; and one that must succeed does. -/
structure Settles (x : Node) (forward : Option String) (must : Prop) (r : Node × Except String Unit) : Prop where
  failed : ∀ e, r.2 = .error e → r.1.saved = x.saved ∧ r.1.disk = x.disk ∧ r.1.running = x.running
  applied : r.2 = .ok () → r.1.disk = some r.1.saved ∧
    ∀ target, forward = some target → (r.1.saved.has target = true ↔ r.1.running.contains target = true)
  succeeds : must → r.2 = .ok ()

def AllOrNothing (x : Node) (actor : String) (action : Action) (calls : Calls) : Prop :=
  Settles x (x.edited calls action) (x.mustRemove actor action calls) (x.graphApply isLinkLocalHost actor action calls)

/-- No write that fails has changed the file, a forward whose write failed can be stopped again, and a forward to remove runs
and can be stopped, or it is a peer that fails to remove it and the write back goes well. -/
def clean (x : Node) (actor : String) (action : Action) (calls : Calls) : Prop :=
  ∀ next, x.edit isLinkLocalHost actor action calls = .ok next → (∀ e, calls.first = .unsynced e → x.disk = some next) ∧
    match action with
    | .addForward _ _ _ _ => calls.first ≠ .done → calls.remove = .ok ()
    | .removeForward target => calls.first = .done → (x.running.contains target = true ∧ calls.remove = .ok ()) ∨
      (actor ≠ x.owner ∧ calls.second = .done ∧ x.disk = some x.saved)
    | _ => True

section

variable {isLinkLocalHost} {x : Node} {actor : String} {action : Action} {calls : Calls} {next : Saved}
  {direction proto addr target : String} {e : String}

/-! ## What an edit does -/

theorem map_eq_ok {α β ε : Type} {r : Except ε α} {f : α → β} {b : β} : r.map f = .ok b ↔ ∃ a, r = .ok a ∧ f a = b := by
  cases r with
  | error e => exact ⟨fun h => (by cases h), fun ⟨_, h, _⟩ => (by cases h)⟩
  | ok a =>
    constructor
    · intro h
      cases h
      exact ⟨a, rfl, rfl⟩
    · rintro ⟨_, h, rfl⟩
      cases h
      rfl

theorem graphApply_refused (hedit : x.edit isLinkLocalHost actor action calls = .error e) :
    x.graphApply isLinkLocalHost actor action calls = (x, .error e) := by
  unfold edit at hedit
  unfold graphApply
  cases hauthorize : x.saved.policy.authorize actor x.owner action with
  | error e' =>
    rw [hauthorize] at hedit
    cases hedit
    rfl
  | ok u =>
    rw [hauthorize] at hedit
    cases action with
    | link peerId connected =>
      change (x.saved.policy.link x.owner peerId connected).map _ = _ at hedit
      simp only [editPolicy]
      cases hlink : x.saved.policy.link x.owner peerId connected with
      | error e' =>
        rw [hlink] at hedit
        cases hedit
        rfl
      | ok policy =>
        rw [hlink] at hedit
        cases hedit
    | broadcast enabled => cases hedit
    | lock locked => cases hedit
    | permission peerId permissions =>
      change (x.saved.policy.permit x.owner peerId permissions).map _ = _ at hedit
      simp only [editPolicy]
      cases hpermit : x.saved.policy.permit x.owner peerId permissions with
      | error e' =>
        rw [hpermit] at hedit
        cases hedit
        rfl
      | ok policy =>
        rw [hpermit] at hedit
        cases hedit
    | addForward direction proto addr target =>
      simp only [addGraphForward]
      change (x.admitForward isLinkLocalHost actor direction proto addr target calls >>= _) = _ at hedit
      cases hadm : x.admitForward isLinkLocalHost actor direction proto addr target calls with
      | error e' =>
        rw [hadm] at hedit
        cases hedit
        rfl
      | ok spec =>
        rw [hadm] at hedit
        change (x.controllerAdd spec calls.add >>= _) = _ at hedit
        cases hadd : x.controllerAdd spec calls.add with
        | error e' =>
          rw [hadd] at hedit
          cases hedit
          simp only [hadd]
        | ok y =>
          rw [hadd] at hedit
          cases hedit
    | removeForward target =>
      simp only [removeGraphForward]
      cases hhas : x.saved.has target with
      | true =>
        simp only [hhas] at hedit
        cases hedit
      | false =>
        simp only [hhas] at hedit
        cases hedit
        rfl

theorem graphApply_policy (hedit : x.edit isLinkLocalHost actor action calls = .ok next)
    (hpolicy : x.edited calls action = none) : x.graphApply isLinkLocalHost actor action calls = x.persist next calls.first := by
  unfold graphApply
  obtain ⟨u, hauthorize, hedit⟩ := bind_eq_ok.1 hedit
  rw [hauthorize]
  cases action with
  | link peerId connected =>
    obtain ⟨policy, hlink, rfl⟩ := map_eq_ok.1 hedit
    simp only [editPolicy, hlink]
  | broadcast enabled | lock locked =>
    cases hedit
    rfl
  | permission peerId permissions =>
    obtain ⟨policy, hpermit, rfl⟩ := map_eq_ok.1 hedit
    simp only [editPolicy, hpermit]
  | addForward direction proto addr target =>
    obtain ⟨spec, hadm, -⟩ := bind_eq_ok.1 hedit
    obtain ⟨spec', hspec, -⟩ := bind_eq_ok.1 hadm
    simp only [edited, hspec] at hpolicy
    cases hpolicy
  | removeForward target => cases hpolicy

theorem graphApply_add (hedit : x.edit isLinkLocalHost actor (.addForward direction proto addr target) calls = .ok next) :
    ∃ spec, forwardSpec direction proto addr target x.owner calls.uuid = .ok spec ∧ x.running.contains spec.target = false ∧
      next = x.saved.push (originOf x actor spec) ∧
      x.graphApply isLinkLocalHost actor (.addForward direction proto addr target) calls =
        match persist { x with running := x.running.insert spec.target spec } next calls.first with
        | (z, .ok ()) => (z, .ok ())
        | (z, .error e) => ((z.controllerRemove spec.target calls.remove).toOption.getD z, .error e) := by
  obtain ⟨u, hauthorize, hedit⟩ := bind_eq_ok.1 hedit
  obtain ⟨spec, hadm, hedit⟩ := bind_eq_ok.1 hedit
  obtain ⟨y, hadd, hnext⟩ := bind_eq_ok.1 hedit
  obtain ⟨-, hadd'⟩ := ensure_bind_eq_ok.1 hadd
  obtain ⟨hfree, hadd'⟩ := ensure_bind_eq_ok.1 hadd'
  obtain ⟨-, -, hy⟩ := bind_eq_ok.1 hadd'
  obtain ⟨spec', hspec, hchecks⟩ := bind_eq_ok.1 hadm
  cases hnext
  cases hy
  have hsame : spec' = spec := by
    obtain ⟨-, hchecks⟩ := ensure_bind_eq_ok.1 hchecks
    obtain ⟨-, -, hchecks⟩ := bind_eq_ok.1 hchecks
    obtain ⟨-, hchecks⟩ := ensure_bind_eq_ok.1 hchecks
    obtain ⟨-, -, hchecks⟩ := bind_eq_ok.1 hchecks
    cases hchecks
    rfl
  rw [hsame] at hspec
  rw [Bool.not_eq_true'] at hfree
  refine ⟨spec, hspec, hfree, rfl, ?_⟩
  unfold graphApply
  rw [hauthorize]
  simp only [hadm, addGraphForward, hadd]

theorem graphApply_remove (hedit : x.edit isLinkLocalHost actor (.removeForward target) calls = .ok next) :
    x.saved.has target = true ∧ next = x.saved.remove target ∧
      x.graphApply isLinkLocalHost actor (.removeForward target) calls = x.removeGraphForward target calls := by
  obtain ⟨u, hauthorize, hedit⟩ := bind_eq_ok.1 hedit
  obtain ⟨hhas, hnext⟩ := ensure_bind_eq_ok.1 hedit
  cases hnext
  refine ⟨hhas, rfl, ?_⟩
  unfold graphApply
  rw [hauthorize]

theorem has_push (s : Saved) (f : PersistedForward) : (s.push f).has f.target = true := by
  rw [Saved.has, Saved.push]
  simp

theorem has_remove (s : Saved) (target : String) : (s.remove target).has target = false := by
  rw [Saved.has, List.any_eq_false]
  intro f hf
  simpa using (List.mem_filter.1 hf).2

theorem remove_ne {s : Saved} (h : s.has target = true) : s.remove target ≠ s := by
  intro heq
  have hnot := has_remove s target
  rw [heq, h] at hnot
  cases hnot

theorem controllerRemove_eq_ok {y : Node} : x.controllerRemove target calls.remove = .ok y ↔
    (x.running.contains target = true ∧ calls.remove = .ok ()) ∧ y = { x with running := x.running.erase target } := by
  unfold controllerRemove
  rw [ensure_bind_eq_ok]
  constructor
  · rintro ⟨hruns, h⟩
    obtain ⟨_, hlet, hy⟩ := bind_eq_ok.1 h
    cases hy
    exact ⟨⟨hruns, hlet⟩, rfl⟩
  · rintro ⟨⟨hruns, hlet⟩, rfl⟩
    exact ⟨hruns, by rw [hlet]; rfl⟩

/-! ## When it is all or nothing -/

variable {forward : Option String} {must : Prop} {w : Write}

theorem settles_persist (hmust : ¬ must) : Settles x none must (x.persist next w) ↔ ∀ e, w = .unsynced e → x.disk = some next := by
  cases w with
  | done =>
    exact ⟨fun _ e h => (by cases h), fun _ => ⟨fun e h => (by cases h), fun _ => ⟨rfl, fun _ h => (by cases h)⟩, fun h => absurd h hmust⟩⟩
  | refused e' =>
    exact ⟨fun _ e h => (by cases h), fun _ => ⟨fun e _ => ⟨rfl, rfl, rfl⟩, fun h => (by cases h), fun h => absurd h hmust⟩⟩
  | unsynced e' =>
    refine ⟨fun h e _ => (h.failed e' rfl).2.1.symm, fun h => ⟨fun e _ => ⟨rfl, (h e' rfl).symm, rfl⟩, fun h => (by cases h),
      fun h => absurd h hmust⟩⟩

theorem controllerRemove_insert {y : Node} {spec : ForwardSpec} (hfree : x.running.contains spec.target = false)
    (hy : y.running = x.running.insert spec.target spec) :
    ((y.controllerRemove spec.target calls.remove).toOption.getD y).running = x.running ↔ calls.remove = .ok () := by
  have hcontains : y.running.contains spec.target = true := by
    rw [hy]
    exact contains_iff.2 ⟨spec, get_insert_self _ _ _⟩
  have hback : y.running.erase spec.target = x.running := by
    rw [hy]
    refine ext (fun k => ?_)
    rw [get_erase]
    split
    · rename_i hk
      rw [hk]
      exact (contains_eq_false.1 hfree).symm
    · rename_i hk
      exact get_insert_ne hk _ _
  cases hremove : y.controllerRemove spec.target calls.remove with
  | ok z =>
    obtain ⟨⟨-, hlet⟩, rfl⟩ := controllerRemove_eq_ok.1 hremove
    exact ⟨fun _ => hlet, fun _ => hback⟩
  | error e =>
    constructor
    · intro h
      have h : y.running = x.running := h
      rw [h, hfree] at hcontains
      cases hcontains
    · intro hlet
      have hok := controllerRemove_eq_ok.2 ⟨⟨hcontains, hlet⟩, rfl⟩
      rw [hremove] at hok
      cases hok

theorem controllerRemove_frame (y : Node) (key : String) : ((y.controllerRemove key calls.remove).toOption.getD y).saved = y.saved ∧
    ((y.controllerRemove key calls.remove).toOption.getD y).disk = y.disk := by
  cases hremove : y.controllerRemove key calls.remove with
  | ok z =>
    obtain ⟨-, rfl⟩ := controllerRemove_eq_ok.1 hremove
    exact ⟨rfl, rfl⟩
  | error e => exact ⟨rfl, rfl⟩

theorem settles_add {spec : ForwardSpec} (hmust : ¬ must) (hfree : x.running.contains spec.target = false)
    (hhas : next.has spec.target = true) :
    Settles x (some spec.target) must (match persist { x with running := x.running.insert spec.target spec } next w with
      | (z, .ok ()) => (z, .ok ())
      | (z, .error e) => ((z.controllerRemove spec.target calls.remove).toOption.getD z, .error e)) ↔
    (∀ e, w = .unsynced e → x.disk = some next) ∧ (w ≠ .done → calls.remove = .ok ()) := by
  have hfailed : ∀ (y : Node) (e : String), y.running = x.running.insert spec.target spec → y.saved = x.saved →
      (Settles x (some spec.target) must ((y.controllerRemove spec.target calls.remove).toOption.getD y, .error e) ↔
        y.disk = x.disk ∧ calls.remove = .ok ()) := by
    intro y e hrunning hsaved
    have hframe := @controllerRemove_frame calls y spec.target
    have hback := @controllerRemove_insert x calls y spec hfree hrunning
    constructor
    · intro h
      obtain ⟨-, hdisk, hruns⟩ := h.failed e rfl
      exact ⟨hframe.2.symm.trans hdisk, hback.1 hruns⟩
    · rintro ⟨hdisk, hlet⟩
      exact ⟨fun _ _ => ⟨hframe.1.trans hsaved, hframe.2.trans hdisk, hback.2 hlet⟩, fun h => (by cases h), fun h => absurd h hmust⟩
  cases w with
  | done =>
    refine ⟨fun _ => ⟨fun e h => (by cases h), fun h => absurd rfl h⟩, fun _ => ⟨fun e h => (by cases h), fun _ => ⟨rfl, ?_⟩,
      fun h => absurd h hmust⟩⟩
    rintro target htarget
    cases htarget
    exact ⟨fun _ => contains_iff.2 ⟨spec, get_insert_self _ _ _⟩, fun _ => hhas⟩
  | refused e' =>
    refine (hfailed { x with running := x.running.insert spec.target spec } e' rfl rfl).trans ?_
    exact ⟨fun h => ⟨fun e h => (by cases h), fun _ => h.2⟩, fun h => ⟨rfl, h.2 nofun⟩⟩
  | unsynced e' =>
    refine (hfailed { x with running := x.running.insert spec.target spec, disk := some next } e' rfl rfl).trans ?_
    exact ⟨fun h => ⟨fun e _ => h.1.symm, fun _ => h.2⟩, fun h => ⟨(h.1 e' rfl).symm, h.2 nofun⟩⟩

theorem settles_remove (hhas : x.saved.has target = true)
    (hmust : must ↔ actor = x.owner ∧ calls.first = .done ∧ calls.second = .done) :
    Settles x (some target) must (x.removeGraphForward target calls) ↔
    (∀ e, calls.first = .unsynced e → x.disk = some (x.saved.remove target)) ∧
      (calls.first = .done → (x.running.contains target = true ∧ calls.remove = .ok ()) ∨
        (actor ≠ x.owner ∧ calls.second = .done ∧ x.disk = some x.saved)) := by
  simp only [removeGraphForward, hhas, Bool.not_true, Bool.false_eq_true, if_false]
  cases hfirst : calls.first with
  | refused e' =>
    have hnot : ¬ must := fun h => (by
      obtain ⟨-, hdone, -⟩ := hmust.1 h
      rw [hfirst] at hdone
      cases hdone)
    exact ⟨fun _ => ⟨fun e h => (by cases h), fun h => (by cases h)⟩, fun _ => ⟨fun _ _ => ⟨rfl, rfl, rfl⟩, fun h => (by cases h),
      fun h => absurd h hnot⟩⟩
  | unsynced e' =>
    have hnot : ¬ must := fun h => (by
      obtain ⟨-, hdone, -⟩ := hmust.1 h
      rw [hfirst] at hdone
      cases hdone)
    exact ⟨fun h => ⟨fun e _ => (h.failed e' rfl).2.1.symm, fun h => (by cases h)⟩, fun h => ⟨fun _ _ => ⟨rfl, (h.1 e' rfl).symm, rfl⟩,
      fun h => (by cases h), fun h => absurd h hnot⟩⟩
  | done =>
    simp only [persist]
    cases hremove : controllerRemove { x with saved := x.saved.remove target, disk := some (x.saved.remove target) } target
        calls.remove with
    | ok z =>
      obtain ⟨⟨hruns, hlet⟩, rfl⟩ := controllerRemove_eq_ok.1 hremove
      refine ⟨fun _ => ⟨fun e h => (by cases h), fun _ => .inl ⟨hruns, hlet⟩⟩, fun _ => ⟨fun e h => (by cases h), fun _ => ⟨rfl, ?_⟩,
        fun _ => rfl⟩⟩
      rintro t ht
      cases ht
      have hgone : (x.running.erase target).contains target = false := contains_eq_false.2 (get_erase_self _ _)
      change (x.saved.remove target).has target = true ↔ (x.running.erase target).contains target = true
      rw [has_remove, hgone]
    | error e =>
      have hstuck : ¬ (x.running.contains target = true ∧ calls.remove = .ok ()) := by
        intro h
        have hok := (controllerRemove_eq_ok (x := { x with
          saved := x.saved.remove target
          disk := some (x.saved.remove target) })).2 ⟨h, rfl⟩
        rw [hremove] at hok
        cases hok
      have hlost : ∀ y : Node, ∀ e : String, y.saved = x.saved.remove target → ¬ Settles x (some target) must (y, .error e) :=
        fun y e hsaved h => remove_ne hhas (hsaved.symm.trans (h.failed e rfl).1)
      cases hsecond : calls.second with
      | done =>
        constructor
        · intro h
          have howner : actor ≠ x.owner := by
            intro howner
            have hok := h.succeeds (hmust.2 ⟨howner, hfirst, hsecond⟩)
            cases hok
          exact ⟨fun e h => (by cases h), fun _ => .inr ⟨howner, rfl, (h.failed e rfl).2.1.symm⟩⟩
        · rintro ⟨-, h⟩
          rcases h trivial with h | ⟨howner, -, hdisk⟩
          · exact absurd h hstuck
          · exact ⟨fun _ _ => ⟨rfl, hdisk.symm, rfl⟩, fun h => (by cases h), fun h => absurd (hmust.1 h).1 howner⟩
      | refused e' =>
        refine ⟨fun h => absurd h (hlost _ e' rfl), fun h => ?_⟩
        rcases h.2 trivial with h | ⟨-, h, -⟩
        · exact absurd h hstuck
        · cases h
      | unsynced e' =>
        refine ⟨fun h => absurd h (hlost _ e' rfl), fun h => ?_⟩
        rcases h.2 trivial with h | ⟨-, h, -⟩
        · exact absurd h hstuck
        · cases h

end

/-- **An edit of the graph is all or nothing if and only if it is clean**, whatever is saved and whatever runs. -/
theorem all_or_nothing (x : Node) (actor : String) (action : Action) (calls : Calls) :
    x.AllOrNothing isLinkLocalHost actor action calls ↔ x.clean isLinkLocalHost actor action calls := by
  unfold AllOrNothing clean
  cases hedit : x.edit isLinkLocalHost actor action calls with
  | error e =>
    rw [graphApply_refused hedit]
    have hnot : ¬ x.mustRemove actor action calls := by
      rintro ⟨⟨target, rfl, hhas⟩, rfl, -⟩
      have hok : x.edit isLinkLocalHost x.owner (.removeForward target) calls = .ok (x.saved.remove target) := by
        unfold edit Policy.authorize
        rw [if_pos rfl]
        change (ensure (x.saved.has target) _ >>= _) = _
        rw [hhas]
        rfl
      rw [hedit] at hok
      cases hok
    exact ⟨fun _ next h => (by cases h), fun _ => ⟨fun _ _ => ⟨rfl, rfl, rfl⟩, fun h => (by cases h), fun h => absurd h hnot⟩⟩
  | ok next =>
    have hpolicy : x.edited calls action = none → (∀ target, action ≠ .removeForward target) →
        (Settles x (x.edited calls action) (x.mustRemove actor action calls) (x.graphApply isLinkLocalHost actor action calls) ↔
          ∀ e, calls.first = .unsynced e → x.disk = some next) := by
      intro hnone hother
      rw [graphApply_policy hedit hnone, hnone]
      exact settles_persist (fun ⟨⟨target, haction, _⟩, _⟩ => hother target haction)
    cases action with
    | addForward direction proto addr target =>
      obtain ⟨spec, hspec, hfree, rfl, happly⟩ := graphApply_add hedit
      have hedited : x.edited calls (.addForward direction proto addr target) = some spec.target := by
        simp only [edited, hspec]
        rfl
      rw [happly, hedited, settles_add (fun ⟨⟨_, haction, _⟩, _⟩ => (by cases haction)) hfree (has_push _ _)]
      exact ⟨fun h next hnext => (by cases hnext; exact h), fun h => h _ rfl⟩
    | removeForward target =>
      obtain ⟨hhas, rfl, happly⟩ := graphApply_remove hedit
      have hmust : x.mustRemove actor (.removeForward target) calls ↔ actor = x.owner ∧ calls.first = .done ∧ calls.second = .done :=
        ⟨fun h => h.2, fun h => ⟨⟨target, rfl, hhas⟩, h⟩⟩
      rw [happly]
      refine (settles_remove hhas hmust).trans ?_
      exact ⟨fun h next hnext => (by cases hnext; exact h), fun h => h _ rfl⟩
    | link peerId connected =>
      exact (hpolicy rfl nofun).trans ⟨fun h next hnext => (by cases hnext; exact ⟨h, trivial⟩), fun h => (h _ rfl).1⟩
    | broadcast enabled =>
      exact (hpolicy rfl nofun).trans ⟨fun h next hnext => (by cases hnext; exact ⟨h, trivial⟩), fun h => (h _ rfl).1⟩
    | lock locked => exact (hpolicy rfl nofun).trans ⟨fun h next hnext => (by cases hnext; exact ⟨h, trivial⟩), fun h => (h _ rfl).1⟩
    | permission peerId permissions =>
      exact (hpolicy rfl nofun).trans ⟨fun h next hnext => (by cases hnext; exact ⟨h, trivial⟩), fun h => (h _ rfl).1⟩

/-! ## A saved forward that does not run -/

def service : PersistedForward := ⟨"connect", "tcp", "127.0.0.1:8080", 8080, "graph:web@bob", .local⟩

def taken : Node := restoreGraphForwards ⟨"self", ⟨.initial, [service]⟩, some ⟨.initial, [service]⟩,
    insert ∅ "graph:web@bob" ⟨.connect, .tcp, "127.0.0.1:9090", 9090, "graph:web@bob"⟩, ∅⟩ (fun _ => .ok ())

def orphaned : Node := (taken.controllerRemove "graph:web@bob" (.ok ())).toOption.getD taken

def healthy : Calls := ⟨.done, .done, .ok (), .ok (), .ok (), ""⟩

/-- The owner cannot remove a saved forward that does not run; and when the write back fails too, it is gone all the same. -/
theorem undeletable : (¬ ∀ (isLinkLocalHost : String → Bool) (x : Node) (actor : String) (action : Action) (calls : Calls),
      AllOrNothing isLinkLocalHost x actor action calls) ∧
    (¬ ∀ (isLinkLocalHost : String → Bool) (x : Node) (target : String) (calls : Calls), x.saved.has target = true →
      calls.first = .done → calls.second = .done →
      (x.graphApply isLinkLocalHost x.owner (.removeForward target) calls).2 = .ok ()) ∧
    ¬ ∀ (isLinkLocalHost : String → Bool) (x : Node) (actor : String) (action : Action) (calls : Calls) (e : String),
      (x.graphApply isLinkLocalHost actor action calls).2 = .error e →
      (x.graphApply isLinkLocalHost actor action calls).1.saved = x.saved := by
  have hstuck : (orphaned.graphApply (fun _ => false) "self" (.removeForward "graph:web@bob") healthy).2 =
      .error "forward not found: graph:web@bob" := by decide
  have hlost : (orphaned.graphApply (fun _ => false) "self" (.removeForward "graph:web@bob")
      { healthy with second := .refused "disk full" }).2 = .error "disk full" ∧
      (orphaned.graphApply (fun _ => false) "self" (.removeForward "graph:web@bob")
        { healthy with second := .refused "disk full" }).1.saved ≠ orphaned.saved := by decide
  refine ⟨fun hall => ?_, fun hall => ?_, fun hall => hlost.2 (hall _ _ _ _ _ _ hlost.1)⟩
  · have hok := (hall (fun _ => false) orphaned "self" (.removeForward "graph:web@bob") healthy).succeeds
      ⟨⟨_, rfl, by decide⟩, by decide, rfl, rfl⟩
    cases hok
  · have hok := hall (fun _ => false) orphaned "graph:web@bob" healthy (by decide) rfl rfl
    have howner : orphaned.owner = "self" := by decide
    cases hok

end Node

end Mistl.Graph
