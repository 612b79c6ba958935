import Mistl.Lib.Runs
import Mistl.TunnelGraph
/-!
# TunnelGraphRooms — who may change the graph of a room

`tunnel/graph.rs` with `tunnel/rtc/event.rs` and `tunnel/session.rs`.  Commands of peers are queued for the room they name,
those of the owner name the room they expect, and a switch of the room goes on step by step under the same lock.  The digest
of a room is taken to tell rooms apart.
-/
open List Mistl.Table Option

namespace Mistl.Graph

open Tunnel (ForwardSpec)

/-- A command in `inbox`. -/
structure Cmd where
  peer : String
  id : String
  action : Action
  deriving DecidableEq

inductive Message where
  | state (node : NodeView)
  | command (id : String) (action : Action)
  | reply (id : String) (error : Option String)

/-- Where `handle_payload` stands with a graph message: before it looks at the room, with the room locked before it looks at
`suspended`, and before it hands the message over. -/
inductive Handler where
  | arrived (peer room : String) (message : Message)
  | guarded (peer room : String) (message : Message)
  | accepted (peer room : String) (message : Message)

/-- Where the task stands that holds `mutation`: in `graph_command`, in `graph_tick`, in `switch_room`. -/
inductive Holder where
  | free
  | commandRoom (nodeId : String) (action : Action) (expectedRoom : String)
  | commandApply (action : Action) (expectedRoom : String)
  | tickNext (commands : List Cmd)
  | tickApply (command : Cmd) (commands : List Cmd)
  | switchSuspend (room : String) (prepared : Saved)
  | switchRemove (room : String) (prepared : Saved)
  | switchStart (room : String) (prepared : Saved)
  | switchRoom (room : String) (prepared : Saved)
  | switchPeers (room : String) (prepared : Saved)
  | installPath (room : String) (prepared : Saved)
  | installSaved (room : String) (prepared : Saved)
  | installRemote
  | installInbox
  | installWaiters
  | restore
  | resume
  deriving DecidableEq

/-- What was received for which room while which was current, and whom `graph_tick` found connected. -/
inductive Event where
  | received (command : Cmd) (addressed current : String)
  | checked (command : Cmd) (peers : Finset String)

/-- A node and what its tasks share; `home` is the room whose policy is in memory. -/
structure Rooms where
  owner : String
  room : String
  path : String
  home : String
  saved : Saved
  files : Table String Saved
  running : Table String ForwardSpec
  remote : Table String NodeView
  waiters : Table String String
  inbox : List Cmd
  peers : Finset String
  suspended : Bool
  holder : Holder
  handlers : Table Nat Handler
  log : List Event

/-- What the holder of `mutation` meets. -/
structure Env where
  calls : Calls
  starts : PersistedForward → Except String Unit
  started : Bool
  sent : Option String

/-- A graph message comes in, or its handling goes on; a peer is seen, leaves, or is forgotten; a task takes `mutation`, or goes
on; other tasks start and stop forwards. -/
inductive Act where
  | payload (k : Nat) (peer room : String) (message : Message)
  | handle (k : Nat)
  | connect (peer : String)
  | disconnect (peer : String)
  | forget (peer : String)
  | command (nodeId : String) (action : Action) (expectedRoom : String)
  | tick
  | switch (room : String) (readable : Bool)
  | advance (env : Env)
  | forwards (running : Table String ForwardSpec)

def Handler.guards : Handler → Bool
  | .arrived _ _ _ => false
  | .guarded _ _ _ | .accepted _ _ _ => true

def Handler.peer : Handler → String
  | .arrived peer _ _ | .guarded peer _ _ | .accepted peer _ _ => peer

def Handler.room : Handler → String
  | .arrived _ room _ | .guarded _ room _ | .accepted _ room _ => room

variable (isLinkLocalHost : String → Bool)

namespace Node

variable {isLinkLocalHost} {x : Node} {actor : String} {action : Action} {calls : Calls} {next : Saved}

/-- What a peer's edit leaves as it is, and whose forwards it adds. -/
structure ByPeer (s s' : Saved) : Prop where
  broadcast : s'.policy.broadcast = s.policy.broadcast
  locked : s'.policy.locked = s.policy.locked
  permissions : s'.policy.permissions = s.policy.permissions
  forwards : ∀ f ∈ s'.forwards, f.origin = .local → f ∈ s.forwards

theorem ByPeer.refl (s : Saved) : ByPeer s s := ⟨rfl, rfl, rfl, fun _ hf _ => hf⟩

theorem edit_peer (hedit : x.edit isLinkLocalHost actor action calls = .ok next) (hactor : actor ≠ x.owner) :
    x.saved.policy.locked = false ∧
    Policy.granted ((x.saved.policy.permissions.get actor).getD ⟨false, false, false⟩) action = true ∧
    ByPeer x.saved next := by
  obtain ⟨u, hauthorize, hedit⟩ := bind_eq_ok.1 hedit
  unfold Policy.authorize at hauthorize
  rw [if_neg hactor] at hauthorize
  obtain ⟨hlocked, hauthorize⟩ := ensure_bind_eq_ok.1 hauthorize
  have hgranted := ensure_eq_ok.1 hauthorize
  rw [Bool.not_eq_true'] at hlocked
  refine ⟨hlocked, hgranted, ?_⟩
  cases action with
  | link peerId connected =>
    obtain ⟨policy, hlink, rfl⟩ := map_eq_ok.1 hedit
    obtain ⟨_, -, hpolicy⟩ := bind_eq_ok.1 hlink
    cases hpolicy
    exact ⟨rfl, rfl, rfl, fun _ hf _ => hf⟩
  | broadcast enabled | lock locked | permission peerId permissions => cases hgranted
  | addForward direction proto addr target =>
    obtain ⟨spec, -, hedit⟩ := bind_eq_ok.1 hedit
    obtain ⟨_, -, hnext⟩ := bind_eq_ok.1 hedit
    cases hnext
    refine ⟨rfl, rfl, rfl, fun f hf hlocal => ?_⟩
    rcases mem_append.1 hf with hf | hf
    · exact hf
    · obtain rfl := mem_singleton.1 hf
      unfold originOf at hlocal
      rw [if_neg hactor] at hlocal
      cases hlocal
  | removeForward target =>
    obtain ⟨-, hnext⟩ := ensure_bind_eq_ok.1 hedit
    cases hnext
    exact ⟨rfl, rfl, rfl, fun f hf _ => (mem_filter.1 hf).1⟩

theorem persist_writes (y : Node) (s : Saved) (w : Write) : ((y.persist s w).1.saved = y.saved ∨ (y.persist s w).1.saved = s) ∧
    ((y.persist s w).1.disk = y.disk ∨ (y.persist s w).1.disk = some s) := by
  cases w with
  | done => exact ⟨.inr rfl, .inr rfl⟩
  | refused e => exact ⟨.inl rfl, .inl rfl⟩
  | unsynced e => exact ⟨.inl rfl, .inr rfl⟩

/-- What an edit to save `next` may leave: what was there, `next`, or in the file what memory held. -/
def Leaves (x : Node) (next : Saved) (y : Node) : Prop :=
  (y.saved = x.saved ∨ y.saved = next) ∧ (y.disk = x.disk ∨ y.disk = some x.saved ∨ y.disk = some next)

theorem leaves_persist (w : Write) : Leaves x next (x.persist next w).1 := by
  obtain ⟨hsaved, hdisk⟩ := persist_writes x next w
  exact ⟨hsaved, hdisk.imp_right .inr⟩

theorem graphApply_writes : ((x.graphApply isLinkLocalHost actor action calls).1.saved = x.saved ∧
      (x.graphApply isLinkLocalHost actor action calls).1.disk = x.disk) ∨
    ∃ next, x.edit isLinkLocalHost actor action calls = .ok next ∧
      Leaves x next (x.graphApply isLinkLocalHost actor action calls).1 := by
  cases hedit : x.edit isLinkLocalHost actor action calls with
  | error e =>
    rw [graphApply_refused hedit]
    exact .inl ⟨rfl, rfl⟩
  | ok next =>
    refine .inr ⟨next, rfl, ?_⟩
    have hpolicy : x.edited calls action = none → Leaves x next (x.graphApply isLinkLocalHost actor action calls).1 := by
      intro hnone
      rw [graphApply_policy hedit hnone]
      exact leaves_persist calls.first
    cases action with
    | link peerId connected => exact hpolicy rfl
    | broadcast enabled => exact hpolicy rfl
    | lock locked => exact hpolicy rfl
    | permission peerId permissions => exact hpolicy rfl
    | addForward direction proto addr target =>
      obtain ⟨spec, -, -, -, happly⟩ := graphApply_add hedit
      rw [happly]
      obtain ⟨hsaved, hdisk⟩ := persist_writes { x with running := x.running.insert spec.target spec } next calls.first
      split
      · rename_i z hz
        rw [hz] at hsaved hdisk
        exact ⟨hsaved, hdisk.imp_right .inr⟩
      · rename_i z e hz
        rw [hz] at hsaved hdisk
        have hframe := @controllerRemove_frame calls z spec.target
        unfold Leaves
        rw [hframe.1, hframe.2]
        exact ⟨hsaved, hdisk.imp_right .inr⟩
    | removeForward target =>
      obtain ⟨hhas, rfl, happly⟩ := graphApply_remove hedit
      rw [happly]
      simp only [removeGraphForward, hhas, Bool.not_true, Bool.false_eq_true, if_false]
      obtain ⟨hsaved, hdisk⟩ := persist_writes x (x.saved.remove target) calls.first
      split
      · rename_i y e hy
        rw [hy] at hsaved hdisk
        exact ⟨hsaved, hdisk.imp_right .inr⟩
      · rename_i y hy
        rw [hy] at hsaved hdisk
        have hframe := @controllerRemove_frame calls y target
        split
        · rename_i z hz
          rw [hz] at hframe
          exact ⟨by rwa [← hframe.1] at hsaved, by rw [← hframe.2] at hdisk; exact hdisk.imp_right .inr⟩
        · obtain ⟨hback, hwritten⟩ := persist_writes y x.saved calls.second
          have hleaves : Leaves x (x.saved.remove target) (y.persist x.saved calls.second).1 := by
            refine ⟨?_, ?_⟩
            · rcases hback with hback | hback
              · rwa [← hback] at hsaved
              · exact .inl hback
            · rcases hwritten with hwritten | hwritten
              · rw [← hwritten] at hdisk
                exact hdisk.imp_right .inr
              · exact .inr (.inl hwritten)
          split
          · rename_i z e' hz
            rwa [hz] at hleaves
          · rename_i z hz
            rwa [hz] at hleaves

end Node

namespace Rooms

def start (owner room : String) (files : Table String Saved) : Rooms :=
  ⟨owner, room, room, room, (files.get room).getD .initial, files, ∅, ∅, ∅, [], ∅, false, .free, ∅, []⟩

/-- What `graph_apply` works on. -/
def node (x : Rooms) : Node := ⟨x.owner, x.saved, x.files.get x.path, x.running, x.remote⟩

/-- What `graph_apply` leaves. -/
def update (x : Rooms) (n : Node) : Rooms :=
  { x with saved := n.saved, running := n.running, files := n.disk.elim x.files (x.files.insert x.path) }

def receive (x : Rooms) (peer room : String) : Message → Rooms
  | .state node => { x with remote := x.remote.insert peer node }
  | .command id action =>
    if x.inbox.length < 256 ∧ id.utf8ByteSize ≤ 128 then
      { x with inbox := x.inbox ++ [⟨peer, id, action⟩], log := x.log ++ [.received ⟨peer, id, action⟩ room x.room] }
    else x
  | .reply id _ => if x.waiters.get id = some peer then { x with waiters := x.waiters.erase id } else x

/-- The next section of `handle_payload`. -/
def handle (x : Rooms) (k : Nat) : Handler → Rooms
  | .arrived peer room message =>
    if room = x.room then { x with handlers := x.handlers.insert k (.guarded peer room message) }
    else { x with handlers := x.handlers.erase k }
  | .guarded peer room message =>
    if x.suspended then { x with handlers := x.handlers.erase k }
    else { x with handlers := x.handlers.insert k (.accepted peer room message) }
  | .accepted peer room message => receive { x with handlers := x.handlers.erase k } peer room message

/-- The next section of the task that holds `mutation`. -/
def advance (x : Rooms) (env : Env) : Holder → Rooms
  | .free => x
  | .commandRoom nodeId action expectedRoom =>
    if x.room ≠ expectedRoom then { x with holder := .free }
    else if nodeId = x.owner then { x with holder := .commandApply action expectedRoom }
    else if nodeId ∈ x.peers ∧ x.remote.contains nodeId then
      { x with holder := .free, waiters := env.sent.elim x.waiters (fun id => x.waiters.insert id nodeId) }
    else { x with holder := .free }
  | .commandApply action _ => { x.update (x.node.graphApply isLinkLocalHost x.owner action env.calls).1 with holder := .free }
  | .tickNext [] => { x with holder := .free }
  | .tickNext (command :: commands) =>
    if command.peer ∈ x.peers then
      { x with holder := .tickApply command commands, log := x.log ++ [.checked command x.peers] }
    else { x with holder := .tickNext commands }
  | .tickApply command commands =>
    { x.update (x.node.graphApply isLinkLocalHost command.peer command.action env.calls).1 with
      holder := .tickNext commands }
  | .switchSuspend room prepared => { x with suspended := true, holder := .switchRemove room prepared }
  | .switchRemove room prepared =>
    { x with running := (x.node.graphRemoveRoomForwards env.starts).running, holder := .switchStart room prepared }
  | .switchStart room prepared => { x with holder := if env.started then .switchRoom room prepared else .restore }
  | .switchRoom room prepared =>
    if x.handlers.all (fun _ h => !h.guards) then { x with room := room, holder := .switchPeers room prepared } else x
  | .switchPeers room prepared => { x with peers := ∅, holder := .installPath room prepared }
  | .installPath room prepared => { x with path := room, holder := .installSaved room prepared }
  | .installSaved room prepared => { x with saved := prepared, home := room, holder := .installRemote }
  | .installRemote => { x with remote := ∅, holder := .installInbox }
  | .installInbox => { x with inbox := [], holder := .installWaiters }
  | .installWaiters => { x with waiters := ∅, holder := .restore }
  | .restore => { x with running := (x.node.restoreGraphForwards env.starts).running, holder := .resume }
  | .resume => { x with suspended := false, holder := .free }

def step (x : Rooms) : Act → Option Rooms
  | .payload k peer room message =>
    if peer = x.owner ∨ (x.handlers.get k).isSome then none
    else some { x with
      peers := insert peer x.peers
      handlers := x.handlers.insert k (.arrived peer room message) }
  | .handle k => (x.handlers.get k).map (x.handle k)
  | .connect peer => some { x with peers := insert peer x.peers }
  | .disconnect peer => some { x with peers := x.peers.erase peer }
  | .forget peer => some { x with remote := x.remote.erase peer, waiters := x.waiters.filter (fun _ p => p != peer) }
  | .command nodeId action expectedRoom =>
    if x.holder = .free then some { x with holder := .commandRoom nodeId action expectedRoom } else none
  | .tick => if x.holder = .free then some { x with holder := .tickNext x.inbox, inbox := [] } else none
  | .switch room readable =>
    if x.holder = .free then
      if x.room = room ∨ readable = false then some x
      else some { x with holder := .switchSuspend room ((x.files.get room).getD .initial) }
    else none
  | .advance env => some (x.advance isLinkLocalHost env x.holder)
  | .forwards running => some { x with running := running }

def run (owner room : String) (files : Table String Saved) (acts : List Act) : Option Rooms :=
  Runs.run (step isLinkLocalHost) (start owner room files) acts

/-! ## What holds of the holder -/

def Sent (x : Rooms) (command : Cmd) : Prop := command.peer ≠ x.owner ∧ .received command x.room x.room ∈ x.log

def Settled (x : Rooms) : Prop := x.home = x.room ∧ x.path = x.room

def Inboxed (x : Rooms) : Prop := ∀ command ∈ x.inbox, x.Sent command

def Quiet (x : Rooms) : Prop := x.suspended = true ∧ ∀ k peer room message, x.handlers.get k ≠ some (.accepted peer room message)

def Loaded (x : Rooms) (room : String) (prepared : Saved) : Prop := prepared = (x.files.get room).getD .initial ∧ x.home ≠ room

def Holds (x : Rooms) : Holder → Prop
  | .free | .commandRoom _ _ _ | .restore | .resume | .installWaiters => x.Settled ∧ x.Inboxed
  | .commandApply _ room => x.Settled ∧ x.Inboxed ∧ x.room = room
  | .tickNext commands => x.Settled ∧ x.Inboxed ∧ ∀ command ∈ commands, x.Sent command
  | .tickApply command commands => x.Settled ∧ x.Inboxed ∧ (∀ c ∈ command :: commands, x.Sent c) ∧
      ∃ peers, .checked command peers ∈ x.log ∧ command.peer ∈ peers
  | .switchSuspend room prepared => x.Settled ∧ x.Inboxed ∧ x.Loaded room prepared
  | .switchRemove room prepared | .switchStart room prepared | .switchRoom room prepared =>
    x.Settled ∧ x.Inboxed ∧ x.Loaded room prepared ∧ x.suspended = true
  | .switchPeers room prepared | .installPath room prepared => x.Loaded room prepared ∧ x.Quiet ∧ x.room = room
  | .installSaved room prepared => x.Loaded room prepared ∧ x.Quiet ∧ x.room = room ∧ x.path = room
  | .installRemote | .installInbox => x.Settled ∧ x.Quiet

structure Inv (x : Rooms) : Prop where
  handlers : ∀ k h, x.handlers.get k = some h → h.peer ≠ x.owner ∧ (h.guards = true → h.room = x.room)
  holder : x.Holds x.holder

variable {isLinkLocalHost} {x x' : Rooms} {act : Act} {env : Env}

theorem start_inv (owner room : String) (files : Table String Saved) : (start owner room files).Inv :=
  ⟨fun _ _ h => (by cases h), ⟨rfl, rfl⟩, fun _ h => (by cases h)⟩

theorem Sent.mono {command : Cmd} (h : x.Sent command) (howner : x'.owner = x.owner) (hroom : x'.room = x.room)
    (hlog : ∀ e ∈ x.log, e ∈ x'.log) : x'.Sent command := by
  rw [Sent, howner, hroom]
  exact ⟨h.1, hlog _ h.2⟩

theorem Holds.frame {holder : Holder} (h : x.Holds holder) (howner : x'.owner = x.owner) (hroom : x'.room = x.room)
    (hpath : x'.path = x.path) (hhome : x'.home = x.home) (hfiles : x'.files = x.files) (hsuspended : x'.suspended = x.suspended)
    (hlog : ∀ e ∈ x.log, e ∈ x'.log) (hinbox : x.Inboxed → x'.Inboxed) (hquiet : x.Quiet → x'.Quiet) : x'.Holds holder := by
  have hsettled : x.Settled → x'.Settled := fun h => by rwa [Settled, hhome, hpath, hroom]
  have hloaded : ∀ {room prepared}, x.Loaded room prepared → x'.Loaded room prepared := fun h => by
    rwa [Loaded, hfiles, hhome]
  have hsent : ∀ {commands : List Cmd}, (∀ c ∈ commands, x.Sent c) → ∀ c ∈ commands, x'.Sent c :=
    fun h c hc => (h c hc).mono howner hroom hlog
  cases holder with
  | free | commandRoom _ _ _ | restore | resume | installWaiters => exact h.imp hsettled hinbox
  | commandApply _ room => exact ⟨hsettled h.1, hinbox h.2.1, hroom.trans h.2.2⟩
  | tickNext commands => exact ⟨hsettled h.1, hinbox h.2.1, hsent h.2.2⟩
  | tickApply command commands =>
    obtain ⟨h1, h2, h3, peers, hchecked, hpeer⟩ := h
    exact ⟨hsettled h1, hinbox h2, hsent h3, peers, hlog _ hchecked, hpeer⟩
  | switchSuspend room prepared => exact ⟨hsettled h.1, hinbox h.2.1, hloaded h.2.2⟩
  | switchRemove room prepared | switchStart room prepared | switchRoom room prepared =>
    exact ⟨hsettled h.1, hinbox h.2.1, hloaded h.2.2.1, hsuspended.trans h.2.2.2⟩
  | switchPeers room prepared | installPath room prepared => exact ⟨hloaded h.1, hquiet h.2.1, hroom.trans h.2.2⟩
  | installSaved room prepared => exact ⟨hloaded h.1, hquiet h.2.1, hroom.trans h.2.2.1, hpath.trans h.2.2.2⟩
  | installRemote | installInbox => exact h.imp hsettled hquiet

theorem Inv.advance (h : x.Inv) (env : Env) : (x.advance isLinkLocalHost env x.holder).Inv := by
  have hholds := h.holder
  have hsame : ∀ y : Rooms, y.handlers = x.handlers → y.owner = x.owner → y.room = x.room → y.Holds y.holder → y.Inv := by
    intro y hhandlers howner hroom hy
    exact ⟨by rw [hhandlers, howner, hroom]; exact h.handlers, hy⟩
  cases hholder : x.holder with
  | free => exact ⟨h.handlers, hholds⟩
  | commandRoom nodeId action expectedRoom =>
    rw [hholder] at hholds
    simp only [Rooms.advance]
    split
    · exact hsame _ rfl rfl rfl hholds
    · rename_i hroom
      split
      · exact hsame _ rfl rfl rfl ⟨hholds.1, hholds.2, not_not.1 hroom⟩
      · split
        · exact hsame _ rfl rfl rfl hholds
        · exact hsame _ rfl rfl rfl hholds
  | commandApply action room =>
    rw [hholder] at hholds
    exact hsame _ rfl rfl rfl ⟨hholds.1, hholds.2.1⟩
  | tickNext commands =>
    rw [hholder] at hholds
    cases commands with
    | nil => exact hsame _ rfl rfl rfl ⟨hholds.1, hholds.2.1⟩
    | cons command commands =>
      obtain ⟨hsettled, hinbox, hsent⟩ := hholds
      simp only [Rooms.advance]
      split
      · rename_i hpeer
        have hmono : ∀ c, x.Sent c → Sent { x with
            holder := .tickApply command commands
            log := x.log ++ [.checked command x.peers] } c :=
          fun c hc => hc.mono rfl rfl (fun e he => mem_append_left _ he)
        exact hsame _ rfl rfl rfl ⟨hsettled, fun c hc => hmono c (hinbox c hc), fun c hc => hmono c (hsent c hc), x.peers,
          mem_append_right _ mem_cons_self, hpeer⟩
      · exact hsame _ rfl rfl rfl ⟨hsettled, hinbox, fun c hc => hsent c (mem_cons_of_mem _ hc)⟩
  | tickApply command commands =>
    rw [hholder] at hholds
    obtain ⟨hsettled, hinbox, hsent, -⟩ := hholds
    exact hsame _ rfl rfl rfl ⟨hsettled, hinbox, fun c hc => hsent c (mem_cons_of_mem _ hc)⟩
  | switchSuspend room prepared | installPath room prepared =>
    rw [hholder] at hholds
    exact hsame _ rfl rfl rfl ⟨hholds.1, hholds.2.1, hholds.2.2, rfl⟩
  | switchRemove room prepared | switchPeers room prepared | installRemote | installWaiters | restore | resume =>
    rw [hholder] at hholds
    exact hsame _ rfl rfl rfl hholds
  | switchStart room prepared =>
    rw [hholder] at hholds
    simp only [Rooms.advance]
    cases env.started with
    | true => exact hsame _ rfl rfl rfl hholds
    | false => exact hsame _ rfl rfl rfl ⟨hholds.1, hholds.2.1⟩
  | switchRoom room prepared =>
    rw [hholder] at hholds
    obtain ⟨hsettled, hinbox, hloaded, hsuspended⟩ := hholds
    simp only [Rooms.advance]
    split
    · -- nobody holds the room, so nobody is about to hand over a message for the old one
      rename_i hfree
      have hnone : ∀ k handler, x.handlers.get k = some handler → handler.guards = false := by
        intro k handler hk
        have hnot := Table.all_eq_true.1 hfree k handler hk
        simpa using hnot
      refine ⟨fun k handler hk => ⟨(h.handlers k handler hk).1, fun hguards => ?_⟩, hloaded, ⟨hsuspended, ?_⟩, rfl⟩
      · rw [hnone k handler hk] at hguards
        cases hguards
      · intro k peer room' message hk
        have hnot := hnone k _ hk
        cases hnot
    · exact ⟨h.handlers, by rw [hholder]; exact ⟨hsettled, hinbox, hloaded, hsuspended⟩⟩
  | installSaved room prepared =>
    rw [hholder] at hholds
    obtain ⟨-, hquiet, hroom, hpath⟩ := hholds
    exact hsame _ rfl rfl rfl ⟨⟨hroom.symm, hpath.trans hroom.symm⟩, hquiet⟩
  | installInbox =>
    rw [hholder] at hholds
    exact hsame _ rfl rfl rfl ⟨hholds.1, fun _ hc => (by cases hc)⟩

theorem Quiet.handlers (h : x.Quiet) {y : Rooms} (hsuspended : y.suspended = x.suspended)
    (hhandlers : ∀ k peer room message, y.handlers.get k = some (.accepted peer room message) →
      ∃ k, x.handlers.get k = some (.accepted peer room message)) : y.Quiet := by
  refine ⟨hsuspended.trans h.1, fun k peer room message hk => ?_⟩
  obtain ⟨k', hk'⟩ := hhandlers k peer room message hk
  exact h.2 k' peer room message hk'

theorem get_erase_some {k k' : Nat} {handler : Handler} (h : (x.handlers.erase k).get k' = some handler) :
    x.handlers.get k' = some handler := by
  exact (of_get_erase h).2

theorem Inv.handle (h : x.Inv) {k : Nat} {handler : Handler} (hk : x.handlers.get k = some handler) : (x.handle k handler).Inv := by
  have hdropped : Inv { x with handlers := x.handlers.erase k } :=
    ⟨fun k' handler' hk' => h.handlers k' handler' (get_erase_some hk'), h.holder.frame rfl rfl rfl rfl rfl rfl (fun _ he => he) id
      (fun hquiet => hquiet.handlers rfl (fun k' _ _ _ hk' => ⟨k', get_erase_some hk'⟩))⟩
  have hgoes : ∀ next : Handler, next.peer = handler.peer → (next.guards = true → next.room = x.room) →
      (x.Quiet → ∀ peer room message, next ≠ .accepted peer room message) → Inv { x with handlers := x.handlers.insert k next } := by
    intro next hpeer hroom haccepted
    refine ⟨fun k' handler' hk' => ?_, h.holder.frame rfl rfl rfl rfl rfl rfl (fun _ he => he) id
      (fun hquiet => hquiet.handlers rfl (fun k' peer room message hk' => ?_))⟩
    · rcases of_get_insert hk' with ⟨-, rfl⟩ | ⟨-, hk'⟩
      · exact ⟨hpeer ▸ (h.handlers k handler hk).1, hroom⟩
      · exact h.handlers k' handler' hk'
    · rcases of_get_insert hk' with ⟨-, rfl⟩ | ⟨-, hk'⟩
      · exact absurd rfl (haccepted hquiet peer room message)
      · exact ⟨k', hk'⟩
  cases handler with
  | arrived peer room message =>
    simp only [Rooms.handle]
    split
    · rename_i hroom
      exact hgoes _ rfl (fun _ => hroom) nofun
    · exact hdropped
  | guarded peer room message =>
    simp only [Rooms.handle]
    split
    · exact hdropped
    · rename_i hrunning
      refine hgoes _ rfl (fun _ => (h.handlers k _ hk).2 rfl) (fun hquiet => ?_)
      exact absurd hquiet.1 hrunning
  | accepted peer room message =>
    have hroom : room = x.room := (h.handlers k _ hk).2 rfl
    have hpeer : peer ≠ x.owner := (h.handlers k _ hk).1
    simp only [Rooms.handle]
    cases message with
    | state node => exact ⟨hdropped.handlers, hdropped.holder.frame rfl rfl rfl rfl rfl rfl (fun _ he => he) id id⟩
    | command id action =>
      simp only [receive]
      split
      · refine ⟨hdropped.handlers, hdropped.holder.frame rfl rfl rfl rfl rfl rfl (fun _ he => mem_append_left _ he) ?_
          (fun hquiet => ⟨hquiet.1, hquiet.2⟩)⟩
        intro hinbox c hc
        rcases mem_append.1 hc with hc | hc
        · exact (hinbox c hc).mono rfl rfl (fun _ he => mem_append_left _ he)
        · obtain rfl := mem_singleton.1 hc
          refine ⟨hpeer, ?_⟩
          rw [hroom]
          exact mem_append_right _ mem_cons_self
      · exact hdropped
    | reply reqId error =>
      simp only [receive]
      split
      · exact ⟨hdropped.handlers, hdropped.holder.frame rfl rfl rfl rfl rfl rfl (fun _ he => he) id id⟩
      · exact hdropped

theorem Inv.step (h : x.Inv) (hstep : x.step isLinkLocalHost act = some x') : x'.Inv := by
  have hframe : ∀ y : Rooms, y.handlers = x.handlers → y.owner = x.owner → y.room = x.room → y.path = x.path → y.home = x.home →
      y.files = x.files → y.suspended = x.suspended → y.log = x.log → y.inbox = x.inbox → y.holder = x.holder → y.Inv := by
    intro y h1 h2 h3 h4 h5 h6 h7 h8 h9 h10
    refine ⟨by rw [h1, h2, h3]; exact h.handlers, ?_⟩
    rw [h10]
    refine h.holder.frame h2 h3 h4 h5 h6 h7 (fun e he => by rwa [h8]) (fun hinbox c hc => ?_) (fun hquiet => ?_)
    · exact (hinbox c (h9 ▸ hc)).mono h2 h3 (fun e he => by rwa [h8])
    · rwa [Quiet, h7, h1]
  cases act with
  | payload k peer room message =>
    simp only [Rooms.step] at hstep
    split at hstep
    · cases hstep
    · rename_i hnew
      cases hstep
      refine ⟨fun k' handler hk' => ?_, h.holder.frame rfl rfl rfl rfl rfl rfl (fun _ he => he) id
        (fun hquiet => hquiet.handlers rfl (fun k' peer' room' message' hk' => ?_))⟩
      · rcases of_get_insert hk' with ⟨-, rfl⟩ | ⟨-, hk'⟩
        · exact ⟨fun hpeer => hnew (.inl hpeer), fun hguards => (by cases hguards)⟩
        · exact h.handlers k' handler hk'
      · rw [get_insert] at hk'
        split at hk'
        · cases hk'
        · exact ⟨k', hk'⟩
  | handle k =>
    obtain ⟨handler, hk, rfl⟩ := map_eq_some_iff.1 hstep
    exact h.handle hk
  | connect peer | disconnect peer | forget peer | forwards running =>
    cases hstep
    exact hframe _ rfl rfl rfl rfl rfl rfl rfl rfl rfl rfl
  | command nodeId action expectedRoom =>
    obtain ⟨hfree, hx⟩ := ite_none_right_eq_some.1 hstep
    cases hx
    have hholds := h.holder
    rw [hfree] at hholds
    exact ⟨h.handlers, hholds⟩
  | tick =>
    obtain ⟨hfree, hx⟩ := ite_none_right_eq_some.1 hstep
    cases hx
    have hholds := h.holder
    rw [hfree] at hholds
    exact ⟨h.handlers, hholds.1, fun _ hc => (by cases hc), hholds.2⟩
  | switch room readable =>
    obtain ⟨hfree, hx⟩ := ite_none_right_eq_some.1 hstep
    have hholds := h.holder
    rw [hfree] at hholds
    split at hx
    · cases hx
      exact h
    · rename_i hnew
      cases hx
      exact ⟨h.handlers, hholds.1, hholds.2, rfl, fun hhome => hnew (.inl (hholds.1.1.symm.trans hhome))⟩
  | advance env =>
    cases hstep
    exact h.advance env

theorem inv_of_run {owner room : String} {files : Table String Saved} {acts : List Act}
    (hrun : run isLinkLocalHost owner room files acts = some x) : x.Inv :=
  @Runs.invariant Rooms Act (step isLinkLocalHost) (fun _ _ => true) Inv (fun _ _ _ h _ hstep => h.step hstep) acts _ _
    (start_inv owner room files) (Runs.along_true _ _) hrun

/-! ## Authority -/

/-- The policy or the forwards of a room change, in its file or, where it is the one in memory, there. -/
def Changed (room : String) (x x' : Rooms) : Prop :=
  x'.files.get room ≠ x.files.get room ∨ (x.home = room ∧ x'.home = room ∧ x'.saved ≠ x.saved)

def ByOwner (room : String) (x : Rooms) (act : Act) : Prop := ∃ env action, act = .advance env ∧ x.holder = .commandApply action room

/-- A peer's command is applied that was sent for the room while it was current: its sender was found connected in the section
before and has the grant, the room is not locked, and what only the owner may change is left. -/
structure ByRemote (room : String) (x : Rooms) (act : Act) (x' : Rooms) (command : Cmd) : Prop where
  applies : ∃ env commands, act = .advance env ∧ x.holder = .tickApply command commands
  remote : command.peer ≠ x.owner
  sent : .received command room room ∈ x.log
  connected : ∃ peers, .checked command peers ∈ x.log ∧ command.peer ∈ peers
  unlocked : x.saved.policy.locked = false
  granted : Policy.granted ((x.saved.policy.permissions.get command.peer).getD ⟨false, false, false⟩) command.action = true
  memory : Node.ByPeer x.saved x'.saved
  file : x'.files.get room = x.files.get room ∨ ∃ saved, x'.files.get room = some saved ∧ Node.ByPeer x.saved saved

theorem step_frame (hstep : x.step isLinkLocalHost act = some x') :
    (x'.files = x.files ∧ x'.saved = x.saved ∧ x'.home = x.home) ∨ ∃ env, act = .advance env ∧
      ((∃ action room, x.holder = .commandApply action room) ∨ (∃ command commands, x.holder = .tickApply command commands) ∨
        ∃ room prepared, x.holder = .installSaved room prepared) := by
  cases act with
  | payload k peer room message =>
    simp only [Rooms.step] at hstep
    split at hstep
    · cases hstep
    · cases hstep
      exact .inl ⟨rfl, rfl, rfl⟩
  | handle k =>
    obtain ⟨handler, -, rfl⟩ := map_eq_some_iff.1 hstep
    refine .inl ?_
    cases handler with
    | arrived peer room message =>
      simp only [Rooms.handle]
      split <;> exact ⟨rfl, rfl, rfl⟩
    | guarded peer room message =>
      simp only [Rooms.handle]
      split <;> exact ⟨rfl, rfl, rfl⟩
    | accepted peer room message =>
      cases message with
      | state node => exact ⟨rfl, rfl, rfl⟩
      | command id action =>
        simp only [Rooms.handle, receive]
        split <;> exact ⟨rfl, rfl, rfl⟩
      | reply id error =>
        simp only [Rooms.handle, receive]
        split <;> exact ⟨rfl, rfl, rfl⟩
  | connect peer | disconnect peer | forget peer | forwards running =>
    cases hstep
    exact .inl ⟨rfl, rfl, rfl⟩
  | command nodeId action expectedRoom | tick =>
    obtain ⟨-, hx⟩ := ite_none_right_eq_some.1 hstep
    cases hx
    exact .inl ⟨rfl, rfl, rfl⟩
  | switch room readable =>
    obtain ⟨-, hx⟩ := ite_none_right_eq_some.1 hstep
    split at hx <;> cases hx <;> exact .inl ⟨rfl, rfl, rfl⟩
  | advance env =>
    cases hstep
    cases hholder : x.holder with
    | commandApply action room => exact .inr ⟨env, rfl, .inl ⟨action, room, rfl⟩⟩
    | tickApply command commands => exact .inr ⟨env, rfl, .inr (.inl ⟨command, commands, rfl⟩)⟩
    | installSaved room prepared => exact .inr ⟨env, rfl, .inr (.inr ⟨room, prepared, rfl⟩)⟩
    | commandRoom nodeId action expectedRoom =>
      refine .inl ?_
      simp only [Rooms.advance]
      split
      · exact ⟨rfl, rfl, rfl⟩
      · split
        · exact ⟨rfl, rfl, rfl⟩
        · split <;> exact ⟨rfl, rfl, rfl⟩
    | tickNext commands =>
      refine .inl ?_
      cases commands with
      | nil => exact ⟨rfl, rfl, rfl⟩
      | cons command commands =>
        simp only [Rooms.advance]
        split <;> exact ⟨rfl, rfl, rfl⟩
    | switchRoom room prepared =>
      refine .inl ?_
      simp only [Rooms.advance]
      split <;> exact ⟨rfl, rfl, rfl⟩
    | free => exact .inl ⟨rfl, rfl, rfl⟩
    | switchSuspend room prepared => exact .inl ⟨rfl, rfl, rfl⟩
    | switchRemove room prepared => exact .inl ⟨rfl, rfl, rfl⟩
    | switchStart room prepared => exact .inl ⟨rfl, rfl, rfl⟩
    | switchPeers room prepared => exact .inl ⟨rfl, rfl, rfl⟩
    | installPath room prepared => exact .inl ⟨rfl, rfl, rfl⟩
    | installRemote => exact .inl ⟨rfl, rfl, rfl⟩
    | installInbox => exact .inl ⟨rfl, rfl, rfl⟩
    | installWaiters => exact .inl ⟨rfl, rfl, rfl⟩
    | restore => exact .inl ⟨rfl, rfl, rfl⟩
    | resume => exact .inl ⟨rfl, rfl, rfl⟩

theorem changed_update (hpath : x.path = x.home) {n : Node} {holder : Holder} {room : String}
    (hchanged : Changed room x { x.update n with holder := holder }) : x.home = room := by
  rcases hchanged with hfile | ⟨hhome, -⟩
  · by_contra hother
    refine hfile ?_
    change (n.disk.elim x.files (x.files.insert x.path)).get room = x.files.get room
    cases n.disk with
    | none => rfl
    | some saved => exact get_insert_ne (fun h => hother (hpath.symm.trans h.symm)) _ _
  · exact hhome

theorem get_update (n : Node) : (x.update n).files.get x.path = n.disk.elim (x.files.get x.path) some := by
  unfold update
  cases n.disk with
  | none => rfl
  | some saved => exact get_insert_self _ _ _

theorem tickApply_writes {command : Cmd} {calls : Calls} (hremote : command.peer ≠ x.owner) {n : Node}
    (hn : n = (x.node.graphApply isLinkLocalHost command.peer command.action calls).1)
    (hchanged : (x.update n).files.get x.path ≠ x.files.get x.path ∨ n.saved ≠ x.saved) :
    x.saved.policy.locked = false ∧
    Policy.granted ((x.saved.policy.permissions.get command.peer).getD ⟨false, false, false⟩) command.action = true ∧
    Node.ByPeer x.saved n.saved ∧
    ((x.update n).files.get x.path = x.files.get x.path ∨
      ∃ saved, (x.update n).files.get x.path = some saved ∧ Node.ByPeer x.saved saved) := by
  have hsame : n.disk = x.files.get x.path → (x.update n).files.get x.path = x.files.get x.path := by
    intro hdisk
    rw [get_update, hdisk]
    cases x.files.get x.path <;> rfl
  obtain ⟨hsaved, hdisk⟩ | ⟨next, hedit, hsaved, hdisk⟩ := @Node.graphApply_writes isLinkLocalHost x.node command.peer
    command.action calls
  · rcases hchanged with hfile | hmemory
    · exact absurd (hsame (hn ▸ hdisk)) hfile
    · exact absurd (hn ▸ hsaved) hmemory
  · obtain ⟨hlocked, hgranted, hpeer⟩ := Node.edit_peer hedit hremote
    rw [← hn] at hsaved hdisk
    refine ⟨hlocked, hgranted, ?_, ?_⟩
    · rcases hsaved with hsaved | hsaved
      · rw [hsaved]
        exact Node.ByPeer.refl _
      · rwa [hsaved]
    · rcases hdisk with hdisk | hdisk | hdisk
      · exact .inl (hsame hdisk)
      · exact .inr ⟨x.saved, by rw [get_update, hdisk]; rfl, Node.ByPeer.refl _⟩
      · exact .inr ⟨next, by rw [get_update, hdisk]; rfl, hpeer⟩

/-- **The graph of a room is changed by the owner's commands for it, and by commands that peers sent for it**; a switch of the
room brings in what the file of the new room holds. -/
theorem graph_authority (isLinkLocalHost : String → Bool) (owner room : String) (files : Table String Saved) (acts : List Act)
    (x : Rooms) (hrun : run isLinkLocalHost owner room files acts = some x) (act : Act) (x' : Rooms)
    (hstep : x.step isLinkLocalHost act = some x') :
    (∀ R, Changed R x x' → x.room = R ∧ x.home = R ∧ (ByOwner R x act ∨ ∃ command, ByRemote R x act x' command)) ∧
    (x'.home ≠ x.home → x'.saved = (x.files.get x'.home).getD .initial) := by
  have hinv := (inv_of_run hrun).holder
  obtain ⟨hfiles, hsaved, hhome⟩ | ⟨env, rfl, ⟨action, R, hholder⟩ | ⟨command, commands, hholder⟩ | ⟨R, prepared, hholder⟩⟩ :=
    step_frame hstep
  · refine ⟨fun R hchanged => ?_, fun hother => absurd hhome hother⟩
    rcases hchanged with hfile | ⟨-, -, hmemory⟩
    · exact absurd (by rw [hfiles]) hfile
    · exact absurd hsaved hmemory
  · rw [hholder] at hinv
    obtain ⟨⟨hhome, hpath⟩, -, hroom⟩ := hinv
    simp only [Rooms.step, hholder] at hstep
    cases hstep
    refine ⟨fun R' hchanged => ?_, fun hother => absurd rfl hother⟩
    obtain rfl := changed_update (hpath.trans hhome.symm) hchanged
    refine ⟨hhome.symm, rfl, .inl ⟨env, action, rfl, ?_⟩⟩
    rw [hholder, hhome, hroom]
  · rw [hholder] at hinv
    obtain ⟨⟨hhome, hpath⟩, -, hsent, hchecked⟩ := hinv
    simp only [Rooms.step, hholder] at hstep
    cases hstep
    refine ⟨fun R' hchanged => ?_, fun hother => absurd rfl hother⟩
    obtain rfl := changed_update (hpath.trans hhome.symm) hchanged
    obtain ⟨hremote, hreceived⟩ := hsent command mem_cons_self
    have hhere : x.path = x.home := hpath.trans hhome.symm
    rw [← hhere] at hchanged
    obtain ⟨hlocked, hgranted, hmemory, hfile⟩ := tickApply_writes hremote rfl (hchanged.imp_right (fun h => h.2.2))
    rw [hhere] at hfile
    refine ⟨hhome.symm, rfl, .inr ⟨command, ⟨env, commands, rfl, hholder⟩, hremote, ?_, hchecked, hlocked, hgranted, hmemory, hfile⟩⟩
    rwa [hhome]
  · rw [hholder] at hinv
    obtain ⟨⟨hprepared, hother⟩, -⟩ := hinv
    simp only [Rooms.step, hholder] at hstep
    cases hstep
    refine ⟨fun R' hchanged => ?_, fun _ => hprepared⟩
    rcases hchanged with hfile | ⟨hhome, hhome', -⟩
    · exact absurd rfl hfile
    · exact absurd (hhome.trans hhome'.symm) hother

/-! ## A peer that may edit links -/

def fine : Env := ⟨Node.healthy, fun _ => .ok (), true, none⟩

def ordered (action : Action) (env : Env) : List Act := [.command "self" action "den", .advance fine, .advance env]

def bobGranted : List Act := ordered (.permission "bob" ⟨true, false, false⟩) fine

def bobEdits : List Act :=
  [.payload 0 "bob" "den" (.command "1" (.link "carol" true)), .handle 0, .handle 0, .handle 0, .tick, .advance fine]

theorem graph_authority_bob : ∃ x x', run (fun _ => false) "self" "den" ∅ (bobGranted ++ bobEdits) = some x ∧
    x.step (fun _ => false) (.advance fine) = some x' ∧ ∃ command, ByRemote "den" x (.advance fine) x' command := by
  have hruns : (run (fun _ => false) "self" "den" ∅ (bobGranted ++ bobEdits)).any (fun x =>
      (x.step (fun _ => false) (.advance fine)).any (fun x' => decide (x'.files.get "den" ≠ x.files.get "den" ∧
        x.holder = .tickApply ⟨"bob", "1", .link "carol" true⟩ []))) = true := by decide
  obtain ⟨x, hrun, hstep⟩ := (Option.any_eq_true _ _).1 hruns
  obtain ⟨x', hstep, hchanged⟩ := (Option.any_eq_true _ _).1 hstep
  obtain ⟨hchanged, hholder⟩ := of_decide_eq_true hchanged
  obtain ⟨-, -, howner | hremote⟩ := (graph_authority (fun _ => false) "self" "den" ∅ (bobGranted ++ bobEdits) x hrun
    (.advance fine) x' hstep).1 "den" (.inl hchanged)
  · obtain ⟨_, _, -, hholder'⟩ := howner
    rw [hholder] at hholder'
    cases hholder'
  · exact ⟨x, x', hrun, hstep, hremote⟩

/-- A peer that leaves after it was found connected still has its command applied; and a peer's edit takes back in the file what
an owner's write left there that failed after it replaced the file. -/
theorem authority_late :
    (¬ ∀ (isLinkLocalHost : String → Bool) (owner room : String) (files : Table String Saved) (acts : List Act) (x : Rooms),
      run isLinkLocalHost owner room files acts = some x → ∀ (act : Act) (x' : Rooms),
      x.step isLinkLocalHost act = some x' → ∀ R, Changed R x x' → ByOwner R x act ∨
        ∃ command, ByRemote R x act x' command ∧ command.peer ∈ x.peers) ∧
    ¬ ∀ (isLinkLocalHost : String → Bool) (owner room : String) (files : Table String Saved) (acts : List Act) (x : Rooms),
      run isLinkLocalHost owner room files acts = some x → ∀ (act : Act) (x' : Rooms),
      x.step isLinkLocalHost act = some x' → ∀ R s s', x.files.get R = some s → x'.files.get R = some s' →
        s'.policy.broadcast ≠ s.policy.broadcast → ByOwner R x act := by
  have hleft : (run (fun _ => false) "self" "den" ∅ (bobGranted ++ bobEdits ++ [.disconnect "bob"])).any (fun x =>
      (x.step (fun _ => false) (.advance fine)).any (fun x' => decide (x'.files.get "den" ≠ x.files.get "den" ∧
        x.holder = .tickApply ⟨"bob", "1", .link "carol" true⟩ [] ∧ x.peers = ∅))) = true := by decide
  have htaken : (run (fun _ => false) "self" "den" ∅ (bobGranted ++ ordered (.broadcast false)
      { fine with calls := { Node.healthy with first := .unsynced "sync" } } ++ bobEdits)).any (fun x =>
      (x.step (fun _ => false) (.advance fine)).any (fun x' => decide (
        (x.files.get "den").map (fun s => s.policy.broadcast) = some false ∧
        (x'.files.get "den").map (fun s => s.policy.broadcast) = some true ∧
        x.holder = .tickApply ⟨"bob", "1", .link "carol" true⟩ []))) = true := by decide
  refine ⟨fun hall => ?_, fun hall => ?_⟩
  · obtain ⟨x, hrun, hstep⟩ := (Option.any_eq_true _ _).1 hleft
    obtain ⟨x', hstep, hchanged⟩ := (Option.any_eq_true _ _).1 hstep
    obtain ⟨hchanged, hholder, hpeers⟩ := of_decide_eq_true hchanged
    rcases hall _ _ _ _ _ x hrun _ x' hstep "den" (.inl hchanged) with ⟨_, _, -, hholder'⟩ | ⟨command, -, hpeer⟩
    · rw [hholder] at hholder'
      cases hholder'
    · rw [hpeers] at hpeer
      exact absurd hpeer (Finset.notMem_empty _)
  · obtain ⟨x, hrun, hstep⟩ := (Option.any_eq_true _ _).1 htaken
    obtain ⟨x', hstep, hchanged⟩ := (Option.any_eq_true _ _).1 hstep
    obtain ⟨hbefore, hafter, hholder⟩ := of_decide_eq_true hchanged
    obtain ⟨s, hs, hbroadcast⟩ := map_eq_some_iff.1 hbefore
    obtain ⟨s', hs', hbroadcast'⟩ := map_eq_some_iff.1 hafter
    obtain ⟨_, _, -, hholder'⟩ := hall _ _ _ _ _ x hrun _ x' hstep "den" s s' hs hs' (by
      rw [hbroadcast, hbroadcast']
      decide)
    rw [hholder] at hholder'
    cases hholder'

end Rooms

end Mistl.Graph
