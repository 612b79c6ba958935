import Mistl.TunnelTargets
import Mistl.TunnelTrust
/-!
# TunnelApproval — what was approved, and what it lets through

`tunnel/session.rs`, `tunnel/negotiation.rs`, `tunnel/controller.rs`, `tunnel/auth/pending.rs`.  A session keeps the history
of what was approved and of what the trust store let through; a forward's serial number says which of those that ever ran
it is.  Which proposals a rule resolves, what expires and which writes and sends fail is the environment's.
-/
open List Mistl.Table

namespace Mistl.Tunnel

inductive Direction where
  | serve
  | connect
  deriving DecidableEq

inductive Proto where
  | tcp
  | udp
  deriving DecidableEq

def Proto.fromName (name : String) : Option Proto := if name = "tcp" then some .tcp else if name = "udp" then some .udp else none

/-- `Proto::as_str` -/
def Proto.name : Proto → String
  | .tcp => "tcp"
  | .udp => "udp"

structure ForwardSpec where
  direction : Direction
  proto : Proto
  addr : String
  listenPort : Int
  target : String

def ForwardSpec.backend (spec : ForwardSpec) : String :=
  match spec.proto with
  | .tcp => if spec.addr = "" ∨ ':' ∈ spec.addr.toList then spec.addr else "127.0.0.1:" ++ spec.addr
  | .udp => spec.addr

/-- A forward that runs, and its number among all that were added. -/
structure Forward where
  spec : ForwardSpec
  serial : Nat

structure IncomingForward where
  id : Nat
  reqId : String
  peerId : String
  proto : String
  remoteAddr : String
  target : String

inductive AuthDecision where
  | allow
  | deny
  | allowAlways
  | denyAlways
  deriving DecidableEq

/-- `trust_decision` -/
def AuthDecision.trust : AuthDecision → Option TrustDecision
  | .allowAlways => some .allow
  | .denyAlways => some .deny
  | .allow => none
  | .deny => none

/-- A parked request, the serial number of the forward it came through, and how many connections wait for it. -/
structure PendingItem where
  id : Nat
  request : AuthRequest
  serial : Nat
  waiters : Nat

/-- What is kept for the statements: a decision that allowed a DID for a target, at the address and of the forward that it
was about, and a connection that the trust store allowed. -/
inductive Entry where
  | approved (did target addr : String) (serial : Nat)
  | connected (did target addr : String) (serial : Nat)
  deriving DecidableEq

def maxIncomingPerPeer : Nat := 32

def maxIncomingTotal : Nat := 128

def maxPendingPerPeer : Nat := 8

def maxPendingTotal : Nat := 64

def maxWaitersPerRequest : Nat := 32

/-- What a `SessionContext` knows of proposals, forwards, parked requests and trust.  `made` has the target and the address of
every forward that was added, by serial number. -/
structure Session where
  nextIncoming : Nat
  incoming : List IncomingForward
  forwards : Table String Forward
  made : List (String × String)
  rows : TrustRows
  nextPending : Nat
  pending : List PendingItem
  deciding : List (AuthRequest × TrustDecision)
  history : List Entry

/-- What of a resolution goes well: the session is there, the forward and the trust are written, the peer is told. -/
structure Outcome where
  available : Bool
  stored : Bool
  persisted : Bool
  notified : Bool

namespace Session

def initial : Session := ⟨0, [], ∅, [], ∅, 1, [], [], []⟩

variable (nodeIdForDid : String → String) (isLinkLocalHost : String → Bool)

/-! ## Proposals -/

/-- `ForwardNegotiator::record_incoming`, with nothing to sweep -/
def recordIncoming (s : Session) (reqId peerId proto remoteAddr target : String) : Session :=
  if s.incoming.any (fun f => f.peerId == peerId && f.reqId == reqId) then s
  else if maxIncomingPerPeer ≤ s.incoming.countP (fun f => f.peerId == peerId) ∨ maxIncomingTotal ≤ s.incoming.length then s
  else { s with
    nextIncoming := s.nextIncoming + 1
    incoming := s.incoming ++ [⟨s.nextIncoming + 1, reqId, peerId, proto, remoteAddr, target⟩] }

/-- The handler of `on_forward_request`. -/
def onForwardRequest (s : Session) (reqId peerId proto remoteAddr target : String) : Session :=
  if isLinkLocalHost remoteAddr || !isValidRemoteTarget target then s
  else s.recordIncoming reqId peerId proto remoteAddr target

/-- `take_incoming`, and the sweep of what has expired or was withdrawn -/
def dropIncoming (s : Session) (id : Nat) : Session := { s with incoming := s.incoming.filter (fun f => f.id ≠ id) }

def addForward (s : Session) (spec : ForwardSpec) : Option Session :=
  if spec.target = "" ∨ s.forwards.contains spec.target then none
  else some { s with
    forwards := s.forwards.insert spec.target ⟨spec, s.made.length⟩
    made := s.made ++ [(spec.target, spec.backend)] }

def removeForward (s : Session) (key : String) : Session := { s with forwards := s.forwards.erase key }

/-- `remember_for`, for a proposal that is being accepted. -/
def approve (s : Session) (peerId : String) (did : Option String) (spec : ForwardSpec) : Session := { s with
    rows := s.rows.rememberFor nodeIdForDid peerId did spec.target .allow
    history := s.history ++ (verifiedDid nodeIdForDid peerId did).toList.map (fun d =>
      .approved d spec.target spec.backend ((s.forwards.get spec.target).elim 0 Forward.serial)) }

/-- `resolve_forward_locked`, for a proposal that is to be accepted and passed its checks. -/
def accept (s : Session) (req : IncomingForward) (spec : ForwardSpec) (did : Option String) (outcome : Outcome) : Session :=
  let running := (s.forwards.get spec.target).any (fun fwd =>
    fwd.spec.direction = spec.direction ∧ fwd.spec.proto = spec.proto ∧ fwd.spec.addr = spec.addr)
  match if running then some s else s.addForward spec with
  | none => s
  | some s =>
    if !outcome.stored then s
    else
      let s := s.approve nodeIdForDid req.peerId did spec
      if (verifiedDid nodeIdForDid req.peerId did).isSome && !outcome.persisted then s
      else if outcome.notified then s.dropIncoming req.id else s

/-- `resolve_forward_locked` -/
def resolveForward (s : Session) (id : Nat) (allow : Bool) (did : Option String) (outcome : Outcome) : Session :=
  match s.incoming.find? (fun f => f.id = id) with
  | none => s
  | some req =>
    if !outcome.available then s
    else if !allow then if outcome.notified then s.dropIncoming id else s
    else if isLinkLocalHost req.remoteAddr || !isValidRemoteTarget req.target then s
    else match Proto.fromName req.proto with
      | none => s
      | some proto => s.accept nodeIdForDid req ⟨.serve, proto, req.remoteAddr, -1, req.target⟩ did outcome

/-! ## Connections -/

def enqueue (s : Session) (request : AuthRequest) (serial : Nat) : Session :=
  match s.pending.find? (fun item => item.request = request) with
  | some item =>
    if maxWaitersPerRequest ≤ item.waiters then s
    else { s with pending := s.pending.map (fun x => if x.id = item.id then { x with waiters := x.waiters + 1 } else x) }
  | none =>
    if maxPendingPerPeer ≤ s.pending.countP (fun item => item.request.peerId == request.peerId) ∨
        maxPendingTotal ≤ s.pending.length then s
    else { s with
      nextPending := s.nextPending + 1
      pending := s.pending ++ [⟨s.nextPending, request, serial, 1⟩] }

/-- `PendingAuthorizer::decide`, behind the policy of `ConfiguredAuthorizer`, up to where it waits. -/
def authorize (s : Session) (request : AuthRequest) (serial : Nat) (policy persisted : Bool) : Session :=
  let did := verifiedDid nodeIdForDid request.peerId request.did
  let answer := s.rows.answer nodeIdForDid request.peerId did request.forwardKey
  let s := { s with rows := s.rows.migrate nodeIdForDid request.peerId did request.forwardKey persisted }
  match answer with
  | some .allow =>
    { s with history := s.history ++ did.toList.map (fun d => .connected d request.forwardKey request.targetAddr serial) }
  | some .deny => s
  | none => if policy then s else s.enqueue request serial

def connect (s : Session) (peerId : String) (did : Option String) (target : String) (policy persisted : Bool) : Session :=
  match s.forwards.get target with
  | none => s
  | some fwd =>
    if fwd.spec.direction = .serve then
      s.authorize nodeIdForDid ⟨peerId, target, fwd.spec.backend, fwd.spec.proto.name, did⟩ fwd.serial policy persisted
    else s

/-- `PendingAuthorizations::resolve`: every connection that waits is told the decision. -/
def resolvePending (s : Session) (id : Nat) (decision : AuthDecision) : Session :=
  match s.pending.find? (fun item => item.id = id) with
  | none => s
  | some item => { s with
      pending := s.pending.filter (fun x => x.id ≠ id)
      deciding := s.deciding ++ decision.trust.toList.flatMap (fun t => List.replicate item.waiters (item.request, t))
      history := s.history ++ if decision = .allowAlways then
        (verifiedDid nodeIdForDid item.request.peerId item.request.did).toList.map (fun d =>
          .approved d item.request.forwardKey item.request.targetAddr item.serial) else [] }

/-- What a connection remembers of a decision that it was told, in `decide`. -/
def settle (s : Session) (i : Nat) : Session :=
  match s.deciding[i]? with
  | none => s
  | some (request, trust) => { s with
      rows := s.rows.rememberFor nodeIdForDid request.peerId request.did request.forwardKey trust
      deciding := s.deciding.eraseIdx i }

/-- `remove_unresolved`: a connection waits no more. -/
def stopWaiting (s : Session) (id : Nat) : Session :=
  let pending := s.pending.map (fun x => if x.id = id then { x with waiters := x.waiters - 1 } else x)
  { s with pending := pending.filter (fun x => ¬ (x.id = id ∧ x.waiters = 0)) }

/-- `purge_peer`, of the parked requests and of the proposals -/
def purgePeer (s : Session) (peerId : String) : Session := { s with
    pending := s.pending.filter (fun x => x.request.peerId ≠ peerId)
    incoming := s.incoming.filter (fun x => x.peerId ≠ peerId) }

end Session

/-! ## Runs -/

/-- What happens to a session, with the DID that is verified for the peer at the time. -/
inductive SessionEvent where
  | propose (reqId peerId proto remoteAddr target : String)
  | withdraw (id : Nat)
  | resolve (id : Nat) (allow : Bool) (did : Option String) (outcome : Outcome)
  | add (spec : ForwardSpec)
  | remove (key : String)
  | connect (peerId : String) (did : Option String) (target : String) (policy persisted : Bool)
  | decide (id : Nat) (decision : AuthDecision)
  | settle (i : Nat)
  | stopWaiting (id : Nat)
  | leave (peerId : String)
  | forget (key : TrustKey)

/-- What `verified_did_for_peer` returns is a DID. -/
def SessionEvent.Verified : SessionEvent → Prop
  | .resolve _ _ did _ => ∀ d, did = some d → isDid d = true
  | .connect _ did _ _ _ => ∀ d, did = some d → isDid d = true
  | _ => True

section

variable (nodeIdForDid : String → String) (isLinkLocalHost : String → Bool)

def Session.next (s : Session) : SessionEvent → Session
  | .propose reqId peerId proto remoteAddr target => s.onForwardRequest isLinkLocalHost reqId peerId proto remoteAddr target
  | .withdraw id => s.dropIncoming id
  | .resolve id allow did outcome => s.resolveForward nodeIdForDid isLinkLocalHost id allow did outcome
  | .add spec => (s.addForward spec).getD s
  | .remove key => s.removeForward key
  | .connect peerId did target policy persisted => s.connect nodeIdForDid peerId did target policy persisted
  | .decide id decision => s.resolvePending nodeIdForDid id decision
  | .settle i => s.settle nodeIdForDid i
  | .stopWaiting id => s.stopWaiting id
  | .leave peerId => s.purgePeer peerId
  | .forget key => { s with rows := s.rows.erase key }

def Session.run (s : Session) (events : List SessionEvent) : Session := events.foldl (Session.next nodeIdForDid isLinkLocalHost) s

end

/-! ## The store -/

variable {nodeIdForDid : String → String} {isLinkLocalHost : String → Bool} {s : Session} {rows : TrustRows}

def TrustRows.Keyed (rows : TrustRows) : Prop := ∀ key decision, rows.get key = some decision → isDid key.peerId = true

variable {did : Option String}

theorem verifiedDid_eq_some {peerId d : String} :
    verifiedDid nodeIdForDid peerId did = some d ↔ did = some d ∧ nodeIdForDid d = peerId := by
  rw [verifiedDid, Option.filter_eq_some_iff, decide_eq_true_iff]

theorem TrustRows.Keyed.migrate (h : rows.Keyed) (peerId : String) (did : Option String) (forwardKey : String)
    (persisted : Bool) : rows.migrate nodeIdForDid peerId did forwardKey persisted = rows := by
  unfold TrustRows.migrate
  cases verifiedDid nodeIdForDid peerId did with
  | none => rfl
  | some d =>
    dsimp only
    cases rows.get ⟨d, forwardKey⟩ with
    | some decision => rfl
    | none =>
      dsimp only
      split
      · rfl
      · rename_i hlegacy
        cases hold : rows.get ⟨peerId, forwardKey⟩ with
        | none => rfl
        | some decision => exact absurd (h _ _ hold) hlegacy

variable {peerId forwardKey : String}

theorem TrustRows.Keyed.allowed (h : rows.Keyed)
    (hanswer : rows.answer nodeIdForDid peerId did forwardKey = some .allow) :
    ∃ d, verifiedDid nodeIdForDid peerId did = some d ∧ rows.get ⟨d, forwardKey⟩ = some .allow := by
  unfold TrustRows.answer at hanswer
  cases hdid : verifiedDid nodeIdForDid peerId did with
  | none =>
    rw [hdid] at hanswer
    dsimp only at hanswer
    split at hanswer
    · cases hanswer
    · cases of_decide_eq_true (Option.filter_eq_some_iff.1 hanswer).2
  | some d =>
    rw [hdid] at hanswer
    dsimp only at hanswer
    cases hrow : rows.get ⟨d, forwardKey⟩ with
    | some decision =>
      rw [hrow] at hanswer
      exact ⟨d, rfl, hrow.trans hanswer⟩
    | none =>
      rw [hrow] at hanswer
      dsimp only at hanswer
      split at hanswer
      · cases hanswer
      · rename_i hlegacy
        exact absurd (h _ _ hanswer) hlegacy

/-! ## The invariant -/

def Session.Running (s : Session) : Prop := ∀ target fwd, s.forwards.get target = some fwd →
  s.made[fwd.serial]? = some (target, fwd.spec.backend) ∧ ∀ (n : Nat) addr, s.made[n]? = some (target, addr) → n ≤ fwd.serial

def Session.Backed (s : Session) (did target : String) : Prop := ∃ addr serial, Entry.approved did target addr serial ∈ s.history

/-- Every connection comes after a decision that allowed its DID for its target: at its address, or of an earlier forward. -/
def Traced (history : List Entry) : Prop := ∀ (i : Nat) did target addr serial, history[i]? = some (.connected did target addr serial) →
    ∃ j < i, ∃ addr' serial', history[j]? = some (.approved did target addr' serial') ∧ (addr' = addr ∨ serial' < serial)

/-- **The invariant of the three stores**: every row that allows is backed by a decision, every decision and connection is
about a forward that ran, and every connection comes after a decision. -/
structure Session.Sound (nodeIdForDid : String → String) (s : Session) : Prop where
  keyed : s.rows.Keyed
  backed : ∀ key, s.rows.get key = some .allow → s.Backed key.peerId key.forwardKey
  running : s.Running
  pending : ∀ item ∈ s.pending, s.made[item.serial]? = some (item.request.forwardKey, item.request.targetAddr) ∧
    ∀ d, item.request.did = some d → isDid d = true
  deciding : ∀ x ∈ s.deciding, (∀ d, x.1.did = some d → isDid d = true) ∧ (x.2 = .allow →
    ∀ d, verifiedDid nodeIdForDid x.1.peerId x.1.did = some d → s.Backed d x.1.forwardKey)
  approved : ∀ did target addr serial, Entry.approved did target addr serial ∈ s.history → s.made[serial]? = some (target, addr)
  traced : Traced s.history

theorem Traced.append_approved {history more : List Entry} (h : Traced history)
    (hmore : ∀ e ∈ more, ∃ did target addr serial, e = .approved did target addr serial) : Traced (history ++ more) := by
  intro i did target addr serial hi
  by_cases hlt : i < history.length
  · rw [getElem?_append_left hlt] at hi
    obtain ⟨j, hj, addr', serial', hget, hor⟩ := h i did target addr serial hi
    exact ⟨j, hj, addr', serial', by rw [getElem?_append_left (hj.trans hlt), hget], hor⟩
  · rw [getElem?_append_right (not_lt.1 hlt)] at hi
    obtain ⟨_, _, _, _, heq⟩ := hmore _ (mem_of_getElem? hi)
    cases heq

theorem Traced.append_connected {history : List Entry} (h : Traced history) {did target addr addr' : String}
    {serial serial' : Nat} (hmem : Entry.approved did target addr' serial' ∈ history)
    (hor : addr' = addr ∨ serial' < serial) : Traced (history ++ [.connected did target addr serial]) := by
  intro i did' target' a n hi
  by_cases hlt : i < history.length
  · rw [getElem?_append_left hlt] at hi
    obtain ⟨j, hj, a', n', hget, hor'⟩ := h i did' target' a n hi
    exact ⟨j, hj, a', n', by rw [getElem?_append_left (hj.trans hlt), hget], hor'⟩
  · rw [getElem?_append_right (not_lt.1 hlt)] at hi
    cases mem_singleton.1 (mem_of_getElem? hi)
    obtain ⟨j, hj⟩ := mem_iff_getElem?.1 hmem
    have hjlt := (List.getElem?_eq_some_iff.1 hj).1
    exact ⟨j, hjlt.trans_le (not_lt.1 hlt), addr', serial', by rw [getElem?_append_left hjlt, hj], hor⟩

namespace Session

section

variable (h : s.Sound nodeIdForDid)

include h

theorem Sound.frame {s' : Session} (hrows : s'.rows = s.rows) (hforwards : s'.forwards = s.forwards)
    (hmade : s'.made = s.made) (hhistory : s'.history = s.history)
    (hpending : ∀ x ∈ s'.pending, ∃ y ∈ s.pending, x.serial = y.serial ∧ x.request = y.request)
    (hdeciding : s'.deciding = s.deciding) : s'.Sound nodeIdForDid := by
  refine ⟨hrows ▸ h.keyed, fun key hkey => ?_, fun target fwd hf => ?_, fun x hx => ?_, fun x hx => ?_, ?_, ?_⟩
  · rw [Backed, hhistory]
    exact h.backed key (hrows ▸ hkey)
  · rw [hmade]
    exact h.running target fwd (hforwards ▸ hf)
  · obtain ⟨y, hy, hserial, hrequest⟩ := hpending x hx
    rw [hmade, hserial, hrequest]
    exact h.pending y hy
  · obtain ⟨hdid, hbacked⟩ := h.deciding x (hdeciding ▸ hx)
    refine ⟨hdid, fun ht d hd => ?_⟩
    rw [Backed, hhistory]
    exact hbacked ht d hd
  · rw [hhistory, hmade]
    exact h.approved
  · rw [hhistory]
    exact h.traced

theorem Sound.dropIncoming (id : Nat) : (s.dropIncoming id).Sound nodeIdForDid :=
  h.frame rfl rfl rfl rfl (fun x hx => ⟨x, hx, rfl, rfl⟩) rfl

theorem Sound.propose (reqId peerId proto remoteAddr target : String) :
    (s.onForwardRequest isLinkLocalHost reqId peerId proto remoteAddr target).Sound nodeIdForDid := by
  unfold onForwardRequest recordIncoming
  split
  · exact h
  · split
    · exact h
    · split
      · exact h
      · exact h.frame rfl rfl rfl rfl (fun x hx => ⟨x, hx, rfl, rfl⟩) rfl

theorem Sound.addForward {spec : ForwardSpec} {s' : Session} (hs : s.addForward spec = some s') :
    s'.Sound nodeIdForDid ∧ s'.forwards.get spec.target = some ⟨spec, s.made.length⟩ := by
  unfold Session.addForward at hs
  split at hs
  · cases hs
  · cases hs
    have hkeep : ∀ {n : Nat} {x}, s.made[n]? = some x → (s.made ++ [(spec.target, spec.backend)])[n]? = some x :=
      fun hn => by rw [getElem?_append_left (List.getElem?_eq_some_iff.1 hn).1, hn]
    refine ⟨⟨h.keyed, h.backed, fun target fwd hf => ?_, fun x hx => ?_, h.deciding, fun _ _ _ _ he =>
      hkeep (h.approved _ _ _ _ he), h.traced⟩, get_insert_self _ _ _⟩
    · have hbound : ∀ (n : Nat) x, (s.made ++ [(spec.target, spec.backend)])[n]? = some x →
          n = s.made.length ∧ x = (spec.target, spec.backend) ∨ n < s.made.length ∧ s.made[n]? = some x := by
        intro n x hn
        by_cases hlt : n < s.made.length
        · rw [getElem?_append_left hlt] at hn
          exact .inr ⟨hlt, hn⟩
        · rw [getElem?_append_right (not_lt.1 hlt)] at hn
          have hlen := (List.getElem?_eq_some_iff.1 hn).1
          rw [length_singleton] at hlen
          exact .inl ⟨by omega, mem_singleton.1 (mem_of_getElem? hn)⟩
      rcases of_get_insert hf with ⟨htarget, rfl⟩ | ⟨htarget, hf⟩
      · refine ⟨?_, fun n addr hn => ?_⟩
        · rw [getElem?_append_right le_rfl, Nat.sub_self, htarget]
          rfl
        · rcases hbound n _ hn with ⟨heq, -⟩ | ⟨hlt, -⟩
          · exact heq.le
          · exact hlt.le
      · obtain ⟨hmade, hlast⟩ := h.running target fwd hf
        refine ⟨hkeep hmade, fun n addr hn => ?_⟩
        rcases hbound n _ hn with ⟨-, heq⟩ | ⟨-, hn⟩
        · exact absurd (Prod.mk.inj heq).1 htarget
        · exact hlast n addr hn
    · exact ⟨hkeep (h.pending x hx).1, (h.pending x hx).2⟩

theorem Sound.removeForward (key : String) : (s.removeForward key).Sound nodeIdForDid := by
  refine ⟨h.keyed, h.backed, fun target fwd hf => ?_, h.pending, h.deciding, h.approved, h.traced⟩
  obtain ⟨-, hf⟩ := of_get_erase hf
  exact h.running target fwd hf

theorem Sound.forget (key : TrustKey) : Sound nodeIdForDid { s with rows := s.rows.erase key } := by
  have hrow : ∀ k decision, (s.rows.erase key).get k = some decision → s.rows.get k = some decision := by
    intro k decision hk
    exact (of_get_erase hk).2
  exact ⟨fun k decision hk => h.keyed k decision (hrow k decision hk), fun k hk => h.backed k (hrow k _ hk), h.running,
    h.pending, h.deciding, h.approved, h.traced⟩

end

theorem rememberFor_row {trust : TrustDecision} {key : TrustKey} {decision : TrustDecision}
    (h : (rows.rememberFor nodeIdForDid peerId did forwardKey trust).get key = some decision) :
    rows.get key = some decision ∨ decision = trust ∧ key.forwardKey = forwardKey ∧
      verifiedDid nodeIdForDid peerId did = some key.peerId := by
  unfold TrustRows.rememberFor at h
  cases hdid : verifiedDid nodeIdForDid peerId did with
  | none =>
    rw [hdid] at h
    exact .inl h
  | some d =>
    rw [hdid] at h
    rcases of_get_insert h with ⟨hkey, rfl⟩ | ⟨-, h⟩
    · rw [hkey]
      exact .inr ⟨rfl, rfl, rfl⟩
    · exact .inl h

theorem Sound.settle (h : s.Sound nodeIdForDid) (i : Nat) : (s.settle nodeIdForDid i).Sound nodeIdForDid := by
  unfold Session.settle
  split
  · exact h
  · rename_i request trust hi
    obtain ⟨hdid, hbacked⟩ := h.deciding _ (mem_of_getElem? hi)
    refine ⟨fun key decision hkey => ?_, fun key hkey => ?_, h.running, h.pending,
      fun x hx => h.deciding x (mem_of_mem_eraseIdx hx), h.approved, h.traced⟩
    · rcases rememberFor_row hkey with hold | ⟨-, -, hnew⟩
      · exact h.keyed key decision hold
      · exact hdid _ (verifiedDid_eq_some.1 hnew).1
    · rcases rememberFor_row hkey with hold | ⟨htrust, hforward, hnew⟩
      · exact h.backed key hold
      · rw [hforward]
        exact hbacked htrust.symm _ hnew

theorem Backed.append {did target : String} (h : s.Backed did target) (more : List Entry) :
    ∃ addr serial, Entry.approved did target addr serial ∈ s.history ++ more :=
  let ⟨addr, serial, hmem⟩ := h
  ⟨addr, serial, mem_append_left _ hmem⟩

section

variable (h : s.Sound nodeIdForDid)

include h

theorem Sound.approve {spec : ForwardSpec} {fwd : Forward} (peerId : String)
    (hdid : ∀ d, did = some d → isDid d = true) (hrunning : s.forwards.get spec.target = some fwd)
    (haddr : fwd.spec.backend = spec.backend) : (s.approve nodeIdForDid peerId did spec).Sound nodeIdForDid := by
  have hmade : s.made[fwd.serial]? = some (spec.target, spec.backend) := by
    rw [← haddr]
    exact (h.running _ _ hrunning).1
  have hnew : ∀ e ∈ (verifiedDid nodeIdForDid peerId did).toList.map (fun d =>
      Entry.approved d spec.target spec.backend ((s.forwards.get spec.target).elim 0 Forward.serial)),
      ∃ d, e = .approved d spec.target spec.backend fwd.serial := by
    intro e he
    obtain ⟨d, -, rfl⟩ := mem_map.1 he
    rw [hrunning]
    exact ⟨d, rfl⟩
  refine ⟨fun key decision hkey => ?_, fun key hkey => ?_, h.running, h.pending, fun x hx => ?_, fun d target addr serial he => ?_, ?_⟩
  · rcases rememberFor_row hkey with hold | ⟨-, -, hverified⟩
    · exact h.keyed key decision hold
    · exact hdid _ (verifiedDid_eq_some.1 hverified).1
  · rcases rememberFor_row hkey with hold | ⟨-, hforward, hverified⟩
    · exact (h.backed key hold).append _
    · refine ⟨spec.backend, _, mem_append_right _ (mem_map.2 ⟨key.peerId, ?_, by rw [hforward]⟩)⟩
      rw [hverified]
      exact mem_singleton_self _
  · exact ⟨(h.deciding x hx).1, fun ht d hd => ((h.deciding x hx).2 ht d hd).append _⟩
  · rcases mem_append.1 he with he | he
    · exact h.approved d target addr serial he
    · obtain ⟨_, heq⟩ := hnew _ he
      cases heq
      exact hmade
  · refine h.traced.append_approved (fun e he => ?_)
    obtain ⟨d, rfl⟩ := hnew e he
    exact ⟨d, _, _, _, rfl⟩

theorem Sound.accept (req : IncomingForward) (spec : ForwardSpec)
    (hdid : ∀ d, did = some d → isDid d = true) (outcome : Outcome) :
    (s.accept nodeIdForDid req spec did outcome).Sound nodeIdForDid := by
  have hrest : ∀ {s' : Session} {fwd : Forward}, s'.Sound nodeIdForDid → s'.forwards.get spec.target = some fwd →
      fwd.spec.backend = spec.backend →
      Sound nodeIdForDid (if !outcome.stored then s' else
        if (verifiedDid nodeIdForDid req.peerId did).isSome && !outcome.persisted then
          s'.approve nodeIdForDid req.peerId did spec
        else if outcome.notified then (s'.approve nodeIdForDid req.peerId did spec).dropIncoming req.id
        else s'.approve nodeIdForDid req.peerId did spec) := by
    intro s' fwd hs' hfwd haddr
    have happrove := hs'.approve req.peerId hdid hfwd haddr
    split
    · exact hs'
    · split
      · exact happrove
      · split
        · exact happrove.dropIncoming req.id
        · exact happrove
  unfold Session.accept
  cases hexists : (s.forwards.get spec.target).any (fun fwd =>
      decide (fwd.spec.direction = spec.direction ∧ fwd.spec.proto = spec.proto ∧ fwd.spec.addr = spec.addr)) with
  | true =>
    obtain ⟨fwd, hfwd, hsame⟩ := (Option.any_eq_true _ _).1 hexists
    obtain ⟨-, hproto, haddr⟩ := of_decide_eq_true hsame
    exact hrest h hfwd (by rw [ForwardSpec.backend, ForwardSpec.backend, hproto, haddr])
  | false =>
    cases hadd : s.addForward spec with
    | none => exact h
    | some s' => exact hrest (h.addForward hadd).1 (h.addForward hadd).2 rfl

theorem Sound.resolveForward (id : Nat) (allow : Bool)
    (hdid : ∀ d, did = some d → isDid d = true) (outcome : Outcome) :
    (s.resolveForward nodeIdForDid isLinkLocalHost id allow did outcome).Sound nodeIdForDid := by
  unfold Session.resolveForward
  split
  · exact h
  · split
    · exact h
    · split
      · split
        · exact h.dropIncoming id
        · exact h
      · split
        · exact h
        · split
          · exact h
          · exact h.accept _ _ hdid outcome

theorem Sound.enqueue {request : AuthRequest} {serial : Nat}
    (hmade : s.made[serial]? = some (request.forwardKey, request.targetAddr))
    (hdid : ∀ d, request.did = some d → isDid d = true) : (s.enqueue request serial).Sound nodeIdForDid := by
  unfold Session.enqueue
  split
  · split
    · exact h
    · refine h.frame rfl rfl rfl rfl (fun x hx => ?_) rfl
      obtain ⟨y, hy, rfl⟩ := mem_map.1 hx
      refine ⟨y, hy, ?_⟩
      split <;> exact ⟨rfl, rfl⟩
  · split
    · exact h
    · refine ⟨h.keyed, h.backed, h.running, fun x hx => ?_, h.deciding, h.approved, h.traced⟩
      rcases mem_append.1 hx with hx | hx
      · exact h.pending x hx
      · rw [mem_singleton.1 hx]
        exact ⟨hmade, hdid⟩

/-- **A connection that the store allows** comes through the forward of its target that was added last. -/
theorem Sound.connect (peerId : String)
    (hdid : ∀ d, did = some d → isDid d = true) (target : String) (policy persisted : Bool) :
    (s.connect nodeIdForDid peerId did target policy persisted).Sound nodeIdForDid := by
  unfold Session.connect
  cases hfwd : s.forwards.get target with
  | none => exact h
  | some fwd =>
    dsimp only
    split
    · obtain ⟨hmade, hlast⟩ := h.running target fwd hfwd
      unfold Session.authorize
      dsimp only
      rw [h.keyed.migrate]
      split
      · rename_i hanswer
        obtain ⟨d, hverified, hrow⟩ := h.keyed.allowed hanswer
        obtain ⟨addr', serial', hmem⟩ := h.backed _ hrow
        have hold := h.approved _ _ _ _ hmem
        rw [(verifiedDid_eq_some.1 hverified).1]
        have hor : addr' = fwd.spec.backend ∨ serial' < fwd.serial := by
          rcases (hlast serial' addr' hold).eq_or_lt with heq | hlt
          · rw [heq, hmade] at hold
            cases hold
            exact .inl rfl
          · exact .inr hlt
        refine ⟨h.keyed, fun key hkey => (h.backed key hkey).append _, h.running, h.pending, fun x hx => ?_,
          fun _ _ _ _ he => ?_, h.traced.append_connected hmem hor⟩
        · exact ⟨(h.deciding x hx).1, fun ht d hd => ((h.deciding x hx).2 ht d hd).append _⟩
        · rcases mem_append.1 he with he | he
          · exact h.approved _ _ _ _ he
          · cases mem_singleton.1 he
      · exact h
      · split
        · exact h
        · exact h.enqueue hmade hdid
    · exact h

theorem Sound.resolvePending (id : Nat) (decision : AuthDecision) : (s.resolvePending nodeIdForDid id decision).Sound nodeIdForDid := by
  unfold Session.resolvePending
  split
  · exact h
  · rename_i item hitem
    obtain ⟨hmade, hdid⟩ := h.pending item (mem_of_find?_eq_some hitem)
    refine ⟨h.keyed, fun key hkey => (h.backed key hkey).append _, h.running, fun x hx => h.pending x (mem_filter.1 hx).1,
      fun x hx => ?_, fun d target addr serial he => ?_, h.traced.append_approved (fun e he => ?_)⟩
    · rcases mem_append.1 hx with hx | hx
      · exact ⟨(h.deciding x hx).1, fun ht d hd => ((h.deciding x hx).2 ht d hd).append _⟩
      · obtain ⟨trust, htrust, hx⟩ := mem_flatMap.1 hx
        rw [(mem_replicate.1 hx).2]
        refine ⟨hdid, fun ht d hd => ?_⟩
        have halways : decision = .allowAlways := by
          dsimp only at ht
          rw [ht] at htrust
          cases decision with
          | allowAlways => rfl
          | _ => exact absurd (Option.mem_toList.1 htrust) nofun
        refine ⟨item.request.targetAddr, item.serial, mem_append_right _ ?_⟩
        rw [if_pos halways, hd]
        exact mem_singleton_self _
    · rcases mem_append.1 he with he | he
      · exact h.approved d target addr serial he
      · split at he
        · obtain ⟨d', -, heq⟩ := mem_map.1 he
          cases heq
          exact hmade
        · cases he
    · split at he
      · obtain ⟨d, -, rfl⟩ := mem_map.1 he
        exact ⟨d, _, _, _, rfl⟩
      · cases he

theorem Sound.next (e : SessionEvent) (hverified : e.Verified) : (s.next nodeIdForDid isLinkLocalHost e).Sound nodeIdForDid := by
  cases e with
  | propose reqId peerId proto remoteAddr target => exact h.propose reqId peerId proto remoteAddr target
  | withdraw id => exact h.dropIncoming id
  | resolve id allow did outcome => exact h.resolveForward id allow hverified outcome
  | add spec =>
    show ((s.addForward spec).getD s).Sound nodeIdForDid
    cases hadd : s.addForward spec with
    | none => exact h
    | some s' => exact (h.addForward hadd).1
  | remove key => exact h.removeForward key
  | connect peerId did target policy persisted => exact h.connect peerId hverified target policy persisted
  | decide id decision => exact h.resolvePending id decision
  | settle i => exact h.settle i
  | stopWaiting id =>
    refine h.frame rfl rfl rfl rfl (fun x hx => ?_) rfl
    obtain ⟨y, hy, rfl⟩ := mem_map.1 (mem_filter.1 hx).1
    refine ⟨y, hy, ?_⟩
    split <;> exact ⟨rfl, rfl⟩
  | leave peerId => exact h.frame rfl rfl rfl rfl (fun x hx => ⟨x, (mem_filter.1 hx).1, rfl, rfl⟩) rfl
  | forget key => exact h.forget key

end

theorem Sound.run : ∀ (events : List SessionEvent) {s : Session}, s.Sound nodeIdForDid → (∀ e ∈ events, e.Verified) →
    (s.run nodeIdForDid isLinkLocalHost events).Sound nodeIdForDid
  | [], _, h, _ => h
  | e :: events, _, h, hverified =>
    Sound.run events (h.next e (hverified e mem_cons_self)) (fun e' he => hverified e' (mem_cons_of_mem _ he))

theorem sound_initial : Sound nodeIdForDid initial := by
  refine ⟨fun _ _ h => ?_, fun _ h => ?_, fun _ _ h => ?_, nofun, nofun, nofun, fun i _ _ _ _ h => ?_⟩
  iterate 3
    rw [initial, get_empty] at h
    cases h
  · cases h

end Session

/-- **What the trust store lets through was approved before**, for the same DID and the same target: at the same address,
unless the forward that the decision was about is no longer the one that runs under the target. -/
theorem allowed_was_approved (nodeIdForDid : String → String) (isLinkLocalHost : String → Bool) (events : List SessionEvent)
    (hverified : ∀ e ∈ events, e.Verified) (i : Nat) (did target addr : String) (serial : Nat)
    (h : (Session.initial.run nodeIdForDid isLinkLocalHost events).history[i]? = some (.connected did target addr serial)) :
    ∃ j < i, ∃ addr' serial', (Session.initial.run nodeIdForDid isLinkLocalHost events).history[j]? =
      some (.approved did target addr' serial') ∧ (addr' = addr ∨ serial' < serial) :=
  (Session.Sound.run events Session.sound_initial hverified).traced i did target addr serial h

/-! ## Runs -/

/-- A proposal of alice for port 8080 that is accepted; the forward is removed, and another one added under its target. -/
def replacedForward : List SessionEvent := [.propose "r1" "64e12049417a4f7a" "tcp" "127.0.0.1:8080" "tcp:8080",
    .resolve 1 true (some "did:key:zAlice") ⟨true, true, true, true⟩,
    .remove "tcp:8080",
    .add ⟨.serve, .tcp, "127.0.0.1:22", -1, "tcp:8080"⟩,
    .connect "64e12049417a4f7a" (some "did:key:zAlice") "tcp:8080" false true]

theorem replacedForward_history : (Session.initial.run aliceNode (fun _ => false) replacedForward).history =
    [.approved "did:key:zAlice" "tcp:8080" "127.0.0.1:8080" 0, .connected "did:key:zAlice" "tcp:8080" "127.0.0.1:22" 1] := by
  decide

theorem replacedForward_verified : ∀ e ∈ replacedForward, e.Verified := by
  intro e he
  simp only [replacedForward, mem_cons, not_mem_nil, or_false] at he
  rcases he with rfl | rfl | rfl | rfl | rfl
  · trivial
  · intro d h
    cases h
    decide
  · trivial
  · trivial
  · intro d h
    cases h
    decide

theorem allowed_was_approved_alice : ∃ j < 1, ∃ addr' serial',
    (Session.initial.run aliceNode (fun _ => false) replacedForward).history[j]? =
      some (.approved "did:key:zAlice" "tcp:8080" addr' serial') ∧ (addr' = "127.0.0.1:22" ∨ serial' < 1) :=
  allowed_was_approved aliceNode (fun _ => false) replacedForward replacedForward_verified 1 "did:key:zAlice" "tcp:8080"
    "127.0.0.1:22" 1 (by rfl)

/-- A connection to an address that no decision allowed. -/
theorem other_address_allowed : ¬ ∀ (nodeIdForDid : String → String) (isLinkLocalHost : String → Bool)
    (events : List SessionEvent), (∀ e ∈ events, e.Verified) → ∀ (i : Nat) did target addr serial,
    (Session.initial.run nodeIdForDid isLinkLocalHost events).history[i]? = some (.connected did target addr serial) →
    ∃ j < i, ∃ target' serial', (Session.initial.run nodeIdForDid isLinkLocalHost events).history[j]? =
      some (.approved did target' addr serial') := by
  intro h
  obtain ⟨j, hj, target', serial', hget⟩ := h aliceNode (fun _ => false) replacedForward replacedForward_verified 1
    "did:key:zAlice" "tcp:8080" "127.0.0.1:22" 1 (by rfl)
  rw [Nat.lt_one_iff.1 hj] at hget
  have haddr : "127.0.0.1:8080" = "127.0.0.1:22" := (Entry.approved.inj (Option.some.inj hget)).2.2.1
  exact absurd haddr (by decide)

end Mistl.Tunnel
