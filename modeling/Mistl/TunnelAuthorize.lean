import Mistl.TunnelConns
/-!
# TunnelAuthorize — whose authorization opens a connection

An authorization finds its connection by the id that the peer chose.  `Alone` says that no connection is tracked under an id
for which an authorization is unfinished.
-/
open List Mistl.Table

namespace Mistl.Tunnel

variable {target remoteAddr : String} {s s' : State} {act : Act}

def Task.authorizes : Task → Option String
  | .authorize _ _ connId _ => some connId
  | _ => none

/-- **No connection is tracked under an id for which an authorization is unfinished.** -/
def Alone (s : State) : Act → Prop
  | .tracks connId => ∀ t ∈ s.tasks, t.authorizes ≠ some connId
  | _ => True

def Phase.arc : Phase → Option Nat
  | .promoting arc => some arc
  | .replaying arc _ _ => some arc
  | _ => none

def Phase.decision : Phase → Option Bool
  | .deciding => none
  | .decided allowed => some allowed
  | .closing .denied => some false
  | _ => some true

namespace State

/-- What holds of an authorization: it is that of a connection under its id, no other connection is tracked there, and it
goes by what the authorizer answered. -/
def Bound (s : State) : Task → Prop
  | .authorize own req connId phase =>
      (∃ cell, s.heap[own]? = some cell ∧ cell.id = connId ∧ cell.asked = some req) ∧
      (∀ arc, s.conns.get connId = some arc → arc = own) ∧ (∀ arc, phase.arc = some arc → arc = own) ∧
      ∀ allowed, phase.decision = some allowed → .answered own req allowed ∈ s.log
  | _ => True

/-- The connection `arc` may be open: it is a local one, or its own request was allowed. -/
def Allowed (s : State) (arc : Nat) (cell : Cell) : Prop := ∀ req, cell.asked = some req → .answered arc req true ∈ s.log

/-- **The invariant of the authorizations.** -/
structure Sound (s : State) : Prop where
  tasks : ∀ t ∈ s.tasks, s.Bound t
  asked : ∀ (arc : Nat) cell req, s.heap[arc]? = some cell → cell.asked = some req →
    req.peerId = cell.conn.peerId ∧ req.did = cell.conn.did
  active : ∀ (arc : Nat) cell, s.heap[arc]? = some cell → cell.conn.state.isActive = true → s.Allowed arc cell
  refused : ∀ arc connId own, .closed arc connId (some own) ∈ s.log → arc = own ∧ ∃ req, .answered own req false ∈ s.log

/-- A step that leaves the owners of the connections alone. -/
structure Keeps (s s' : State) : Prop where
  cells : ∀ (arc : Nat) cell, s.heap[arc]? = some cell →
    ∃ cell', s'.heap[arc]? = some cell' ∧ cell'.id = cell.id ∧ cell'.asked = cell.asked
  old : ∀ (arc : Nat) cell', s'.heap[arc]? = some cell' →
    (∃ cell, s.heap[arc]? = some cell ∧ cell'.asked = cell.asked ∧ cell'.conn.peerId = cell.conn.peerId ∧
      cell'.conn.did = cell.conn.did ∧
      (cell'.conn.state.isActive = true → cell.conn.state.isActive = true ∨ s'.Allowed arc cell')) ∨
    (∀ req, cell'.asked = some req → req.peerId = cell'.conn.peerId ∧ req.did = cell'.conn.did) ∧
      (cell'.conn.state.isActive = true → cell'.asked = none)
  conns : ∀ connId arc, s'.conns.get connId = some arc → s.conns.get connId = some arc ∨ ∀ t ∈ s.tasks, t.authorizes ≠ some connId
  log : ∀ e ∈ s.log, e ∈ s'.log
  closed : ∀ arc connId own, .closed arc connId (some own) ∈ s'.log → .closed arc connId (some own) ∈ s.log ∨
    arc = own ∧ ∃ req, .answered own req false ∈ s.log

theorem Bound.next {own : Nat} {req : AuthRequest} {connId : String} {phase phase' : Phase}
    (hb : s.Bound (.authorize own req connId phase)) (hm : .authorize own req connId phase ∈ s.tasks) (hk : Keeps s s')
    (harc : ∀ arc, phase'.arc = some arc → arc = own)
    (hanswer : ∀ allowed, phase'.decision = some allowed → .answered own req allowed ∈ s'.log) :
    s'.Bound (.authorize own req connId phase') := by
  obtain ⟨⟨cell, hcell, hid, hreq⟩, hown, -, -⟩ := hb
  obtain ⟨cell', hcell', hid', hreq'⟩ := hk.cells own cell hcell
  refine ⟨⟨cell', hcell', hid'.trans hid, hreq'.trans hreq⟩, fun arc h => ?_, harc, hanswer⟩
  rcases hk.conns connId arc h with h | h
  · exact hown arc h
  · exact absurd rfl (h _ hm)

theorem Bound.keep {t : Task} (hb : s.Bound t) (hm : t ∈ s.tasks) (hk : Keeps s s') : s'.Bound t := by
  cases t with
  | authorize own req connId phase => exact hb.next hm hk hb.2.2.1 (fun allowed h => hk.log _ (hb.2.2.2 allowed h))
  | _ => trivial

/-- **A step that leaves the owners alone** keeps the invariant, where it does for the tasks that are new. -/
theorem Sound.keep (hs : s.Sound) (hk : Keeps s s') (ht : ∀ t ∈ s'.tasks, t ∈ s.tasks ∨ s'.Bound t) : s'.Sound where
  tasks := fun t hm => by
    rcases ht t hm with h | h
    · exact (hs.tasks t h).keep h hk
    · exact h
  asked := fun arc cell' req hcell' hreq => by
    rcases hk.old arc cell' hcell' with ⟨cell, hcell, hasked, hpeer, hdid, -⟩ | ⟨hnew, -⟩
    · rw [hpeer, hdid]
      exact hs.asked arc cell req hcell (hasked ▸ hreq)
    · exact hnew req hreq
  active := fun arc cell' hcell' ha => by
    rcases hk.old arc cell' hcell' with ⟨cell, hcell, hasked, -, -, hact⟩ | ⟨-, hnew⟩
    · rcases hact ha with h | h
      · intro req hreq
        exact hk.log _ (hs.active arc cell hcell h req (hasked ▸ hreq))
      · exact h
    · intro req hreq
      rw [hnew ha] at hreq
      cases hreq
  refused := fun arc connId own h => by
    have hboth : arc = own ∧ ∃ req, .answered own req false ∈ s.log := (hk.closed arc connId own h).elim (hs.refused arc connId own) id
    obtain ⟨heq, req, hreq⟩ := hboth
    exact ⟨heq, req, hk.log _ hreq⟩

theorem Keeps.same (hheap : s'.heap = s.heap)
    (hconns : ∀ connId arc, s'.conns.get connId = some arc → s.conns.get connId = some arc) (more : List Event)
    (hlog : s'.log = s.log ++ more) (hmore : ∀ arc connId own, .closed arc connId (some own) ∈ more →
      arc = own ∧ ∃ req, .answered own req false ∈ s.log) : Keeps s s' where
  cells := fun arc cell h => ⟨cell, by rw [hheap]; exact h, rfl, rfl⟩
  old := fun arc cell h => .inl ⟨cell, by rw [← hheap]; exact h, rfl, rfl, rfl, .inl⟩
  conns := fun connId arc h => .inl (hconns connId arc h)
  log := fun e h => by rw [hlog]; exact mem_append_left _ h
  closed := fun arc connId own h => by
    rw [hlog] at h
    exact (mem_append.1 h).imp_right (hmore arc connId own)

theorem Keeps.set {arc : Nat} {cell cell' : Cell} (hcell : s.heap[arc]? = some cell)
    (hheap : s'.heap = s.heap.set arc cell') (hconns : s'.conns = s.conns) (hid : cell'.id = cell.id)
    (hasked : cell'.asked = cell.asked) (hpeer : cell'.conn.peerId = cell.conn.peerId)
    (hdid : cell'.conn.did = cell.conn.did)
    (hactive : cell'.conn.state.isActive = true → cell.conn.state.isActive = true ∨ s'.Allowed arc cell')
    (more : List Event) (hlog : s'.log = s.log ++ more)
    (hmore : ∀ arc connId own, .closed arc connId (some own) ∉ more) : Keeps s s' where
  cells := fun i c h => by
    rw [hheap, getElem?_set]
    by_cases hi : arc = i
    · subst hi
      rw [hcell] at h
      cases h
      exact ⟨cell', by rw [if_pos rfl, if_pos (List.getElem?_eq_some_iff.1 hcell).1], hid, hasked⟩
    · exact ⟨c, by rw [if_neg hi]; exact h, rfl, rfl⟩
  old := fun i c h => by
    rw [hheap, getElem?_set] at h
    by_cases hi : arc = i
    · subst hi
      rw [if_pos rfl, if_pos (List.getElem?_eq_some_iff.1 hcell).1] at h
      cases h
      exact .inl ⟨cell, hcell, hasked, hpeer, hdid, hactive⟩
    · rw [if_neg hi] at h
      exact .inl ⟨c, h, rfl, rfl, rfl, .inl⟩
  conns := fun connId i h => .inl (by rwa [hconns] at h)
  log := fun e h => by rw [hlog]; exact mem_append_left _ h
  closed := fun i connId own h => by
    rw [hlog] at h
    exact .inl ((mem_append.1 h).resolve_right (hmore i connId own))

theorem Keeps.track {connId : String} {cell : Cell} (hheap : s'.heap = s.heap ++ [cell])
    (hconns : s'.conns = s.conns.insert connId s.heap.length) (hlog : s'.log = s.log)
    (halone : ∀ t ∈ s.tasks, t.authorizes ≠ some connId)
    (hasked : ∀ req, cell.asked = some req → req.peerId = cell.conn.peerId ∧ req.did = cell.conn.did)
    (hactive : cell.conn.state.isActive = true → cell.asked = none) : Keeps s s' where
  cells := fun i c h => by
    refine ⟨c, ?_, rfl, rfl⟩
    rw [hheap, getElem?_append_left (List.getElem?_eq_some_iff.1 h).1]
    exact h
  old := fun i c h => by
    rw [hheap] at h
    by_cases hi : i < s.heap.length
    · rw [getElem?_append_left hi] at h
      exact .inl ⟨c, h, rfl, rfl, rfl, .inl⟩
    · rw [getElem?_append_right (not_lt.1 hi)] at h
      have hc := mem_of_getElem? h
      rw [mem_singleton.1 hc]
      exact .inr ⟨hasked, hactive⟩
  conns := fun x i h => by
    rw [hconns, get_insert] at h
    by_cases hx : x = connId
    · exact .inr (hx ▸ halone)
    · rw [if_neg hx] at h
      exact .inl h
  log := fun e h => by rwa [hlog]
  closed := fun i x own h => .inl (by rwa [hlog] at h)

theorem Sound.become {i : Nat} {t : Task} (hs : s.Sound) (hk : Keeps s s') (htasks : s'.tasks = s.tasks.set i t)
    (ht : s'.Bound t) : s'.Sound :=
  hs.keep hk (fun x hx => by
    rw [htasks] at hx
    rcases mem_or_eq_of_mem_set hx with hx | rfl
    · exact .inl hx
    · exact .inr ht)

theorem Sound.spawn {t : Task} (hs : s.Sound) (hk : Keeps s s') (htasks : s'.tasks = s.tasks ++ [t])
    (ht : s'.Bound t) : s'.Sound :=
  hs.keep hk (fun x hx => by
    rw [htasks] at hx
    rcases mem_append.1 hx with hx | hx
    · exact .inl hx
    · rw [mem_singleton.1 hx]
      exact .inr ht)

theorem Sound.idle (hs : s.Sound) (hheap : s'.heap = s.heap) (hconns : s'.conns = s.conns) (htasks : s'.tasks = s.tasks)
    (hlog : s'.log = s.log) : s'.Sound :=
  hs.keep (.same hheap (fun _ _ h => by rwa [hconns] at h) [] (by rw [hlog, append_nil]) nofun)
    (fun t ht => .inl (by rwa [htasks] at ht))

theorem Keeps.task (hheap : s'.heap = s.heap) (hconns : s'.conns = s.conns) (hlog : s'.log = s.log) : Keeps s s' :=
  .same hheap (fun _ _ h => by rwa [hconns] at h) [] (by rw [hlog, append_nil]) nofun

theorem events_not_closed (after : After) (arc : Nat) (connId : String) (own : Nat) : .closed arc connId (some own) ∉ after.events := by
  cases after <;> simp [After.events]

theorem bound_task (after : After) : s.Bound after.task := by
  cases after <;> trivial

theorem Sound.resume (hs : s.Sound) (i : Nat) (after : After) : (s.resume i after).Sound :=
  hs.become (.same rfl (fun _ _ h => h) after.events rfl (fun arc connId own h =>
    absurd h (events_not_closed after arc connId own))) rfl (bound_task after)

/-- **A close** keeps the invariant, where the connection it takes is the one that was denied. -/
theorem Sound.closeConn (hs : s.Sound) (i : Nat) (connId : String) (refused : Option Nat) (after : After)
    (hrefused : ∀ arc own, s.conns.get connId = some arc → refused = some own →
      arc = own ∧ ∃ req, .answered own req false ∈ s.log) : (s.closeConn i connId refused after).Sound := by
  cases hget : s.conns.get connId with
  | none =>
    rw [closeConn_of_none hget]
    exact hs.resume i after
  | some arc =>
    rw [closeConn_of_some hget]
    refine hs.become (.same rfl (fun _ _ h => (of_get_erase h).2) _ rfl (fun a x own h => ?_)) rfl trivial
    cases mem_singleton.1 h
    exact hrefused arc own hget rfl

theorem Sound.loopCloseConn (hs : s.Sound) (connId : String) : (s.loopCloseConn connId).Sound := by
  cases hget : s.conns.get connId with
  | none =>
    rw [loopCloseConn_of_none hget]
    exact hs.idle rfl rfl rfl rfl
  | some arc =>
    rw [loopCloseConn_of_some hget]
    refine hs.keep (.same rfl (fun _ _ h => (of_get_erase h).2) _ rfl (fun a x own h => ?_)) (fun t ht => .inl ht)
    cases mem_singleton.1 h

theorem settle_fields (s : State) (arc : Nat) : (s.settle arc).heap = s.heap ∧ (s.settle arc).conns = s.conns ∧
    (s.settle arc).tasks = s.tasks ∧ (s.settle arc).log = s.log := by
  unfold settle
  split <;> exact ⟨rfl, rfl, rfl, rfl⟩

theorem Keeps.writer {arc : Nat} {cell : Cell} {writer : Socket} (hcell : s.heap[arc]? = some cell)
    (hstate : cell.conn.state = .active writer) (writer' : Socket) (held : Bool)
    (hheap : s'.heap = s.heap.set arc (cell.withWriter writer' held)) (hconns : s'.conns = s.conns)
    (hlog : s'.log = s.log) : Keeps s s' :=
  .set hcell hheap hconns rfl rfl rfl rfl (fun _ => .inl (by rw [hstate]; rfl)) [] (by rw [hlog, append_nil]) nofun

theorem Sound.step (hs : s.Sound) (hok : Alone s act) (h : Step target remoteAddr s act s') : s'.Sound := by
  cases h with
  | receive | check | closeFrom | cancel => exact hs.idle rfl rfl rfl rfl
  | track busy hloop =>
    unfold trackPendingConn
    split
    · refine hs.spawn (.track rfl rfl rfl hok (fun req hreq => ?_) nofun) rfl
        ⟨⟨_, getElem?_concat_length, rfl, rfl⟩, ?_, nofun, nofun⟩
      · cases hreq
        exact ⟨rfl, rfl⟩
      · intro arc h
        rw [get_insert_self] at h
        exact (Option.some.inj h).symm
    · exact hs.idle rfl rfl rfl rfl
  | observe hloop hcell hheld =>
    rename_i arc tm cell
    obtain ⟨hpeer, hdid, hactive⟩ := cell.conn.receive_owner tm
    exact hs.keep (.set hcell rfl rfl rfl rfl hpeer hdid (fun h => .inl (hactive ▸ h)) [] (append_nil _).symm nofun)
      (fun t ht => .inl ht)
  | write n hloop hcell hstate | writeFails hloop hcell hstate =>
    exact hs.keep (.writer hcell hstate _ _ rfl rfl rfl) (fun t ht => .inl ht)
  | loopClose => exact hs.loopCloseConn _
  | loopSettle =>
    obtain ⟨hheap, hconns, htasks, hlog⟩ := s.settle_fields ‹Nat›
    exact hs.idle hheap hconns htasks hlog
  | answer allowed ht =>
    have hm := mem_of_getElem? ht
    rename_i i own req connId
    have hk : Keeps s { s.become i (.authorize own req connId (.decided allowed)) with
        log := s.log ++ [.answered own req allowed] } := .same rfl (fun _ _ h => h) [.answered own req allowed] rfl (by simp)
    refine hs.become hk rfl ((hs.tasks _ hm).next hm hk nofun (fun b h => ?_))
    cases h
    exact mem_append_right _ (mem_singleton_self _)
  | decided ht =>
    rename_i i own req connId allowed
    have hm := mem_of_getElem? ht
    have hk : ∀ t, Keeps s (s.become i t) := fun t => .task rfl rfl rfl
    refine hs.become (hk _) rfl ?_
    by_cases hstop : s.cancelled = true ∨ s.conns.contains connId = false
    · rw [if_pos hstop]
      trivial
    · rw [if_neg hstop]
      refine (hs.tasks _ hm).next hm (hk _) (fun arc h => ?_) (fun b h => ?_)
      · cases allowed <;> cases h
      · cases allowed <;> cases h <;> exact (hs.tasks _ hm).2.2.2 _ rfl
  | connect ht =>
    have hm := mem_of_getElem? ht
    refine hs.become (.task rfl rfl rfl) rfl ?_
    split
    · trivial
    · exact (hs.tasks _ hm).next hm (.task rfl rfl rfl) nofun (fun b h => (hs.tasks _ hm).2.2.2 b h)
  | connectFails ht =>
    have hm := mem_of_getElem? ht
    exact hs.become (.task rfl rfl rfl) rfl
      ((hs.tasks _ hm).next hm (.task rfl rfl rfl) nofun (fun b h => (hs.tasks _ hm).2.2.2 b h))
  | lookUp ht =>
    have hm := mem_of_getElem? ht
    refine hs.become (.task rfl rfl rfl) rfl ?_
    cases hget : s.conns.get _ with
    | none => trivial
    | some arc =>
      refine (hs.tasks _ hm).next hm (.task rfl rfl rfl) (fun a h => ?_) (fun b h => (hs.tasks _ hm).2.2.2 b h)
      cases h
      exact (hs.tasks _ hm).2.1 _ hget
  | promote ht hcell hheld hstate =>
    have hm := mem_of_getElem? ht
    rename_i i own req connId arc cell buffered bufferedBytes
    obtain ⟨⟨c, hc, hid, hreq⟩, -, harc, hanswer⟩ := hs.tasks _ hm
    obtain rfl := harc arc rfl
    rw [hcell] at hc
    cases hc
    have hk : Keeps s { (s.setConn arc (cell.withWriter ⟨[], false⟩ true)).become i
        (.authorize arc req connId (.replaying arc [] buffered)) with
        activeConns := s.activeConns + 1
        log := s.log ++ [.attached arc connId] } := by
      refine .set hcell rfl rfl rfl rfl rfl rfl (fun _ => .inr (fun r hr => ?_)) [.attached arc connId] rfl (by simp)
      rw [show (cell.withWriter ⟨[], false⟩ true).asked = cell.asked from rfl, hreq] at hr
      cases hr
      exact mem_append_left _ (hanswer true rfl)
    refine hs.become hk rfl ((hs.tasks _ hm).next hm hk (fun a h => ?_) (fun b h => hk.log _ (hanswer b h)))
    cases h
    rfl
  | promoteLate ht | dialFails | forwardEnds | sweepEnds => exact hs.become (.task rfl rfl rfl) rfl trivial
  | replayNext ht =>
    have hm := mem_of_getElem? ht
    exact hs.become (.task rfl rfl rfl) rfl ((hs.tasks _ hm).next hm (.task rfl rfl rfl) (hs.tasks _ hm).2.2.1
      (fun b h => (hs.tasks _ hm).2.2.2 b h))
  | replayWrite n ht hcell hstate =>
    have hm := mem_of_getElem? ht
    exact hs.become (.writer hcell hstate _ _ rfl rfl rfl) rfl
      ((hs.tasks _ hm).next hm (.writer hcell hstate _ _ rfl rfl rfl) (hs.tasks _ hm).2.2.1 (fun b h => (hs.tasks _ hm).2.2.2 b h))
  | replayFails ht hcell hstate =>
    have hm := mem_of_getElem? ht
    exact hs.become (.writer hcell hstate _ _ rfl rfl rfl) rfl
      ((hs.tasks _ hm).next hm (.writer hcell hstate _ _ rfl rfl rfl) nofun (fun b h => (hs.tasks _ hm).2.2.2 b h))
  | replayDone ht hcell => exact hs.become (.set hcell rfl rfl rfl rfl rfl rfl .inl [.forwarding _] rfl (by simp)) rfl trivial
  | authorizeClose ht =>
    have hm := mem_of_getElem? ht
    refine hs.closeConn _ _ _ _ (fun arc own hget hrefused => ?_)
    obtain ⟨-, hown, -, hanswer⟩ := hs.tasks _ hm
    split at hrefused
    · rename_i hwhy
      cases hrefused
      cases hwhy
      exact ⟨hown arc hget, _, hanswer false rfl⟩
    · cases hrefused
  | dial connId peerId => exact hs.spawn (.track rfl rfl rfl hok nofun (fun _ => rfl)) rfl trivial
  | dialed => exact hs.resume _ _
  | sweep => exact hs.spawn (.task rfl rfl rfl) rfl trivial
  | sweepNext =>
    refine hs.become (.task rfl rfl rfl) rfl ?_
    split <;> trivial
  | close => exact hs.closeConn _ _ _ _ nofun
  | settle =>
    obtain ⟨hheap, hconns, htasks, hlog⟩ := s.settle_fields ‹Nat›
    exact (hs.idle hheap hconns htasks hlog).resume _ _

/-- **Every open connection goes back to its own request**, and every denial took its own connection. -/
def OwnDecision (s : State) : Prop :=
  (∀ (arc : Nat) cell req, s.heap[arc]? = some cell → cell.asked = some req → cell.conn.state.isActive = true →
    req.peerId = cell.conn.peerId ∧ req.did = cell.conn.did ∧ .answered arc req true ∈ s.log) ∧
  ∀ arc connId own, .closed arc connId (some own) ∈ s.log → arc = own ∧ ∃ req, .answered own req false ∈ s.log

end State

theorem Reach.sound (h : Reach target remoteAddr Alone s) : s.Sound := by
  induction h with
  | refl => exact ⟨nofun, nofun, nofun, nofun⟩
  | tail _ hok hstep ih => exact ih.step hok hstep

/-- **A connection is opened by its own authorization.**  In a run in which no connection is tracked under an id for which
an authorization is unfinished, an open connection was allowed in answer to the request of its own connect, and a denial
closes no connection but the one that it answers. -/
theorem opened_by_own_authorization (target remoteAddr : String) (s : State) (h : Reach target remoteAddr Alone s) : s.OwnDecision :=
  ⟨fun arc cell req hcell hreq ha =>
    ⟨(h.sound.asked arc cell req hcell hreq).1, (h.sound.asked arc cell req hcell hreq).2, h.sound.active arc cell hcell ha req hreq⟩,
    h.sound.refused⟩

/-! ## Runs -/

/-- Bob's connection under the id that Alice's had -/
abbrev reopened (phase : Phase) (log : List Event) : State := ⟨[opened "alice" false, waiting "bob"], insert ∅ "x" 1, 0, .idle,
    [.forward "x", .authorize 1 (request "bob") "x" phase], false, openedAndClosed ++ log⟩

/-- A connection that is opened and closed, and another peer's under the same id, which its own authorization opens. -/
theorem opened_by_own_authorization_bob : (State.mk [opened "alice" false, opened "bob" true] (insert ∅ "x" 1) 1 .idle
    [.forward "x", .authorize 1 (request "bob") "x" (.replaying 1 [] [])] false
    (openedAndClosed ++ [.answered 1 (request "bob") true, .attached 1 "x"])).OwnDecision := by
  have h0 : Reach _ _ Alone _ := reach_closed (fun _ => trivial) (fun _ _ => trivial) nofun trivial
  have h1 : Reach _ _ Alone ⟨[opened "alice" false], ∅, 0, .connecting "bob" "x" none, [.forward "x"], false, openedAndClosed⟩ :=
    h0.to (.receive "bob" connectMessage none rfl rfl) trivial (by decide)
  have h2 : Reach _ _ Alone (reopened .deciding []) :=
    h1.to (.track (fun _ => false) rfl) (by simp [Alone, Task.authorizes]) (by decide)
  have h3 : Reach _ _ Alone (reopened (.decided true) [.answered 1 (request "bob") true]) :=
    h2.to (.answer true (i := 1) rfl) trivial (by decide)
  have h4 : Reach _ _ Alone (reopened .connecting [.answered 1 (request "bob") true]) :=
    h3.to (.decided (i := 1) rfl) trivial (by decide)
  have h5 : Reach _ _ Alone (reopened .connected [.answered 1 (request "bob") true]) :=
    h4.to (.connect (i := 1) rfl) trivial (by decide)
  have h6 : Reach _ _ Alone (reopened (.promoting 1) [.answered 1 (request "bob") true]) :=
    h5.to (.lookUp (i := 1) rfl) trivial (by decide)
  exact opened_by_own_authorization _ _ _
    (h6.to (.promote (i := 1) rfl (rfl : _ = some (waiting "bob")) rfl rfl) trivial (by decide))

/-- Bob's connection in the place of Alice's, which is closed -/
abbrev replaced (phase : Phase) (log : List Event) : State := ⟨[waiting "alice", waiting "bob"], insert ∅ "x" 1, 0, .idle,
    [.authorize 0 (request "alice") "x" phase, .authorize 1 (request "bob") "x" .deciding], false, .closed 0 "x" none :: log⟩

/-- A connection that its peer closed, and another peer's under the same id: the first one's approval opens the second. -/
theorem opened_by_another : ¬ ∀ s, Reach "tcp:22" "127.0.0.1:22" (fun _ _ => True) s → s.OwnDecision := by
  intro h
  have h0 : Reach "tcp:22" "127.0.0.1:22" (fun _ _ => True) .initial := .refl
  have h1 : Reach _ _ _ ⟨[], ∅, 0, .connecting "alice" "x" none, [], false, []⟩ :=
    h0.to (.receive "alice" connectMessage none rfl rfl) trivial (by decide)
  have h2 : Reach _ _ _ (tracked (waiting "alice") .idle .deciding) := h1.to (.track (fun _ => false) rfl) trivial (by decide)
  have h3 : Reach _ _ _ (tracked (waiting "alice") (.closeFrom 0 "x" "alice") .deciding) :=
    h2.to (.receive "alice" closeMessage none rfl rfl) trivial (by decide)
  have h4 : Reach _ _ _ (tracked (waiting "alice") (.closing "x") .deciding) :=
    h3.to (.closeFrom rfl (rfl : _ = some (waiting "alice")) rfl) trivial (by decide)
  have h5 : Reach _ _ _ ⟨[waiting "alice"], ∅, 0, .settling 0,
      [.authorize 0 (request "alice") "x" .deciding], false, [.closed 0 "x" none]⟩ :=
    h4.to (.loopClose rfl) trivial (by decide)
  have h6 : Reach _ _ _ ⟨[waiting "alice"], ∅, 0, .idle, [.authorize 0 (request "alice") "x" .deciding], false, [.closed 0 "x" none]⟩ :=
    h5.to (.loopSettle rfl (rfl : _ = some (waiting "alice")) rfl) trivial (by decide)
  have h7 : Reach _ _ _ ⟨[waiting "alice"], ∅, 0, .connecting "bob" "x" none,
      [.authorize 0 (request "alice") "x" .deciding], false, [.closed 0 "x" none]⟩ :=
    h6.to (.receive "bob" connectMessage none rfl rfl) trivial (by decide)
  have h8 : Reach _ _ _ (replaced .deciding []) := h7.to (.track (fun _ => false) rfl) trivial (by decide)
  have h9 : Reach _ _ _ (replaced (.decided true) [.answered 0 (request "alice") true]) :=
    h8.to (.answer true (i := 0) rfl) trivial (by decide)
  have h10 : Reach _ _ _ (replaced .connecting [.answered 0 (request "alice") true]) :=
    h9.to (.decided (i := 0) rfl) trivial (by decide)
  have h11 : Reach _ _ _ (replaced .connected [.answered 0 (request "alice") true]) :=
    h10.to (.connect (i := 0) rfl) trivial (by decide)
  have h12 : Reach _ _ _ (replaced (.promoting 1) [.answered 0 (request "alice") true]) :=
    h11.to (.lookUp (i := 0) rfl) trivial (by decide)
  have h13 : Reach _ _ _ ⟨[waiting "alice", opened "bob" true], insert ∅ "x" 1, 1, .idle,
      [.authorize 0 (request "alice") "x" (.replaying 1 [] []), .authorize 1 (request "bob") "x" .deciding], false,
      [.closed 0 "x" none, .answered 0 (request "alice") true, .attached 1 "x"]⟩ :=
    h12.to (.promote (i := 0) rfl (rfl : _ = some (waiting "bob")) rfl rfl) trivial (by decide)
  obtain ⟨-, -, hanswer⟩ := (h _ h13).1 1 _ (request "bob") rfl rfl rfl
  revert hanswer
  decide

end Mistl.Tunnel
