import Mistl.TunnelConns
/-!
# TunnelClosed — a closed connection stays closed, and is counted once

A promotion looks its connection up, lets go of the map and only then opens it.  `Undisturbed`: no id is tracked a second
time and no `close_conn` takes a connection that is being opened.
-/
open List Mistl.Table Option

namespace Mistl.Tunnel

variable {target remoteAddr : String} {s s' : State} {act : Act}

/-- The id of the connection that a task is opening: from the look-up of a promotion, or from the tracking of a local
connection, to the start of the read loop. -/
def Task.opens : Task → Option String
  | .authorize _ _ connId (.promoting _) => some connId
  | .authorize _ _ connId (.replaying _ _ _) => some connId
  | .authorize _ _ connId (.closing .unwritable) => some connId
  | .dialing connId => some connId
  | _ => none

/-- **No id is tracked a second time, and no close takes a connection that is being opened.** -/
def Undisturbed (s : State) : Act → Prop
  | .tracks connId => ∀ cell ∈ s.heap, cell.id ≠ connId
  | .removes connId => ∀ t ∈ s.tasks, t.opens ≠ some connId
  | _ => True

def Task.arc : Task → Option Nat
  | .authorize _ _ _ (.promoting arc) => some arc
  | .authorize _ _ _ (.replaying arc _ _) => some arc
  | _ => none

def Task.settles : Task → Option Nat
  | .settling arc _ => some arc
  | _ => none

def Loop.settles : Loop → Option Nat
  | .settling arc => some arc
  | _ => none

/-- What a task in a `close_conn` goes on with. -/
def Task.after : Task → After
  | .closing _ after => after
  | .settling _ after => after
  | _ => .done

/-- **Nothing happens to an id once it was closed.** -/
def StaysClosed (log : List Event) : Prop := ∀ before after arc connId refused, log = before ++ .closed arc connId refused :: after →
    ∀ e ∈ after, e ≠ .forwarding connId ∧ ∀ arc', e ≠ .attached arc' connId

theorem staysClosed_nil : StaysClosed [] := fun _ _ _ _ _ h => absurd h.symm (by simp)

theorem StaysClosed.append {log : List Event} (h : StaysClosed log) {e : Event}
    (he : ∀ arc connId refused, .closed arc connId refused ∈ log →
      e ≠ .forwarding connId ∧ ∀ arc', e ≠ .attached arc' connId) : StaysClosed (log ++ [e]) := by
  intro before after arc connId refused heq x hx
  rcases eq_nil_or_concat after with rfl | ⟨rest, last, rfl⟩
  · cases hx
  · rw [concat_eq_append] at heq hx
    obtain ⟨hlog, hlast⟩ := append_inj' (heq.trans (append_assoc before (.closed arc connId refused :: rest)
      [last]).symm) rfl
    cases hlast
    rcases mem_append.1 hx with hx | hx
    · exact h before rest arc connId refused hlog x hx
    · rw [mem_singleton.1 hx]
      exact he arc connId refused (by rw [hlog]; exact mem_append_right _ mem_cons_self)

theorem sum_map_set (f : Task → Nat) (t' : Task) : ∀ (l : List Task) (i : Nat) {t : Task}, l[i]? = some t →
    ((l.set i t').map f).sum + f t = (l.map f).sum + f t'
  | [], _, _, h => by cases h
  | x :: l, 0, t, h => by
    cases h
    rw [set_cons_zero, map_cons, map_cons, List.sum_cons, List.sum_cons]
    omega
  | x :: l, i + 1, t, h => by
    have := sum_map_set f t' l i h
    rw [set_cons_succ, map_cons, map_cons, List.sum_cons, List.sum_cons]
    omega

namespace State

def openConns (s : State) : Nat := s.conns.total fun _ arc => s.weight arc

def unsettled (s : State) : Nat := s.loop.settles.elim 0 s.weight + (s.tasks.map (fun t => t.settles.elim 0 s.weight)).sum

/-- No `close_conn` is between its two locks. -/
def Settled (s : State) : Prop := s.loop.settles = none ∧ ∀ t ∈ s.tasks, t.settles = none

/-- What holds of a task: what it opens is tracked, what it settles is not, and it starts no read loop after a close. -/
structure Orderly (s : State) (t : Task) : Prop where
  opens : ∀ connId, t.opens = some connId → ∃ arc, s.conns.get connId = some arc ∧ ∀ a, t.arc = some a → a = arc
  settles : ∀ arc, t.settles = some arc → ∃ cell, s.heap[arc]? = some cell ∧ s.conns.get cell.id = none
  after : t.after.events = []

/-- **The invariant of the connections.** -/
structure Kept (s : State) : Prop where
  ids : ∀ (i j : Nat) ci cj, s.heap[i]? = some ci → s.heap[j]? = some cj → ci.id = cj.id → i = j
  tracked : ∀ connId arc, s.conns.get connId = some arc → ∃ cell, s.heap[arc]? = some cell ∧ cell.id = connId
  loop : ∀ arc, s.loop.settles = some arc → ∃ cell, s.heap[arc]? = some cell ∧ s.conns.get cell.id = none
  tasks : ∀ t ∈ s.tasks, s.Orderly t
  closed : ∀ arc connId refused, .closed arc connId refused ∈ s.log → s.conns.get connId = none ∧ ∃ cell ∈ s.heap, cell.id = connId
  order : StaysClosed s.log
  count : s.activeConns = s.openConns + s.unsettled

def SameIds (s s' : State) : Prop := ∀ arc : Nat, (s'.heap[arc]?).map Cell.id = (s.heap[arc]?).map Cell.id

variable {arc : Nat}

theorem SameIds.cell (h : SameIds s s') {cell : Cell} (hc : s.heap[arc]? = some cell) :
    ∃ cell', s'.heap[arc]? = some cell' ∧ cell'.id = cell.id := by
  have := h arc
  rw [hc] at this
  exact map_eq_some_iff.1 this

theorem SameIds.cell' (h : SameIds s s') {cell' : Cell} (hc : s'.heap[arc]? = some cell') :
    ∃ cell, s.heap[arc]? = some cell ∧ cell.id = cell'.id := by
  have := h arc
  rw [hc] at this
  exact map_eq_some_iff.1 this.symm

variable {cell cell' : Cell}

section

variable (hcell : s.heap[arc]? = some cell)

include hcell

theorem sameIds_set (hid : cell'.id = cell.id) (hheap : s'.heap = s.heap.set arc cell') : SameIds s s' := by
  intro i
  rw [hheap, getElem?_set]
  by_cases hi : arc = i
  · subst hi
    rw [if_pos rfl, if_pos (List.getElem?_eq_some_iff.1 hcell).1, hcell]
    exact congrArg some hid
  · rw [if_neg hi]

theorem isActive_set (hheap : s'.heap = s.heap.set arc cell') (i : Nat) :
    s'.isActive i = if i = arc then cell'.conn.state.isActive else s.isActive i := by
  unfold isActive
  rw [hheap, getElem?_set]
  by_cases hi : arc = i
  · subst hi
    rw [if_pos rfl, if_pos rfl, if_pos (List.getElem?_eq_some_iff.1 hcell).1]
    rfl
  · rw [if_neg hi, if_neg (Ne.symm hi)]

theorem isActive_same
    (hheap : s'.heap = s.heap.set arc cell') (h : cell'.conn.state.isActive = cell.conn.state.isActive) (i : Nat) :
    s'.isActive i = s.isActive i := by
  rw [isActive_set hcell hheap, h]
  split
  · rename_i hi
    rw [hi, isActive, hcell]
    rfl
  · rfl

end

variable {t : Task}

theorem Orderly.same (h : s.Orderly t) (hids : SameIds s s') (hconns : s'.conns = s.conns) : s'.Orderly t where
  opens := by rw [hconns]; exact h.opens
  settles := fun arc ha => by
    obtain ⟨cell, hcell, hget⟩ := h.settles arc ha
    obtain ⟨cell', hcell', hid⟩ := hids.cell hcell
    exact ⟨cell', hcell', by rw [hconns, hid]; exact hget⟩
  after := h.after

theorem orderly_idle (hopens : t.opens = none) (hsettles : t.settles = none) (hafter : t.after.events = []) : s.Orderly t where
  opens := by rw [hopens]; exact nofun
  settles := by rw [hsettles]; exact nofun
  after := hafter

theorem Kept.calm (hk : s.Kept) (hids : SameIds s s') (hactive : ∀ arc, s'.isActive arc = s.isActive arc)
    (hconns : s'.conns = s.conns) (hcount : s'.activeConns = s.activeConns) (hloop : s'.loop.settles = s.loop.settles)
    (htasks : ∀ t ∈ s'.tasks, s'.Orderly t)
    (hsum : (s'.tasks.map (fun t => t.settles.elim 0 s.weight)).sum = (s.tasks.map (fun t => t.settles.elim 0 s.weight)).sum)
    (hclosed : ∀ arc connId refused, .closed arc connId refused ∈ s'.log → .closed arc connId refused ∈ s.log)
    (horder : StaysClosed s'.log) : s'.Kept := by
  have hweight : s'.weight = s.weight := by
    funext arc
    rw [weight, weight, hactive]
  refine ⟨fun i j ci cj hi hj hid => ?_, fun connId arc h => ?_, fun arc h => ?_, htasks, fun arc connId refused h => ?_, horder, ?_⟩
  · obtain ⟨ci', hi', hci⟩ := hids.cell' hi
    obtain ⟨cj', hj', hcj⟩ := hids.cell' hj
    exact hk.ids i j ci' cj' hi' hj' (by rw [hci, hcj, hid])
  · rw [hconns] at h
    obtain ⟨cell, hcell, hid⟩ := hk.tracked connId arc h
    obtain ⟨cell', hcell', hid'⟩ := hids.cell hcell
    exact ⟨cell', hcell', hid'.trans hid⟩
  · rw [hloop] at h
    obtain ⟨cell, hcell, hget⟩ := hk.loop arc h
    obtain ⟨cell', hcell', hid'⟩ := hids.cell hcell
    exact ⟨cell', hcell', by rw [hconns, hid']; exact hget⟩
  · obtain ⟨hget, cell, hcell, hid⟩ := hk.closed arc connId refused (hclosed arc connId refused h)
    obtain ⟨i, hi⟩ := mem_iff_getElem?.1 hcell
    obtain ⟨cell', hcell', hid'⟩ := hids.cell hi
    exact ⟨by rw [hconns]; exact hget, cell', mem_of_getElem? hcell', hid'.trans hid⟩
  · rw [hcount, hk.count, openConns, openConns, unsettled, unsettled, hconns, hweight, hloop, hsum]

theorem Kept.idle (hk : s.Kept) (loop : Loop) (h : loop.settles = none) (h' : s.loop.settles = none) : Kept { s with loop := loop } :=
  hk.calm (fun _ => rfl) (fun _ => rfl) rfl rfl (h.trans h'.symm) (fun t ht => (hk.tasks t ht).same (fun _ => rfl) rfl)
    rfl (fun _ _ _ h => h) hk.order

variable {i : Nat}

theorem Kept.become (hk : s.Kept) {t t' : Task} (ht : s.tasks[i]? = some t) (hids : SameIds s s')
    (hactive : ∀ arc, s'.isActive arc = s.isActive arc) (hconns : s'.conns = s.conns)
    (hcount : s'.activeConns = s.activeConns) (hloop : s'.loop = s.loop) (htasks : s'.tasks = s.tasks.set i t')
    (hlog : s'.log = s.log) (hnew : s'.Orderly t') (hsettles : t'.settles = t.settles) : s'.Kept := by
  refine hk.calm hids hactive hconns hcount (by rw [hloop]) (fun x hx => ?_) ?_ (fun _ _ _ h => by rwa [hlog] at h)
    (by rw [hlog]; exact hk.order)
  · rw [htasks] at hx
    rcases mem_or_eq_of_mem_set hx with hx | rfl
    · exact (hk.tasks x hx).same hids hconns
    · exact hnew
  · have := sum_map_set (fun t => t.settles.elim 0 s.weight) t' s.tasks i ht
    rw [htasks]
    rw [hsettles] at this
    omega

theorem Kept.task (hk : s.Kept) (ht : s.tasks[i]? = some t) (t' : Task)
    (hnew : s.Orderly t') (hsettles : t'.settles = t.settles) : (s.become i t').Kept :=
  hk.become ht (fun _ => rfl) (fun _ => rfl) rfl rfl rfl rfl rfl (hnew.same (fun _ => rfl) rfl) hsettles

theorem Orderly.next {t t' : Task} (h : s.Orderly t) (hopens : t'.opens = t.opens) (harc : t'.arc = t.arc)
    (hsettles : t'.settles = none) (hafter : t'.after.events = []) : s.Orderly t' where
  opens := by rw [hopens, harc]; exact h.opens
  settles := by rw [hsettles]; exact nofun
  after := hafter

variable {connId : String}

section

variable (hk : s.Kept)

include hk

theorem Kept.not_closed {arc a : Nat} {refused : Option Nat}
    (h : s.conns.get connId = some arc) : .closed a connId refused ∉ s.log := by
  intro hc
  rw [(hk.closed a connId refused hc).1] at h
  cases h

theorem Kept.forward (ht : s.tasks[i]? = some t)
    (hget : s.conns.get connId = some arc) (hsettles : t.settles = none) : (s.resume i (.forward connId)).Kept := by
  refine hk.calm (fun _ => rfl) (fun _ => rfl) rfl rfl rfl (fun x hx => ?_) ?_ (fun a x r h => ?_) ?_
  · rcases mem_or_eq_of_mem_set hx with hx | rfl
    · exact (hk.tasks x hx).same (fun _ => rfl) rfl
    · exact orderly_idle rfl rfl rfl
  · have := sum_map_set (fun t => t.settles.elim 0 s.weight) (.forward connId) s.tasks i ht
    rw [hsettles] at this
    exact Nat.add_right_cancel this
  · exact (mem_append.1 h).resolve_right (by simp [After.events])
  · refine hk.order.append (fun a x r h => ⟨fun he => ?_, nofun⟩)
    cases he
    exact hk.not_closed hget h

theorem Kept.taken {refused : Option Nat}
    (hget : s.conns.get connId = some arc) (hopens : ∀ t ∈ s.tasks, t.opens ≠ some connId) (hheap : s'.heap = s.heap)
    (hconns : s'.conns = s.conns.erase connId) (hlog : s'.log = s.log ++ [.closed arc connId refused])
    (hloop : ∀ a, s'.loop.settles = some a → a = arc ∨ s.loop.settles = some a)
    (htasks : ∀ t ∈ s'.tasks, t ∈ s.tasks ∨ t.settles = some arc ∧ t.opens = none ∧ t.after.events = [])
    (hcount : s'.activeConns = s.activeConns) (hunsettled : s'.unsettled = s.weight arc + s.unsettled) : s'.Kept := by
  obtain ⟨cell, hcell, hid⟩ := hk.tracked connId arc hget
  have hgone : ∀ x, s.conns.get x = none → s'.conns.get x = none := fun x h => by
    rw [hconns, get_erase, h, ite_self]
  have hself : ∃ cell, s'.heap[arc]? = some cell ∧ s'.conns.get cell.id = none :=
    ⟨cell, by rw [hheap]; exact hcell, by rw [hconns, hid, get_erase_self]⟩
  refine ⟨by rw [hheap]; exact hk.ids, fun x a h => ?_, fun a h => ?_, fun x hx => ?_, fun a x r h => ?_, ?_, ?_⟩
  · rw [hconns] at h
    obtain ⟨-, h⟩ := of_get_erase h
    rw [hheap]
    exact hk.tracked x a h
  · rcases hloop a h with rfl | h
    · exact hself
    · obtain ⟨c, hc, hnone⟩ := hk.loop a h
      exact ⟨c, by rw [hheap]; exact hc, hgone _ hnone⟩
  · rcases htasks x hx with hx | ⟨hsettles, hnone, hafter⟩
    · refine ⟨fun x' h => ?_, fun a h => ?_, (hk.tasks x hx).after⟩
      · obtain ⟨a, ha, harc⟩ := (hk.tasks x hx).opens x' h
        have hne : x' ≠ connId := fun he => hopens x hx (he ▸ h)
        exact ⟨a, by rw [hconns, get_erase_ne hne]; exact ha, harc⟩
      · obtain ⟨c, hc, hnone⟩ := (hk.tasks x hx).settles a h
        exact ⟨c, by rw [hheap]; exact hc, hgone _ hnone⟩
    · refine ⟨by rw [hnone]; exact nofun, fun a h => ?_, hafter⟩
      rw [hsettles] at h
      cases h
      exact hself
  · rw [hlog] at h
    rw [hheap]
    rcases mem_append.1 h with h | h
    · exact ⟨hgone _ (hk.closed a x r h).1, (hk.closed a x r h).2⟩
    · cases mem_singleton.1 h
      exact ⟨by rw [hconns, get_erase_self], cell, mem_of_getElem? hcell, hid⟩
  · rw [hlog]
    exact hk.order.append (fun _ _ _ _ => ⟨nofun, nofun⟩)
  · have htotal : s.weight arc + (s.conns.erase connId).total (fun _ a => s.weight a) = s.openConns :=
      total_erase (fun _ a => s.weight a) hget
    have hopen : s'.openConns = (s.conns.erase connId).total (fun _ a => s.weight a) := by
      unfold openConns weight isActive
      rw [hconns, hheap]
    have := hk.count
    omega

theorem Kept.closeConn (ht : s.tasks[i]? = some t) (hsettles : t.settles = none)
    (connId : String) (refused : Option Nat) (after : After) (hafter : after.events = [])
    (hopens : ∀ t ∈ s.tasks, t.opens ≠ some connId) : (s.closeConn i connId refused after).Kept := by
  cases hget : s.conns.get connId with
  | none =>
    rw [closeConn_of_none hget, resume, hafter, append_nil]
    exact hk.task ht after.task (by cases after <;> exact orderly_idle rfl rfl rfl) (by cases after <;> exact hsettles.symm)
  | some arc =>
    rw [closeConn_of_some hget]
    refine hk.taken hget hopens rfl rfl rfl (fun a h => .inr h) (fun x hx => ?_) rfl ?_
    · rcases mem_or_eq_of_mem_set hx with hx | rfl
      · exact .inl hx
      · exact .inr ⟨rfl, rfl, hafter⟩
    · have hsum := sum_map_set (fun t => t.settles.elim 0 s.weight) (.settling arc after) s.tasks i ht
      rw [hsettles] at hsum
      change _ + 0 = _ + s.weight arc at hsum
      show s.loop.settles.elim 0 s.weight + ((s.tasks.set i (.settling arc after)).map
        (fun t => t.settles.elim 0 s.weight)).sum = _
      unfold unsettled
      omega

theorem Kept.loopCloseConn (hloop : s.loop.settles = none) (connId : String)
    (hopens : ∀ t ∈ s.tasks, t.opens ≠ some connId) : (s.loopCloseConn connId).Kept := by
  cases hget : s.conns.get connId with
  | none =>
    rw [loopCloseConn_of_none hget]
    exact hk.idle .idle rfl hloop
  | some arc =>
    rw [loopCloseConn_of_some hget]
    refine hk.taken hget hopens rfl rfl rfl (fun a h => ?_) (fun x hx => .inl hx) rfl ?_
    · cases h
      exact .inl rfl
    · show s.weight arc + (s.tasks.map (fun t => t.settles.elim 0 s.weight)).sum = _
      unfold unsettled
      rw [hloop, elim_none, Nat.zero_add]

theorem Kept.loopSettle (hloop : s.loop = .settling arc) : Kept { s.settle arc with loop := .idle } := by
  rw [settle_eq]
  refine ⟨hk.ids, hk.tracked, nofun, fun t ht => (hk.tasks t ht).same (fun _ => rfl) rfl, hk.closed, hk.order, ?_⟩
  have hcount := hk.count
  unfold openConns unsettled at hcount
  rw [hloop] at hcount
  change s.activeConns = _ + (s.weight arc + _) at hcount
  show s.activeConns - s.weight arc = s.openConns + (0 + (s.tasks.map (fun t => t.settles.elim 0 s.weight)).sum)
  unfold openConns
  omega

theorem Kept.settle {i arc : Nat} {after : After} (ht : s.tasks[i]? = some (.settling arc after)) :
    ((s.settle arc).resume i after).Kept := by
  have hafter : after.events = [] := (hk.tasks _ (mem_of_getElem? ht)).after
  rw [settle_eq, resume, hafter, append_nil]
  refine ⟨hk.ids, hk.tracked, hk.loop, fun t hm => ?_, hk.closed, hk.order, ?_⟩
  · rcases mem_or_eq_of_mem_set hm with hm | rfl
    · exact (hk.tasks t hm).same (fun _ => rfl) rfl
    · cases after <;> exact orderly_idle rfl rfl rfl
  · have hsum := sum_map_set (fun t => t.settles.elim 0 s.weight) after.task s.tasks i ht
    have hnone : after.task.settles = none := by cases after <;> rfl
    have hcount := hk.count
    unfold openConns unsettled at hcount
    rw [hnone] at hsum
    change _ + s.weight arc = _ + 0 at hsum
    show s.activeConns - s.weight arc = s.openConns + (s.loop.settles.elim 0 s.weight +
      ((s.tasks.set i after.task).map (fun t => t.settles.elim 0 s.weight)).sum)
    unfold openConns
    omega

theorem Kept.promote {i own arc : Nat} {req : AuthRequest} {cell : Cell} {buffered : List Bytes} {bufferedBytes : Nat}
    (ht : s.tasks[i]? = some (.authorize own req connId (.promoting arc))) (hcell : s.heap[arc]? = some cell)
    (hstate : cell.conn.state = .pending buffered bufferedBytes) :
    Kept { (s.setConn arc (cell.withWriter ⟨[], false⟩ true)).become i
        (.authorize own req connId (.replaying arc [] buffered)) with
      activeConns := s.activeConns + 1
      log := s.log ++ [.attached arc connId] } := by
  obtain ⟨a, hget, ha⟩ := (hk.tasks _ (mem_of_getElem? ht)).opens connId rfl
  obtain rfl := ha arc rfl
  obtain ⟨c, hc, hid⟩ := hk.tracked connId arc hget
  rw [hcell] at hc
  cases hc
  have hids : SameIds s (s.setConn arc (cell.withWriter ⟨[], false⟩ true)) :=
    sameIds_set hcell (rfl : (cell.withWriter ⟨[], false⟩ true).id = cell.id) rfl
  have hactive : ∀ b, (s.setConn arc (cell.withWriter ⟨[], false⟩ true)).isActive b =
      if b = arc then (cell.withWriter ⟨[], false⟩ true).conn.state.isActive else s.isActive b := isActive_set hcell rfl
  have hpending : s.isActive arc = false := by
    unfold isActive
    rw [hcell]
    show cell.conn.state.isActive = false
    rw [hstate]
    rfl
  have helse : ∀ b ≠ arc, (s.setConn arc (cell.withWriter ⟨[], false⟩ true)).weight b = s.weight b := fun b hb => by
    rw [weight, weight, hactive, if_neg hb]
  -- what is settled is not tracked, so it is not the promoted connection
  have hsettled : ∀ o : Option Nat, (∀ b, o = some b → ∃ cell, s.heap[b]? = some cell ∧ s.conns.get cell.id = none) →
      o.elim 0 (s.setConn arc (cell.withWriter ⟨[], false⟩ true)).weight = o.elim 0 s.weight := by
    intro o ho
    cases o with
    | none => rfl
    | some b =>
      refine helse b (fun hb => ?_)
      obtain ⟨c, hc, hnone⟩ := ho b rfl
      rw [hb, hcell] at hc
      cases hc
      rw [hid, hget] at hnone
      cases hnone
  refine ⟨?_, fun x b h => ?_, fun b h => ?_, fun t hm => ?_, fun b x r h => ?_, ?_, ?_⟩
  · intro j k cj ck hj hk' hjk
    obtain ⟨cj', hj', hcj⟩ := hids.cell' hj
    obtain ⟨ck', hk'', hck⟩ := hids.cell' hk'
    exact hk.ids j k cj' ck' hj' hk'' (by rw [hcj, hck, hjk])
  · obtain ⟨c, hc, hcid⟩ := hk.tracked x b h
    obtain ⟨c', hc', hcid'⟩ := hids.cell hc
    exact ⟨c', hc', hcid'.trans hcid⟩
  · obtain ⟨c, hc, hnone⟩ := hk.loop b h
    obtain ⟨c', hc', hcid'⟩ := hids.cell hc
    exact ⟨c', hc', by rw [hcid']; exact hnone⟩
  · rcases mem_or_eq_of_mem_set hm with hm | rfl
    · exact (hk.tasks t hm).same hids rfl
    · exact ⟨fun x h => by cases h; exact ⟨arc, hget, fun b hb => by cases hb; rfl⟩, nofun, rfl⟩
  · obtain ⟨hnone, c, hc, hcid⟩ := hk.closed b x r ((mem_append.1 h).resolve_right (by simp))
    obtain ⟨j, hj⟩ := mem_iff_getElem?.1 hc
    obtain ⟨c', hc', hcid'⟩ := hids.cell hj
    exact ⟨hnone, c', mem_of_getElem? hc', hcid'.trans hcid⟩
  · refine hk.order.append (fun b x r h => ⟨nofun, fun b' he => ?_⟩)
    cases he
    exact hk.not_closed hget h
  · have htotal := total_insert_at (f := fun _ b => s.weight b)
      (g := fun _ b => (s.setConn arc (cell.withWriter ⟨[], false⟩ true)).weight b) (k := connId) (m := s.conns) arc
      (fun x b hx hb => helse b (fun he => by
        obtain ⟨c, hc, hcid⟩ := hk.tracked x b hb
        rw [he, hcell] at hc
        cases hc
        exact hx (hcid.symm.trans hid)))
    rw [insert_of_get hget, amountAt, hget] at htotal
    have hnew : (s.setConn arc (cell.withWriter ⟨[], false⟩ true)).weight arc = 1 := by
      rw [weight, hactive, if_pos rfl]
      rfl
    have hold : s.weight arc = 0 := by
      rw [weight, hpending]
      rfl
    simp only [elim_some] at htotal
    have hsum := sum_map_set (fun t => t.settles.elim 0 s.weight) (.authorize own req connId (.replaying arc [] buffered))
      s.tasks i ht
    have hmap : (s.tasks.set i (.authorize own req connId (.replaying arc [] buffered))).map
          (fun t => t.settles.elim 0 (s.setConn arc (cell.withWriter ⟨[], false⟩ true)).weight) =
        (s.tasks.set i (.authorize own req connId (.replaying arc [] buffered))).map
          (fun t => t.settles.elim 0 s.weight) := by
      refine map_congr_left (fun t hm => hsettled _ (fun b hb => ?_))
      rcases mem_or_eq_of_mem_set hm with hm | rfl
      · exact (hk.tasks t hm).settles b hb
      · cases hb
    have hcount := hk.count
    unfold openConns unsettled at hcount
    show s.activeConns + 1 = s.conns.total (fun _ b => (s.setConn arc (cell.withWriter ⟨[], false⟩ true)).weight b) +
      (s.loop.settles.elim 0 (s.setConn arc (cell.withWriter ⟨[], false⟩ true)).weight +
        ((s.tasks.set i (.authorize own req connId (.replaying arc [] buffered))).map
          (fun t => t.settles.elim 0 (s.setConn arc (cell.withWriter ⟨[], false⟩ true)).weight)).sum)
    rw [hmap, hsettled _ hk.loop]
    change _ + 0 = _ + 0 at hsum
    omega

theorem Kept.track {cell : Cell} (hid : cell.id = connId)
    (hfresh : ∀ cell ∈ s.heap, cell.id ≠ connId) (hheap : s'.heap = s.heap ++ [cell])
    (hconns : s'.conns = s.conns.insert connId s.heap.length) (hlog : s'.log = s.log)
    (hloop : s'.loop.settles = s.loop.settles) (htasks : s'.tasks = s.tasks ++ [t])
    (hcount : s'.activeConns = s.activeConns + if cell.conn.state.isActive then 1 else 0)
    (hopens : ∀ x, t.opens = some x → x = connId ∧ t.arc = none) (hsettles : t.settles = none)
    (hafter : t.after.events = []) : s'.Kept := by
  have hold : ∀ (i : Nat) c, s.heap[i]? = some c → s'.heap[i]? = some c := fun i c h => by
    rw [hheap, getElem?_append_left (List.getElem?_eq_some_iff.1 h).1]
    exact h
  have hnew : s'.heap[s.heap.length]? = some cell := by
    rw [hheap]
    exact getElem?_concat_length
  have hcases : ∀ (i : Nat) c, s'.heap[i]? = some c → s.heap[i]? = some c ∨ i = s.heap.length ∧ c = cell := by
    intro i c h
    rw [hheap] at h
    by_cases hi : i < s.heap.length
    · rw [getElem?_append_left hi] at h
      exact .inl h
    · rw [getElem?_append_right (not_lt.1 hi)] at h
      obtain ⟨hlt, hc⟩ := List.getElem?_eq_some_iff.1 h
      rw [length_singleton] at hlt
      refine .inr ⟨by omega, ?_⟩
      rw [← hc]
      simp
  have hne : ∀ (i : Nat) c, s.heap[i]? = some c → c.id ≠ connId := fun i c h => hfresh c (mem_of_getElem? h)
  have hnone : s.conns.get connId = none := by
    cases hget : s.conns.get connId with
    | none => rfl
    | some arc =>
      obtain ⟨c, hc, hcid⟩ := hk.tracked connId arc hget
      exact absurd hcid (hne arc c hc)
  have hget : ∀ x, x ≠ connId → s'.conns.get x = s.conns.get x := fun x hx => by
    rw [hconns, get_insert_ne hx]
  have hweight : ∀ (i : Nat) c, s.heap[i]? = some c → s'.weight i = s.weight i := fun i c h => by
    rw [weight, weight, isActive, isActive, h, hold i c h]
  have horderly : ∀ x ∈ s.tasks, s'.Orderly x := fun x hx => by
    refine ⟨fun y h => ?_, fun a h => ?_, (hk.tasks x hx).after⟩
    · obtain ⟨a, ha, harc⟩ := (hk.tasks x hx).opens y h
      obtain ⟨c, hc, hcid⟩ := hk.tracked y a ha
      exact ⟨a, by rw [hget y (hcid ▸ hne a c hc)]; exact ha, harc⟩
    · obtain ⟨c, hc, hcnone⟩ := (hk.tasks x hx).settles a h
      exact ⟨c, hold a c hc, by rw [hget _ (hne a c hc)]; exact hcnone⟩
  refine ⟨fun i j ci cj hi hj hij => ?_, fun x a h => ?_, fun a h => ?_, fun x hx => ?_, fun a x r h => ?_,
    by rw [hlog]; exact hk.order, ?_⟩
  · rcases hcases i ci hi with hi | ⟨rfl, rfl⟩ <;> rcases hcases j cj hj with hj | ⟨rfl, rfl⟩
    · exact hk.ids i j ci cj hi hj hij
    · exact absurd (hij.trans hid) (hne i ci hi)
    · exact absurd (hij.symm.trans hid) (hne j cj hj)
    · rfl
  · rw [hconns] at h
    rcases of_get_insert h with ⟨hx, rfl⟩ | ⟨-, h⟩
    · exact ⟨cell, hnew, hid.trans hx.symm⟩
    · obtain ⟨c, hc, hcid⟩ := hk.tracked x a h
      exact ⟨c, hold a c hc, hcid⟩
  · rw [hloop] at h
    obtain ⟨c, hc, hcnone⟩ := hk.loop a h
    exact ⟨c, hold a c hc, by rw [hget _ (hne a c hc)]; exact hcnone⟩
  · rw [htasks] at hx
    rcases mem_append.1 hx with hx | hx
    · exact horderly x hx
    · rw [mem_singleton.1 hx]
      refine ⟨fun y h => ?_, by rw [hsettles]; exact nofun, hafter⟩
      obtain ⟨rfl, harc⟩ := hopens y h
      exact ⟨s.heap.length, by rw [hconns, get_insert_self], by rw [harc]; exact nofun⟩
  · rw [hlog] at h
    obtain ⟨hcnone, c, hc, hcid⟩ := hk.closed a x r h
    refine ⟨?_, c, by rw [hheap]; exact mem_append_left _ hc, hcid⟩
    rw [hget x (hcid ▸ hfresh c hc)]
    exact hcnone
  · have hopen : s'.openConns = (if cell.conn.state.isActive then 1 else 0) + s.openConns := by
      unfold openConns
      rw [hconns, total_insert _ hnone]
      congr 1
      · rw [weight, isActive, hnew]
        rfl
      · refine total_congr _ (fun e he => ?_)
        obtain ⟨c, hc, -⟩ := hk.tracked e.1 e.2 (get_eq_some_iff.2 he)
        exact hweight e.2 c hc
    have hunsettled : s'.unsettled = s.unsettled := by
      unfold unsettled
      rw [htasks, map_append, sum_append, map_singleton, hsettles, hloop]
      congr 1
      · cases ha : s.loop.settles with
        | none => rfl
        | some a =>
          obtain ⟨c, hc, -⟩ := hk.loop a ha
          exact hweight a c hc
      · refine congrArg List.sum (map_congr_left (fun x hx => ?_))
        cases ha : x.settles with
        | none => rfl
        | some a =>
          obtain ⟨c, hc, -⟩ := (hk.tasks x hx).settles a ha
          exact hweight a c hc
    rw [hcount, hk.count]
    omega

theorem Kept.set {t t' : Task} (ht : s.tasks[i]? = some t)
    (hcell : s.heap[arc]? = some cell) (hid : cell'.id = cell.id)
    (hactive : cell'.conn.state.isActive = cell.conn.state.isActive) (hnew : s.Orderly t')
    (hsettles : t'.settles = t.settles) : ((s.setConn arc cell').become i t').Kept :=
  have hids : SameIds s ((s.setConn arc cell').become i t') := sameIds_set hcell hid rfl
  hk.become ht hids (isActive_same hcell rfl hactive) rfl rfl rfl rfl rfl (hnew.same hids rfl) hsettles

theorem Kept.loopSet (hcell : s.heap[arc]? = some cell)
    (hid : cell'.id = cell.id) (hactive : cell'.conn.state.isActive = cell.conn.state.isActive) (loop : Loop)
    (h : loop.settles = none) (h' : s.loop.settles = none) : Kept { s.setConn arc cell' with loop := loop } :=
  have hids : SameIds s { s.setConn arc cell' with loop := loop } := sameIds_set hcell hid rfl
  hk.calm hids (isActive_same hcell rfl hactive) rfl rfl (h.trans h'.symm) (fun t ht => (hk.tasks t ht).same hids rfl) rfl
    (fun _ _ _ h => h) hk.order

end

theorem onTunnelMessage_settles (s : State) (peerId : String) (tm : TunnelMessage) (did : Option String) :
    (s.onTunnelMessage peerId tm did).settles = none := by
  unfold onTunnelMessage
  split
  · split <;> rfl
  · split
    · cases s.conns.get tm.connId <;> rfl
    · split
      · cases s.conns.get tm.connId <;> rfl
      · rfl

theorem next_settles (arc : Nat) (tm : TunnelMessage) (o : DataOutcome) : (o.next arc tm).settles = none := by
  cases o with
  | write =>
    rw [DataOutcome.next]
    cases tm.payload with
    | none => rfl
    | some payload =>
      dsimp only
      split <;> rfl
  | _ => rfl

theorem Kept.step (hk : s.Kept) (hok : Undisturbed s act) (h : Step target remoteAddr s act s') : s'.Kept := by
  cases h with
  | receive peerId tm did hloop => exact hk.idle _ (s.onTunnelMessage_settles peerId tm did) (by rw [hloop]; rfl)
  | track busy hloop =>
    unfold trackPendingConn
    split
    · refine hk.track ?_ hok rfl rfl rfl (by rw [hloop]; rfl) rfl rfl nofun rfl rfl
      rfl
    · exact hk.idle _ rfl (by rw [hloop]; rfl)
  | check bound hloop | closeFrom hloop =>
    refine hk.idle _ ?_ (by rw [hloop]; rfl)
    split <;> rfl
  | observe hloop hcell =>
    refine hk.loopSet hcell ?_ ?_ _ (next_settles _ _ _) (by rw [hloop]; rfl)
    · rfl
    · exact (TunnelConn.receive_owner _ _).2.2
  | write n hloop hcell hstate =>
    refine hk.loopSet hcell ?_ ?_ _ ?_ (by rw [hloop]; rfl)
    · rfl
    · rw [hstate]
      rfl
    · split <;> rfl
  | writeFails hloop hcell hstate =>
    refine hk.loopSet hcell ?_ ?_ _ rfl (by rw [hloop]; rfl)
    · rfl
    · rw [hstate]
      rfl
  | loopClose hloop => exact hk.loopCloseConn (by rw [hloop]; rfl) _ hok
  | loopSettle hloop => exact hk.loopSettle hloop
  | answer allowed ht =>
    rename_i i own req connId
    refine hk.calm (fun _ => rfl) (fun _ => rfl) rfl rfl rfl (fun x hx => ?_) ?_ (fun a x r h => ?_) ?_
    · rcases mem_or_eq_of_mem_set hx with hx | rfl
      · exact (hk.tasks x hx).same (fun _ => rfl) rfl
      · exact orderly_idle rfl rfl rfl
    · have := sum_map_set (fun t => t.settles.elim 0 s.weight) (.authorize own req connId (.decided allowed))
        s.tasks i ht
      exact Nat.add_right_cancel this
    · exact (mem_append.1 h).resolve_right (by simp)
    · exact hk.order.append (fun _ _ _ _ => ⟨nofun, nofun⟩)
  | @decided _ _ _ connId allowed ht =>
    by_cases hstop : s.cancelled = true ∨ s.conns.contains connId = false
    · rw [if_pos hstop]
      exact hk.task ht _ (orderly_idle rfl rfl rfl) rfl
    · rw [if_neg hstop]
      cases allowed <;> exact hk.task ht _ (orderly_idle rfl rfl rfl) rfl
  | connect ht | sweepNext ht =>
    refine hk.task ht _ ?_ ?_
    · split <;> exact orderly_idle rfl rfl rfl
    · split <;> rfl
  | connectFails ht | promoteLate ht | dialFails ht | forwardEnds ht | sweepEnds ht => exact hk.task ht _ (orderly_idle rfl rfl rfl) rfl
  | lookUp ht =>
    cases hget : s.conns.get _ with
    | none => exact hk.task ht _ (orderly_idle rfl rfl rfl) rfl
    | some arc =>
      refine hk.task ht _ ⟨fun x h => ?_, nofun, rfl⟩ rfl
      cases h
      exact ⟨arc, hget, fun a ha => by cases ha; rfl⟩
  | promote ht hcell hheld hstate => exact hk.promote ht hcell hstate
  | replayNext ht => exact hk.task ht _ ((hk.tasks _ (mem_of_getElem? ht)).next rfl rfl rfl rfl) rfl
  | replayWrite n ht hcell hstate =>
    refine hk.set ht hcell ?_ ?_ ((hk.tasks _ (mem_of_getElem? ht)).next rfl rfl rfl rfl) rfl
    · rfl
    · rw [hstate]
      rfl
  | replayFails ht hcell hstate =>
    refine hk.set ht hcell ?_ ?_ ⟨fun x h => ?_, nofun, rfl⟩ rfl
    · rfl
    · rw [hstate]
      rfl
    · cases h
      obtain ⟨arc, hget, -⟩ := (hk.tasks _ (mem_of_getElem? ht)).opens _ rfl
      exact ⟨arc, hget, nofun⟩
  | replayDone ht hcell =>
    rename_i i own req connId arc cell
    obtain ⟨a, hget, -⟩ := (hk.tasks _ (mem_of_getElem? ht)).opens _ rfl
    have hids : SameIds s (s.setConn arc { cell with held := false }) :=
      sameIds_set hcell (rfl : ({ cell with held := false } : Cell).id = cell.id) rfl
    have hset : (s.setConn arc { cell with held := false }).Kept :=
      hk.calm hids (isActive_same hcell rfl rfl) rfl rfl rfl (fun t hm => (hk.tasks t hm).same hids rfl) rfl
        (fun _ _ _ h => h) hk.order
    exact hset.forward ht hget rfl
  | authorizeClose ht =>
    rename_i i own req connId why
    have hm := mem_of_getElem? ht
    cases why with
    | denied => exact hk.closeConn ht rfl _ _ _ rfl hok
    | unreachable => exact hk.closeConn ht rfl _ _ _ rfl hok
    | unwritable => exact absurd rfl (hok _ hm)
  | dial connId peerId =>
    have hnone : s.conns.contains connId = false := by
      rw [contains_eq_false]
      cases hget : s.conns.get connId with
      | none => rfl
      | some arc =>
        obtain ⟨c, hc, hcid⟩ := hk.tracked connId arc hget
        exact absurd hcid (hok c (mem_of_getElem? hc))
    refine hk.track (t := .dialing connId) ?_ hok rfl rfl rfl rfl rfl ?_ (fun x h => ?_) rfl rfl
    · rfl
    · show (if s.conns.contains connId = true then s.activeConns else s.activeConns + 1) = s.activeConns + 1
      rw [hnone, if_neg Bool.false_ne_true]
    · cases h
      exact ⟨rfl, rfl⟩
  | dialed ht =>
    obtain ⟨arc, hget, -⟩ := (hk.tasks _ (mem_of_getElem? ht)).opens _ rfl
    exact hk.forward ht hget rfl
  | sweep peerId todo =>
    refine hk.calm (fun _ => rfl) (fun _ => rfl) rfl rfl rfl (fun x hx => ?_) ?_ (fun _ _ _ h => h) hk.order
    · rcases mem_append.1 hx with hx | hx
      · exact (hk.tasks x hx).same (fun _ => rfl) rfl
      · rw [mem_singleton.1 hx]
        exact orderly_idle rfl rfl rfl
    · rw [map_append, sum_append]
      rfl
  | close ht => exact hk.closeConn ht rfl _ _ _ (hk.tasks _ (mem_of_getElem? ht)).after hok
  | settle ht => exact hk.settle ht
  | cancel =>
    exact hk.calm (fun _ => rfl) (fun _ => rfl) rfl rfl rfl (fun t ht => (hk.tasks t ht).same (fun _ => rfl) rfl) rfl
      (fun _ _ _ h => h) hk.order

/-- **What was closed stays closed, and the open connections are counted**, where no close is half done. -/
def Exact (s : State) : Prop := StaysClosed s.log ∧ (s.Settled → s.activeConns = s.openConns)

theorem Settled.unsettled (h : s.Settled) : s.unsettled = 0 := by
  unfold State.unsettled
  rw [h.1, elim_none, Nat.zero_add]
  refine sum_eq_zero (fun n hn => ?_)
  obtain ⟨t, ht, rfl⟩ := List.mem_map.1 hn
  rw [h.2 t ht]
  rfl

end State

theorem Reach.kept (h : Reach target remoteAddr Undisturbed s) : s.Kept := by
  induction h with
  | refl =>
    refine ⟨fun _ _ _ _ h => ?_, fun connId arc hget => ?_, nofun, nofun, nofun, staysClosed_nil, rfl⟩
    · cases h
    cases hget
  | tail _ hok hstep ih => exact ih.step hok hstep

/-- **A closed connection stays closed.**  In an undisturbed run nothing is attached to an id and no read loop is
started for it once a `close_conn` took it; and `active_conns` is the number of tracked open connections whenever no
close is between its two locks. -/
theorem stays_closed (target remoteAddr : String) (s : State) (h : Reach target remoteAddr Undisturbed s) : s.Exact := by
  refine ⟨h.kept.order, fun hs => ?_⟩
  rw [h.kept.count, hs.unsettled, Nat.add_zero]

/-! ## Runs -/

/-- A connection that its peer closes once its read loop runs: what comes for its id afterwards reaches nothing, and the
end of the read loop finds nothing left to close. -/
theorem stays_closed_alice : (State.mk [opened "alice" false] ∅ 0 .idle [.done] false openedAndClosed).Exact := by
  have h0 : Reach _ _ Undisturbed _ := reach_closed (fun _ => trivial) (fun _ _ => trivial) nofun (by simp [Undisturbed, Task.opens])
  have h1 : Reach _ _ _ ⟨[opened "alice" false], ∅, 0, .idle, [.forward "x"], false, openedAndClosed⟩ :=
    h0.to (.receive "alice" ⟨"data", "x", some [1], some 1⟩ none rfl rfl) trivial (by decide)
  have h2 : Reach _ _ _ ⟨[opened "alice" false], ∅, 0, .idle, [.closing "x" .done], false, openedAndClosed⟩ :=
    h1.to (.forwardEnds (i := 0) rfl) trivial (by decide)
  exact stays_closed "tcp:22" "127.0.0.1:22" _ (h2.to (.close (i := 0) rfl) (by simp [Undisturbed, Task.opens]) (by decide))

/-- A connection that its peer closes between the look-up of its promotion and the promotion: it is opened all the same,
its read loop is started, and it is counted as open ever after. -/
theorem promoted_after_close : ¬ ∀ s, Reach "tcp:22" "127.0.0.1:22" (fun _ _ => True) s → s.Exact := by
  intro h
  have h0 : Reach _ _ (fun _ _ => True) _ := reach_promoting (fun _ => trivial) trivial trivial
  have h1 : Reach _ _ _ (allowed (waiting "alice") (.closeFrom 0 "x" "alice") (.promoting 0)) :=
    h0.to (.receive "alice" closeMessage none rfl rfl) trivial (by decide)
  have h2 : Reach _ _ _ (allowed (waiting "alice") (.closing "x") (.promoting 0)) :=
    h1.to (.closeFrom rfl (rfl : _ = some (waiting "alice")) rfl) trivial (by decide)
  have h3 : Reach _ _ _ ⟨[waiting "alice"], ∅, 0, .settling 0, [.authorize 0 (request "alice") "x" (.promoting 0)], false,
      [.answered 0 (request "alice") true, .closed 0 "x" none]⟩ :=
    h2.to (.loopClose rfl) trivial (by decide)
  have h4 : Reach _ _ _ ⟨[waiting "alice"], ∅, 0, .idle, [.authorize 0 (request "alice") "x" (.promoting 0)], false,
      [.answered 0 (request "alice") true, .closed 0 "x" none]⟩ :=
    h3.to (.loopSettle rfl (rfl : _ = some (waiting "alice")) rfl) trivial (by decide)
  have h5 : Reach _ _ _ ⟨[opened "alice" true], ∅, 1, .idle, [.authorize 0 (request "alice") "x" (.replaying 0 [] [])], false,
      [.answered 0 (request "alice") true, .closed 0 "x" none, .attached 0 "x"]⟩ :=
    h4.to (.promote (i := 0) rfl (rfl : _ = some (waiting "alice")) rfl rfl) trivial (by decide)
  have h6 : Reach _ _ _ ⟨[opened "alice" false], ∅, 1, .idle, [.forward "x"], false,
      [.answered 0 (request "alice") true, .closed 0 "x" none, .attached 0 "x", .forwarding "x"]⟩ :=
    h5.to (.replayDone (i := 0) rfl (rfl : _ = some (opened "alice" true))) trivial (by decide)
  have hcount := (h _ h6).2 ⟨rfl, by simp [Task.settles]⟩
  revert hcount
  decide

end Mistl.Tunnel
