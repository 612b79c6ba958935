import Mistl.Lib.Table
/-!
# TunnelGrace — the grace window of a peer that left

`tunnel/tcp.rs`: `on_tunnel_close`, `on_tunnel_open`, `schedule_close_all_for_peer`, `cancel_pending_close`.  Every leave and
join starts a task of its own, and the tasks run in any order; `Ordered` says that none runs out of turn.
-/
open List Mistl.Table Option

namespace Mistl.Tunnel
namespace Grace

/-- A notice of the event worker, and whether the task that it started has run. -/
structure Notice where
  peerId : String
  joined : Bool
  ran : Bool
  deriving DecidableEq

/-- A timer of `schedule_close_all_for_peer`, and the notice of the leave that started it. -/
structure Timer where
  peerId : String
  epoch : Nat
  notice : Nat
  deriving DecidableEq

/-- A timer that fired: whether the last notice of its peer was a join, and the connections it closed. -/
structure Firing where
  peerId : String
  joined : Bool
  closed : Finset String
  deriving DecidableEq

/-- What the grace windows see of a `TcpManager`: `peer_close_epoch`, the connections with their peers, and what runs. -/
structure Manager where
  epochs : Table String Nat
  conns : Table String String
  notices : List Notice
  timers : List Timer
  fired : List Firing
  deriving DecidableEq

namespace Manager

def initial : Manager := ⟨∅, ∅, [], [], []⟩

/-- `schedule_close_all_for_peer`, with the wrapping epoch of 64 bits -/
def scheduleCloseAllForPeer (m : Manager) (peerId : String) (notice : Nat) : Manager :=
  let epoch := ((m.epochs.get peerId).getD 0 + 1) % 2 ^ 64
  { m with epochs := m.epochs.insert peerId epoch, timers := m.timers ++ [⟨peerId, epoch, notice⟩] }

def cancelPendingClose (m : Manager) (peerId : String) : Manager :=
  match m.epochs.get peerId with
  | some epoch => { m with epochs := m.epochs.insert peerId ((epoch + 1) % 2 ^ 64) }
  | none => m

def handle (m : Manager) (i : Nat) (n : Notice) : Manager :=
  let m := { m with notices := m.notices.set i { n with ran := true } }
  if n.joined then m.cancelPendingClose n.peerId else m.scheduleCloseAllForPeer n.peerId i

def lastNotice (m : Manager) (peerId : String) : Option Notice := (m.notices.filter (fun n => decide (n.peerId = peerId))).getLast?

def connsOf (m : Manager) (peerId : String) : Finset String := (m.conns.filter (fun _ p => decide (p = peerId))).keys

def closeAllForPeer (m : Manager) (peerId : String) : Manager := { m with conns := m.conns.filter (fun _ p => decide (p ≠ peerId)) }

/-- The end of a grace window: all connections are closed where the epoch is still the one that the timer was started in. -/
def fire (m : Manager) (k : Nat) (t : Timer) : Manager :=
  let joined := (m.lastNotice t.peerId).elim false Notice.joined
  if m.epochs.get t.peerId = some t.epoch then
    { m.closeAllForPeer t.peerId with
      timers := m.timers.eraseIdx k
      fired := m.fired ++ [⟨t.peerId, joined, m.connsOf t.peerId⟩] }
  else { m with timers := m.timers.eraseIdx k, fired := m.fired ++ [⟨t.peerId, joined, ∅⟩] }

end Manager

/-- A notice comes; its task runs; a timer fires, or is stopped by the shutdown; connections come and go. -/
inductive Act where
  | notify
  | run (i : Nat)
  | fire (k : Nat)
  | other

inductive Step : Manager → Act → Manager → Prop where
  | notify {m : Manager} (peerId : String) (joined : Bool) : Step m .notify { m with notices := m.notices ++ [⟨peerId, joined, false⟩] }
  | run {m : Manager} {i : Nat} {n : Notice} : m.notices[i]? = some n → n.ran = false → Step m (.run i) (m.handle i n)
  | fire {m : Manager} {k : Nat} {t : Timer} : m.timers[k]? = some t → Step m (.fire k) (m.fire k t)
  | stop {m : Manager} (k : Nat) : Step m .other { m with timers := m.timers.eraseIdx k }
  | conns {m : Manager} (conns : Table String String) : Step m .other { m with conns := conns }

inductive Reach (ok : Manager → Act → Prop) : Manager → Prop where
  | refl : Reach ok .initial
  | tail {m m' : Manager} {act : Act} : Reach ok m → ok m act → Step m act m' → Reach ok m'

/-- **No leave runs after a later join of its peer has, the last join has run when a timer fires**, and there are fewer
notices than epochs. -/
def Ordered (m : Manager) : Act → Prop
  | .notify => m.notices.length + 1 < 2 ^ 64
  | .run i => ∀ n, m.notices[i]? = some n → n.joined = false → ∀ (j : Nat) n', i < j → m.notices[j]? = some n' →
      n'.peerId = n.peerId → n'.joined = true → n'.ran = false
  | .fire k => ∀ t, m.timers[k]? = some t → ∀ n, m.lastNotice t.peerId = some n → n.joined = true → n.ran = true
  | .other => True

variable {m m' : Manager} {act : Act}

def Manager.ranCount (m : Manager) : Nat := m.notices.countP Notice.ran

/-- A timer is of an epoch that has begun, and of an earlier one where its peer has rejoined since. -/
structure Manager.Armed (m : Manager) (t : Timer) (epoch : Nat) : Prop where
  current : m.epochs.get t.peerId = some epoch
  begun : t.epoch ≤ epoch
  leave : ∃ n, m.notices[t.notice]? = some n ∧ n.peerId = t.peerId ∧ n.joined = false
  rejoined : ∀ (j : Nat) n, t.notice < j → m.notices[j]? = some n → n.peerId = t.peerId → n.joined = true →
    n.ran = true → t.epoch < epoch

/-- **The invariant of the grace windows.** -/
structure Manager.Sound (m : Manager) : Prop where
  epochs : ∀ p c, m.epochs.get p = some c → c ≤ m.ranCount
  room : m.notices.length < 2 ^ 64
  timers : ∀ t ∈ m.timers, ∃ epoch, m.Armed t epoch
  fired : ∀ f ∈ m.fired, f.joined = true → f.closed = ∅

theorem lastNotice_eq_some {peerId : String} {n : Notice} (h : m.lastNotice peerId = some n) :
    ∃ before after, m.notices = before ++ n :: after ∧ n.peerId = peerId ∧ ∀ x ∈ after, x.peerId ≠ peerId := by
  obtain ⟨rest, hrest⟩ := getLast?_eq_some_iff.1 h
  obtain ⟨before, tail, hsplit, -, htail⟩ := filter_eq_append_iff.1 hrest
  obtain ⟨skipped, after, rfl, -, hn, hafter⟩ := filter_eq_cons_iff.1 htail
  refine ⟨before ++ skipped, after, by rw [hsplit, append_assoc], of_decide_eq_true hn, fun x hx he => ?_⟩
  exact filter_eq_nil_iff.1 hafter x hx (decide_eq_true he)

theorem before_last {peerId : String} {n l : Notice} {i : Nat} (h : m.lastNotice peerId = some n) (hjoined : n.joined = true)
    (hi : m.notices[i]? = some l) (hpeer : l.peerId = peerId) (hleft : l.joined = false) :
    ∃ j, i < j ∧ m.notices[j]? = some n ∧ n.peerId = peerId := by
  obtain ⟨before, after, hsplit, hn, hafter⟩ := lastNotice_eq_some h
  have hget : m.notices[before.length]? = some n := by
    rw [hsplit, getElem?_append_right le_rfl, Nat.sub_self]
    rfl
  refine ⟨before.length, ?_, hget, hn⟩
  by_contra hlt
  rcases (not_lt.1 hlt).eq_or_lt with heq | hgt
  · rw [← heq, hget] at hi
    cases hi
    rw [hjoined] at hleft
    cases hleft
  · rw [hsplit, getElem?_append_right hgt.le] at hi
    obtain ⟨d, hd⟩ := Nat.exists_eq_add_of_lt hgt
    rw [show i - before.length = d + 1 by omega] at hi
    exact hafter l (mem_of_getElem? hi) hpeer

namespace Manager

theorem handle_cases (m : Manager) (i : Nat) (n : Notice) : (m.epochs.get n.peerId = none ∧ n.joined = true ∧
      m.handle i n = { m with notices := m.notices.set i { n with ran := true } }) ∨
    (∃ e, m.epochs.get n.peerId = some e ∧ n.joined = true ∧ m.handle i n = { m with
        epochs := m.epochs.insert n.peerId ((e + 1) % 2 ^ 64)
        notices := m.notices.set i { n with ran := true } }) ∨
    n.joined = false ∧ m.handle i n = { m with
        epochs := m.epochs.insert n.peerId (((m.epochs.get n.peerId).getD 0 + 1) % 2 ^ 64)
        notices := m.notices.set i { n with ran := true }
        timers := m.timers ++ [⟨n.peerId, ((m.epochs.get n.peerId).getD 0 + 1) % 2 ^ 64, i⟩] } := by
  unfold handle
  cases hjoined : n.joined with
  | true =>
    rw [if_pos rfl, cancelPendingClose]
    cases hepoch : m.epochs.get n.peerId with
    | none => exact .inl ⟨rfl, rfl, rfl⟩
    | some e => exact .inr (.inl ⟨e, rfl, rfl, rfl⟩)
  | false => exact .inr (.inr ⟨rfl, rfl⟩)

theorem get_set {i j : Nat} {n x : Notice} (h : (m.notices.set i { n with ran := true })[j]? = some x) :
    (j = i ∧ x = { n with ran := true }) ∨ m.notices[j]? = some x := by
  rw [getElem?_set] at h
  by_cases hj : i = j
  · rw [if_pos hj] at h
    split at h
    · exact .inl ⟨hj.symm, (Option.some.inj h).symm⟩
    · cases h
  · rw [if_neg hj] at h
    exact .inr h

theorem set_get {i j : Nat} {n x : Notice} (hi : m.notices[i]? = some n) (h : m.notices[j]? = some x) :
    ∃ x', (m.notices.set i { n with ran := true })[j]? = some x' ∧ x'.peerId = x.peerId ∧ x'.joined = x.joined := by
  rw [getElem?_set]
  by_cases hj : i = j
  · subst hj
    obtain rfl := Option.some.inj (h.symm.trans hi)
    exact ⟨{ x with ran := true }, by rw [if_pos rfl, if_pos (List.getElem?_eq_some_iff.1 h).1], rfl, rfl⟩
  · exact ⟨x, by rw [if_neg hj]; exact h, rfl, rfl⟩

theorem Armed.run {t : Timer} {c c' : Nat} {i : Nat} {n : Notice} (ha : m.Armed t c) (hi : m.notices[i]? = some n)
    (hnotices : m'.notices = m.notices.set i { n with ran := true }) (hget : m'.epochs.get t.peerId = some c')
    (hle : c ≤ c') (hown : n.peerId = t.peerId → c < c') : m'.Armed t c' := by
  obtain ⟨l, hl, hlp, hlj⟩ := ha.leave
  obtain ⟨l', hl', hlp', hlj'⟩ := set_get hi hl
  refine ⟨hget, ha.begun.trans hle, ⟨l', by rw [hnotices]; exact hl', hlp'.trans hlp, hlj'.trans hlj⟩, fun j x hj hx hp hjoin hr => ?_⟩
  rw [hnotices] at hx
  rcases get_set hx with ⟨-, rfl⟩ | hx
  · exact ha.begun.trans_lt (hown hp)
  · exact (ha.rejoined j x hj hx hp hjoin hr).trans_le hle

/-- **A task that runs**: it begins an epoch of its peer, which is later than those of all timers. -/
theorem Sound.run (hs : m.Sound) {i : Nat} {n : Notice} (hi : m.notices[i]? = some n) (hran : n.ran = false)
    (hok : Ordered m (.run i)) : (m.handle i n).Sound := by
  obtain ⟨hlt, hget⟩ := List.getElem?_eq_some_iff.1 hi
  have hcount : (m.notices.set i { n with ran := true }).countP Notice.ran = m.ranCount + 1 := by
    rw [countP_set hlt, hget, hran]
    rfl
  have hle : m.ranCount + 1 ≤ m.notices.length := by
    rw [← hcount]
    exact countP_le_length.trans (length_set ..).le
  have hnext : ∀ c ≤ m.ranCount, (c + 1) % 2 ^ 64 = c + 1 := fun c hc => Nat.mod_eq_of_lt (by have := hs.room; omega)
  have hroom : (m.notices.set i { n with ran := true }).length < 2 ^ 64 := by
    rw [length_set]
    exact hs.room
  rcases m.handle_cases i n with ⟨hnone, -, heq⟩ | ⟨e, hsome, -, heq⟩ | ⟨hleft, heq⟩ <;> rw [heq]
  · refine ⟨fun p c h => ?_, hroom, fun t ht => ?_, hs.fired⟩
    · exact (hs.epochs p c h).trans ((Nat.le_succ _).trans hcount.ge)
    · obtain ⟨c, hc⟩ := hs.timers t ht
      refine ⟨c, hc.run hi rfl hc.current le_rfl (fun hp => ?_)⟩
      have := hc.current
      rw [← hp, hnone] at this
      cases this
  · rw [hnext e (hs.epochs _ _ hsome)]
    have he := hs.epochs _ _ hsome
    refine ⟨fun p c h => ?_, hroom, fun t ht => ?_, hs.fired⟩
    · refine le_trans ?_ hcount.ge
      rcases of_get_insert h with ⟨-, rfl⟩ | ⟨-, h⟩
      · omega
      · exact (hs.epochs p c h).trans (Nat.le_succ _)
    · obtain ⟨c, hc⟩ := hs.timers t ht
      by_cases hp : t.peerId = n.peerId
      · have hce : c = e := Option.some.inj (hc.current.symm.trans (by rw [hp, hsome]))
        refine ⟨e + 1, hc.run hi rfl ?_ (by omega) (fun _ => by omega)⟩
        rw [hp, get_insert_self]
      · refine ⟨c, hc.run hi rfl ?_ le_rfl (fun h => absurd h.symm hp)⟩
        rw [get_insert_ne hp]
        exact hc.current
  · have he : (m.epochs.get n.peerId).getD 0 ≤ m.ranCount := by
      cases hepoch : m.epochs.get n.peerId with
      | none => exact Nat.zero_le _
      | some e => exact hs.epochs _ _ hepoch
    rw [hnext _ he]
    refine ⟨fun p c h => ?_, hroom, fun t ht => ?_, hs.fired⟩
    · refine le_trans ?_ hcount.ge
      rcases of_get_insert h with ⟨-, rfl⟩ | ⟨-, h⟩
      · omega
      · exact (hs.epochs p c h).trans (Nat.le_succ _)
    · rcases mem_append.1 ht with ht | ht
      · obtain ⟨c, hc⟩ := hs.timers t ht
        by_cases hp : t.peerId = n.peerId
        · have hce : (m.epochs.get n.peerId).getD 0 = c := by rw [← hp, hc.current, getD_some]
          refine ⟨c + 1, hc.run hi rfl ?_ (Nat.le_succ c) (fun _ => Nat.lt_succ_self c)⟩
          rw [hp, get_insert_self, hce]
        · refine ⟨c, hc.run hi rfl ?_ le_rfl (fun h => absurd h.symm hp)⟩
          rw [get_insert_ne hp]
          exact hc.current
      · rw [mem_singleton.1 ht]
        refine ⟨(m.epochs.get n.peerId).getD 0 + 1, get_insert_self .., le_rfl, ?_, fun j x hj hx hp hjoin hr => ?_⟩
        · obtain ⟨l', hl', hlp', hlj'⟩ := set_get hi hi
          exact ⟨l', hl', hlp', hlj'.trans hleft⟩
        · rcases get_set hx with ⟨rfl, -⟩ | hx
          · exact absurd hj (lt_irrefl _)
          · rw [hok n hi hleft j x hj hx hp hjoin] at hr
            cases hr

theorem Sound.notify (hs : m.Sound) (peerId : String) (joined : Bool) (hok : Ordered m .notify) :
    Sound { m with notices := m.notices ++ [⟨peerId, joined, false⟩] } := by
  have hcount : (m.notices ++ [(⟨peerId, joined, false⟩ : Notice)]).countP Notice.ran = m.ranCount := by
    rw [countP_append]
    rfl
  refine ⟨fun p c h => ?_, ?_, fun t ht => ?_, hs.fired⟩
  · rw [ranCount, hcount]
    exact hs.epochs p c h
  · rw [length_append]
    exact hok
  · obtain ⟨c, hc⟩ := hs.timers t ht
    obtain ⟨l, hl, hlp⟩ := hc.leave
    refine ⟨c, hc.current, hc.begun, ⟨l, ?_, hlp⟩, fun j x hj hx hp hjoin hr => ?_⟩
    · rw [getElem?_append_left (List.getElem?_eq_some_iff.1 hl).1]
      exact hl
    · by_cases hlt : j < m.notices.length
      · rw [getElem?_append_left hlt] at hx
        exact hc.rejoined j x hj hx hp hjoin hr
      · rw [getElem?_append_right (not_lt.1 hlt)] at hx
        rw [mem_singleton.1 (mem_of_getElem? hx)] at hr
        cases hr

theorem Sound.fire (hs : m.Sound) {k : Nat} {t : Timer} (ht : m.timers[k]? = some t) (hok : Ordered m (.fire k)) :
    (m.fire k t).Sound := by
  obtain ⟨c, hc⟩ := hs.timers t (mem_of_getElem? ht)
  obtain ⟨l, hl, hlp, hlj⟩ := hc.leave
  have hlate : (m.lastNotice t.peerId).elim false Notice.joined = true → m.epochs.get t.peerId ≠ some t.epoch := by
    intro h
    cases hlast : m.lastNotice t.peerId with
    | none =>
      rw [hlast] at h
      cases h
    | some n =>
      rw [hlast] at h
      obtain ⟨j, hj, hn, hp⟩ := before_last hlast h hl hlp hlj
      have := hc.rejoined j n hj hn hp h (hok t ht n hlast h)
      rw [hc.current]
      intro he
      cases he
      exact lt_irrefl _ this
  have htimers : ∀ x ∈ m.timers.eraseIdx k, x ∈ m.timers := fun x hx => mem_of_mem_eraseIdx hx
  unfold Manager.fire
  split
  · rename_i hcurrent
    refine ⟨hs.epochs, hs.room, fun x hx => ?_, fun f hf hjoin => ?_⟩
    · obtain ⟨epoch, h⟩ := hs.timers x (htimers x hx)
      exact ⟨epoch, h.current, h.begun, h.leave, h.rejoined⟩
    · rcases mem_append.1 hf with hf | hf
      · exact hs.fired f hf hjoin
      · rw [mem_singleton.1 hf] at hjoin
        exact absurd hcurrent (hlate hjoin)
  · refine ⟨hs.epochs, hs.room, fun x hx => ?_, fun f hf hjoin => ?_⟩
    · obtain ⟨epoch, h⟩ := hs.timers x (htimers x hx)
      exact ⟨epoch, h.current, h.begun, h.leave, h.rejoined⟩
    · rcases mem_append.1 hf with hf | hf
      · exact hs.fired f hf hjoin
      · rw [mem_singleton.1 hf]

theorem Sound.step (hs : m.Sound) (hok : Ordered m act) (h : Step m act m') : m'.Sound := by
  cases h with
  | notify peerId joined => exact hs.notify peerId joined hok
  | run hi hran => exact hs.run hi hran hok
  | fire ht => exact hs.fire ht hok
  | stop k =>
    refine ⟨hs.epochs, hs.room, fun x hx => ?_, hs.fired⟩
    obtain ⟨epoch, h⟩ := hs.timers x (mem_of_mem_eraseIdx hx)
    exact ⟨epoch, h.current, h.begun, h.leave, h.rejoined⟩
  | conns conns =>
    refine ⟨hs.epochs, hs.room, fun x hx => ?_, hs.fired⟩
    obtain ⟨epoch, h⟩ := hs.timers x hx
    exact ⟨epoch, h.current, h.begun, h.leave, h.rejoined⟩

end Manager

/-- **A rejoined peer keeps its connections.**  In a run whose tasks run in the order of the notices, and in which the
last join has run when a timer fires: a timer closes no connection where the last notice of its peer was a join. -/
theorem rejoined_keeps_conns (m : Manager) (h : Reach Ordered m) (f : Firing) (hf : f ∈ m.fired) (hjoined : f.joined = true) :
    f.closed = ∅ := by
  have hs : m.Sound := by
    clear hf
    induction h with
    | refl =>
      refine ⟨fun p c h => ?_, by decide, nofun, nofun⟩
      cases h
    | tail _ hok hstep ih => exact ih.step hok hstep
  exact hs.fired f hf hjoined

/-! ## Runs -/

theorem Reach.to {ok : Manager → Act → Prop} {m'' : Manager} (h : Reach ok m) (hstep : Step m act m') (hok : ok m act)
    (heq : m' = m'') : Reach ok m'' :=
  heq ▸ h.tail hok hstep

theorem rejoined_keeps_conns_alice :
    ∃ m, Reach Ordered m ∧ m.connsOf "alice" = {"x"} ∧ ∃ f ∈ m.fired, f.joined = true ∧ f.closed = ∅ := by
  have h1 : Reach Ordered ⟨∅, insert ∅ "x" "alice", [], [], []⟩ := Reach.refl.to (.conns _) trivial rfl
  have h2 : Reach Ordered ⟨∅, insert ∅ "x" "alice", [⟨"alice", false, false⟩], [], []⟩ :=
    h1.to (.notify "alice" false) (show (0 : Nat) + 1 < 2 ^ 64 by decide) rfl
  have h3 : Reach Ordered ⟨insert ∅ "alice" 1, insert ∅ "x" "alice", [⟨"alice", false, true⟩], [⟨"alice", 1, 0⟩], []⟩ :=
    h2.to (.run (i := 0) rfl rfl) (fun _ _ _ j _ hj h => by
      rw [getElem?_eq_none (by simpa using Nat.succ_le_of_lt hj)] at h
      cases h) (by decide)
  have h4 : Reach Ordered ⟨insert ∅ "alice" 1, insert ∅ "x" "alice",
      [⟨"alice", false, true⟩, ⟨"alice", true, false⟩], [⟨"alice", 1, 0⟩], []⟩ :=
    h3.to (.notify "alice" true) (show (1 : Nat) + 1 < 2 ^ 64 by decide) rfl
  have h5 : Reach Ordered ⟨insert ∅ "alice" 2, insert ∅ "x" "alice",
      [⟨"alice", false, true⟩, ⟨"alice", true, true⟩], [⟨"alice", 1, 0⟩], []⟩ :=
    h4.to (.run (i := 1) rfl rfl) (fun n hn hleft => by cases hn; cases hleft) (by decide)
  have h6 : Reach Ordered ⟨insert ∅ "alice" 2, insert ∅ "x" "alice",
      [⟨"alice", false, true⟩, ⟨"alice", true, true⟩], [], [⟨"alice", true, ∅⟩]⟩ :=
    h5.to (.fire (k := 0) rfl) (fun t ht n hn _ => by cases ht; cases hn; rfl) (by decide)
  exact ⟨_, h6, by decide, ⟨"alice", true, ∅⟩, mem_singleton_self _, rfl, rejoined_keeps_conns _ h6 _ (mem_singleton_self _) rfl⟩

/-- A leave whose task runs after that of the join that followed it: the timer closes the connections of a peer that is
back. -/
theorem closed_after_rejoin : ¬ ∀ m, Reach (fun _ _ => True) m → ∀ f ∈ m.fired, f.joined = true → f.closed = ∅ := by
  intro h
  have h1 : Reach (fun _ _ => True) ⟨∅, insert ∅ "x" "alice", [], [], []⟩ := Reach.refl.to (.conns _) trivial rfl
  have h2 : Reach (fun _ _ => True) ⟨∅, insert ∅ "x" "alice", [⟨"alice", false, false⟩], [], []⟩ :=
    h1.to (.notify "alice" false) trivial rfl
  have h3 : Reach (fun _ _ => True) ⟨∅, insert ∅ "x" "alice", [⟨"alice", false, false⟩, ⟨"alice", true, false⟩],
      [], []⟩ := h2.to (.notify "alice" true) trivial rfl
  have h4 : Reach (fun _ _ => True) ⟨∅, insert ∅ "x" "alice", [⟨"alice", false, false⟩, ⟨"alice", true, true⟩],
      [], []⟩ := h3.to (.run (i := 1) rfl rfl) trivial (by decide)
  have h5 : Reach (fun _ _ => True) ⟨insert ∅ "alice" 1, insert ∅ "x" "alice",
      [⟨"alice", false, true⟩, ⟨"alice", true, true⟩], [⟨"alice", 1, 0⟩], []⟩ :=
    h4.to (.run (i := 0) rfl rfl) trivial (by decide)
  have h6 : Reach (fun _ _ => True) ⟨insert ∅ "alice" 1, ∅, [⟨"alice", false, true⟩, ⟨"alice", true, true⟩], [],
      [⟨"alice", true, {"x"}⟩]⟩ := h5.to (.fire (k := 0) rfl) trivial (by decide)
  have hclosed := h _ h6 _ (mem_singleton_self _) rfl
  revert hclosed
  decide

end Grace
end Mistl.Tunnel
