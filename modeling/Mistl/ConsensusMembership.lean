import Mistl.Lib.Slide
import Mistl.Lib.Table
/-!
# ConsensusMembership — the members of a relay room and their replay windows

`consensus/membership.rs`.  The replay window of a member lives in its entry: it is gone when the entry is dropped,
and replaced when the member is seen under another boot.
-/
open Mistl.Table Option

namespace Mistl.Consensus

def maxPeers : Nat := 64

structure ReplayWindow where
  boot : Nat
  slide : Slide
  lastTsMs : Nat

def ReplayWindow.new (boot seq tsMs : Nat) : ReplayWindow := ⟨boot, .new seq, tsMs⟩

/-- `ReplayWindow::accept`, nothing where the message is refused -/
def ReplayWindow.accept (w : ReplayWindow) (boot seq tsMs : Nat) : Option ReplayWindow := if boot ≠ w.boot then
    if w.lastTsMs < tsMs then some (.new boot seq tsMs) else none
  else (w.slide.accept seq).map fun slide => ⟨w.boot, slide, max w.lastTsMs tsMs⟩

structure Peer where
  lastSeen : Nat
  did : String
  replay : Option ReplayWindow

structure Membership where
  selfId : String
  peers : Table String Peer

def Membership.new (selfId : String) : Membership := ⟨selfId, ∅⟩

def Membership.recordHello (m : Membership) (node did : String) (now : Nat) : Membership × Bool :=
  if node = m.selfId then (m, false)
  else match m.peers.get node with
    | some peer => if peer.did = did then ({ m with peers := m.peers.insert node { peer with lastSeen := now } }, false) else (m, false)
    | none => if maxPeers ≤ m.peers.size then (m, false) else ({ m with peers := m.peers.insert node ⟨now, did, none⟩ }, true)

/-- A signed message of the consensus, as `accept_raft` sees it. -/
structure Rpc where
  node : String
  did : String
  boot : Nat
  seq : Nat
  tsMs : Nat
  deriving DecidableEq

def Peer.window (peer : Peer) (rpc : Rpc) : Option ReplayWindow :=
  match peer.replay with
  | some window => window.accept rpc.boot rpc.seq rpc.tsMs
  | none => some (.new rpc.boot rpc.seq rpc.tsMs)

def Membership.acceptRaft (m : Membership) (rpc : Rpc) : Membership × Bool :=
  match m.peers.get rpc.node with
  | none => (m, false)
  | some peer =>
    if peer.did ≠ rpc.did then (m, false)
    else match peer.window rpc with
      | none => (m, false)
      | some window => ({ m with peers := m.peers.insert rpc.node { peer with replay := some window } }, true)

def Membership.remove (m : Membership) (node : String) : Membership × Bool :=
  ({ m with peers := m.peers.erase node }, (m.peers.get node).isSome)

/-- `Membership::remove_where`, the dropped names apart -/
def Membership.removeWhere (m : Membership) (doomed : Peer → Bool) : Membership :=
  { m with peers := m.peers.filter (fun _ peer => !doomed peer) }

def Membership.expire (m : Membership) (now timeout : Nat) : Membership :=
  m.removeWhere (fun peer => decide (timeout < now - peer.lastSeen))

def Membership.retainAdmitted (m : Membership) (admitted : String → Bool) : Membership := m.removeWhere fun peer => !admitted peer.did

/-! ## Runs -/

inductive Op where
  | recordHello (node did : String) (now : Nat)
  | acceptRaft (rpc : Rpc)
  | remove (node : String)
  | expire (now timeout : Nat)
  | retainAdmitted (admitted : String → Bool)

def Membership.step (m : Membership) : Op → Membership
  | .recordHello node did now => (m.recordHello node did now).1
  | .acceptRaft rpc => (m.acceptRaft rpc).1
  | .remove node => (m.remove node).1
  | .expire now timeout => m.expire now timeout
  | .retainAdmitted admitted => m.retainAdmitted admitted

def Membership.delivers (m : Membership) : Op → Option Rpc
  | .acceptRaft rpc => if (m.acceptRaft rpc).2 then some rpc else none
  | _ => none

def Membership.delivered : Membership → List Op → List Rpc
  | _, [] => []
  | m, op :: ops => (m.delivers op).toList ++ (m.step op).delivered ops

/-- Whether a message would open a new window: its sender has none, or one of another boot that it is newer than. -/
def Membership.opens (m : Membership) (rpc : Rpc) : Bool := (m.peers.get rpc.node).any (fun peer => decide (peer.did = rpc.did) &&
    peer.replay.all (fun w => decide (rpc.boot ≠ w.boot) && decide (w.lastTsMs < rpc.tsMs)))

def Rpc.origin (rpc : Rpc) : String × String × Nat := (rpc.node, rpc.did, rpc.boot)

def Membership.opening (m : Membership) : Op → Option (String × String × Nat)
  | .acceptRaft rpc => if m.opens rpc then some rpc.origin else none
  | _ => none

def openedBy (opened : List (String × String × Nat)) (m : Membership) (op : Op) : List (String × String × Nat) :=
  (m.opening op).toList ++ opened

/-- **No window is opened twice** for the same node, DID and boot; `opened` are those opened before. -/
def Careful : List (String × String × Nat) → Membership → List Op → Prop
  | _, _, [] => True
  | opened, m, op :: ops => (∀ o ∈ m.opening op, o ∉ opened) ∧ Careful (openedBy opened m op) (m.step op) ops

instance instDecidableCareful : ∀ opened m ops, Decidable (Careful opened m ops)
  | _, _, [] => .isTrue trivial
  | opened, m, op :: ops =>
    have : Decidable (Careful (openedBy opened m op) (m.step op) ops) := instDecidableCareful _ _ ops
    inferInstanceAs (Decidable (_ ∧ _))

variable {m : Membership} {rpc x : Rpc}

/-- **What an accepted message does**: it opens a window, or its window had not seen it; the window has seen it then. -/
theorem acceptRaft_true (h : (m.acceptRaft rpc).2 = true) :
    ∃ peer window, m.peers.get rpc.node = some peer ∧ peer.did = rpc.did ∧ peer.window rpc = some window ∧
      (m.acceptRaft rpc).1 = { m with peers := m.peers.insert rpc.node { peer with replay := some window } } := by
  unfold Membership.acceptRaft at h ⊢
  split at h
  · cases h
  rename_i peer hp
  split at h
  · cases h
  rename_i hdid
  rw [if_neg hdid]
  split at h
  · cases h
  rename_i window hw
  exact ⟨peer, window, hp, not_not.1 hdid, hw, rfl⟩

theorem acceptRaft_false (h : (m.acceptRaft rpc).2 = false) : (m.acceptRaft rpc).1 = m := by
  unfold Membership.acceptRaft at h ⊢
  split
  · rfl
  split
  · rfl
  split
  · rfl
  rename_i peer hp hdid _ window hw
  rw [hp] at h
  dsimp only at h
  rw [if_neg hdid, hw] at h
  cases h

/-- **A window that has seen a message**, where it is its window. -/
def Seen (peer : Peer) (x : Rpc) : Prop := peer.did = x.did → ∀ w, peer.replay = some w → w.boot = x.boot → w.slide.accept x.seq = none

variable {peer : Peer}

variable {window : ReplayWindow}

theorem window_of_not_opens (hp : m.peers.get rpc.node = some peer)
    (hdid : peer.did = rpc.did) (hw : peer.window rpc = some window) (hopens : m.opens rpc = false) :
    ∃ w slide, peer.replay = some w ∧ w.boot = rpc.boot ∧ w.slide.accept rpc.seq = some slide ∧
      window = ⟨w.boot, slide, max w.lastTsMs rpc.tsMs⟩ := by
  unfold Membership.opens at hopens
  rw [hp, any_some, decide_eq_true hdid] at hopens
  unfold Peer.window at hw
  cases hr : peer.replay with
  | none => rw [hr] at hopens; cases hopens
  | some w =>
    rw [hr] at hw hopens
    rw [all_some] at hopens
    dsimp only at hw
    unfold ReplayWindow.accept at hw
    split at hw
    · rename_i hb
      split at hw
      · rename_i hlt
        rw [decide_eq_true hb, decide_eq_true hlt] at hopens
        cases hopens
      · cases hw
    · rename_i hb
      obtain ⟨slide, hs, rfl⟩ := map_eq_some_iff.1 hw
      exact ⟨w, slide, rfl, (not_not.1 hb).symm, hs, rfl⟩

theorem window_seen (hw : peer.window rpc = some window) : window.boot = rpc.boot ∧ window.slide.accept rpc.seq = none := by
  have hnew : (ReplayWindow.new rpc.boot rpc.seq rpc.tsMs).boot = rpc.boot ∧
      (ReplayWindow.new rpc.boot rpc.seq rpc.tsMs).slide.accept rpc.seq = none := ⟨rfl, Slide.new_refuses _⟩
  unfold Peer.window at hw
  split at hw
  · unfold ReplayWindow.accept at hw
    split at hw
    · split at hw
      · cases hw
        exact hnew
      · cases hw
    · rename_i hb
      obtain ⟨slide, hs, rfl⟩ := map_eq_some_iff.1 hw
      exact ⟨(not_not.1 hb).symm, Slide.accept_refuses hs⟩
  · cases hw
    exact hnew

/-- **The invariant**: what was delivered came through a window that was opened, and is seen by the one there is. -/
structure Holds (opened : List (String × String × Nat)) (m : Membership) (x : Rpc) : Prop where
  opened : x.origin ∈ opened
  seen : ∀ peer, m.peers.get x.node = some peer → Seen peer x

def Windows (opened : List (String × String × Nat)) (m : Membership) : Prop :=
  ∀ node peer w, m.peers.get node = some peer → peer.replay = some w → (node, peer.did, w.boot) ∈ opened

theorem step_peers {op : Op} (hop : ∀ rpc, op ≠ .acceptRaft rpc) {node : String}
    (h : (m.step op).peers.get node = some peer) :
    peer.replay = none ∨ ∃ old, m.peers.get node = some old ∧ old.did = peer.did ∧ old.replay = peer.replay := by
  have hfilter : ∀ doomed, (m.removeWhere doomed).peers.get node = some peer → ∃ old, m.peers.get node = some old ∧
      old.did = peer.did ∧ old.replay = peer.replay := by
    intro doomed hp
    rw [Membership.removeWhere, Table.get_filter] at hp
    exact ⟨peer, (filter_eq_some_iff.1 hp).1, rfl, rfl⟩
  cases op with
  | acceptRaft rpc => exact absurd rfl (hop rpc)
  | recordHello n did now =>
    unfold Membership.step Membership.recordHello at h
    dsimp only at h
    split at h
    · exact .inr ⟨peer, h, rfl, rfl⟩
    split at h
    · rename_i old hold
      split at h
      · rcases of_get_insert h with ⟨hn, rfl⟩ | ⟨-, h⟩
        · exact .inr ⟨old, hn ▸ hold, rfl, rfl⟩
        · exact .inr ⟨peer, h, rfl, rfl⟩
      · exact .inr ⟨peer, h, rfl, rfl⟩
    · split at h
      · exact .inr ⟨peer, h, rfl, rfl⟩
      · rcases of_get_insert h with ⟨-, rfl⟩ | ⟨-, h⟩
        · exact .inl rfl
        · exact .inr ⟨peer, h, rfl, rfl⟩
  | remove n =>
    obtain ⟨-, h⟩ := of_get_erase h
    exact .inr ⟨peer, h, rfl, rfl⟩
  | expire now timeout | retainAdmitted admitted => exact .inr (hfilter _ h)

variable {opened : List (String × String × Nat)} {op : Op}

theorem opening_acceptRaft (h : m.opens rpc = true) : m.opening (.acceptRaft rpc) = some rpc.origin := if_pos h

theorem mem_openedBy {o : String × String × Nat} (h : o ∈ opened) : o ∈ openedBy opened m op := List.mem_append_right _ h

theorem origin_opened (hw : Windows opened m) (h : (m.acceptRaft rpc).2 = true) : rpc.origin ∈ openedBy opened m (.acceptRaft rpc) := by
  cases hopens : m.opens rpc with
  | true => exact List.mem_append_left _ (mem_toList.2 (opening_acceptRaft hopens))
  | false =>
    obtain ⟨peer, window, hp, hdid, hwin, -⟩ := acceptRaft_true h
    obtain ⟨w, slide, hr, hb, -, -⟩ := window_of_not_opens hp hdid hwin hopens
    have := hw rpc.node peer w hp hr
    rw [hdid, hb] at this
    exact mem_openedBy this

theorem Windows.step (h : Windows opened m) : Windows (openedBy opened m op) (m.step op) := by
  intro node peer w hp hr
  by_cases hop : ∀ rpc, op ≠ .acceptRaft rpc
  · rcases step_peers hop hp with hnone | ⟨old, hold, hdid, hrep⟩
    · rw [hnone] at hr
      cases hr
    · exact mem_openedBy (hdid ▸ h node old w hold (hrep.trans hr))
  · rw [not_forall] at hop
    obtain ⟨rpc, hop⟩ := hop
    rw [not_not] at hop
    subst hop
    cases hacc : (m.acceptRaft rpc).2 with
    | false =>
      rw [Membership.step, acceptRaft_false hacc] at hp
      exact mem_openedBy (h node peer w hp hr)
    | true =>
      have horigin := origin_opened h hacc
      obtain ⟨old, window, hold, hdid, hwin, heq⟩ := acceptRaft_true hacc
      rw [Membership.step, heq] at hp
      rcases of_get_insert hp with ⟨hn, rfl⟩ | ⟨-, hp⟩
      · cases hr
        rw [hn, (window_seen hwin).1]
        rw [hdid]
        exact horigin
      · exact mem_openedBy (h node peer w hp hr)

theorem Holds.step (h : Holds opened m x) (hcareful : ∀ o ∈ m.opening op, o ∉ opened) : Holds (openedBy opened m op) (m.step op) x := by
  refine ⟨mem_openedBy h.opened, fun peer hp hdid w hr hb => ?_⟩
  by_cases hop : ∀ rpc, op ≠ .acceptRaft rpc
  · rcases step_peers hop hp with hnone | ⟨old, hold, hdid', hrep⟩
    · rw [hnone] at hr
      cases hr
    · exact h.seen old hold (hdid'.trans hdid) w (hrep.trans hr) hb
  · rw [not_forall] at hop
    obtain ⟨rpc, hop⟩ := hop
    rw [not_not] at hop
    subst hop
    cases hacc : (m.acceptRaft rpc).2 with
    | false =>
      rw [Membership.step, acceptRaft_false hacc] at hp
      exact h.seen peer hp hdid w hr hb
    | true =>
      obtain ⟨old, window, hold, hdid', hwin, heq⟩ := acceptRaft_true hacc
      rw [Membership.step, heq] at hp
      rcases of_get_insert hp with ⟨hn, rfl⟩ | ⟨-, hp⟩
      · cases hr
        have hboot := (window_seen hwin).1
        cases hopens : m.opens rpc with
        | true =>
          -- the window would be opened a second time
          refine absurd ?_ (hcareful _ (opening_acceptRaft hopens))
          have horigin : rpc.origin = x.origin := by
            unfold Rpc.origin
            rw [hn, ← hdid', ← hboot, hb]
            exact congrArg (fun d => (_, d, _)) hdid
          rw [horigin]
          exact h.opened
        | false =>
          obtain ⟨w', slide, hr', hb', hs, rfl⟩ := window_of_not_opens hold hdid' hwin hopens
          exact Slide.refuses_mono hs (h.seen old (hn ▸ hold) hdid w' hr' hb)
      · exact h.seen peer hp hdid w hr hb

theorem Holds.not_delivered : ∀ (ops : List Op) {opened : List (String × String × Nat)} {m : Membership},
    Holds opened m x → Windows opened m → Careful opened m ops → x ∉ m.delivered ops
  | [], _, _, _, _, _ => List.not_mem_nil
  | op :: ops, opened, m, h, hw, hc => by
    rw [Membership.delivered, List.mem_append, not_or]
    refine ⟨fun hx => ?_, (h.step hc.1).not_delivered ops hw.step hc.2⟩
    have hx := mem_toList.1 hx
    cases op with
    | acceptRaft rpc =>
      unfold Membership.delivers at hx
      dsimp only at hx
      split at hx
      · rename_i hacc
        cases hx
        obtain ⟨peer, window, hp, hdid, hwin, -⟩ := acceptRaft_true hacc
        cases hopens : m.opens x with
        | true => exact hc.1 _ (opening_acceptRaft hopens) h.opened
        | false =>
          obtain ⟨w, slide, hr, hb, hs, -⟩ := window_of_not_opens hp hdid hwin hopens
          rw [h.seen peer hp hdid w hr hb] at hs
          cases hs
      · cases hx
    | recordHello | remove | expire | retainAdmitted => cases hx

theorem holds_delivered (hw : Windows opened m) (h : m.delivers op = some x) : Holds (openedBy opened m op) (m.step op) x := by
  cases op with
  | acceptRaft rpc =>
    unfold Membership.delivers at h
    dsimp only at h
    split at h
    · rename_i hacc
      cases h
      refine ⟨origin_opened hw hacc, fun peer hp _ w hr _ => ?_⟩
      obtain ⟨old, window, -, -, hwin, heq⟩ := acceptRaft_true hacc
      rw [Membership.step, heq] at hp
      rw [get_insert_self] at hp
      cases hp
      cases hr
      exact (window_seen hwin).2
    · cases h
  | recordHello | remove | expire | retainAdmitted => cases h

theorem delivered_nodup : ∀ (ops : List Op) {opened : List (String × String × Nat)} {m : Membership},
    Windows opened m → Careful opened m ops → (m.delivered ops).Nodup
  | [], _, _, _, _ => List.nodup_nil
  | op :: ops, opened, m, hw, hc => by
    have ih := delivered_nodup ops hw.step hc.2
    rw [Membership.delivered]
    cases hd : m.delivers op with
    | none => exact ih
    | some x =>
      rw [toList_some, List.singleton_append, List.nodup_cons]
      exact ⟨(holds_delivered hw hd).not_delivered ops hw.step hc.2, ih⟩

/-- **Each message is delivered at most once**, in every run that opens no replay window a second time for the same node,
DID and boot. -/
theorem delivered_once (selfId : String) (ops : List Op) (h : Careful [] (.new selfId) ops) :
    ((Membership.new selfId).delivered ops).Nodup :=
  delivered_nodup ops nofun h

def restarted : List Op :=
  [.recordHello "peer" "did-peer" 0, .acceptRaft ⟨"peer", "did-peer", 7, 1, 100⟩, .acceptRaft ⟨"peer", "did-peer", 7, 1, 100⟩,
    .remove "peer", .recordHello "peer" "did-peer" 1, .acceptRaft ⟨"peer", "did-peer", 8, 1, 200⟩,
    .acceptRaft ⟨"peer", "did-peer", 7, 1, 100⟩]

theorem delivered_once_restarted : Careful [] (.new "self") restarted ∧ ((Membership.new "self").delivered restarted).Nodup := by
  have hc : Careful [] (.new "self") restarted := by decide
  exact ⟨hc, delivered_once "self" restarted hc⟩

/-- **A replay after a new hello**: the entry was dropped, and with it the window that had seen the message. -/
theorem rejoined_member_replayed : ¬((Membership.new "self").delivered [.recordHello "peer" "did-peer" 0,
    .acceptRaft ⟨"peer", "did-peer", 7, 1, 100⟩, .remove "peer", .recordHello "peer" "did-peer" 1,
    .acceptRaft ⟨"peer", "did-peer", 7, 1, 100⟩]).Nodup := by
  decide

end Mistl.Consensus
