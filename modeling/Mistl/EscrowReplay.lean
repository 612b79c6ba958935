import Mistl.Lib.Machine
import Mistl.Lib.Slide
import Mistl.Lib.Table
/-!
# EscrowReplay — each replication message is accepted once

`Replay` of `escrow/replication/wire.rs`: for each peer up to eight boots, each with a sliding window and the latest
timestamp it accepted.  A window is only forgotten when everything it accepted has left the clock skew (`Remembers`), so
what it forgets the freshness check refuses.
-/
open Mistl.Table Option

namespace Mistl.Escrow

def maxClockSkewMs : Nat := 120000

/-- `MAX_VOTERS` of the wire -/
def maxVoters : Nat := 64

def maxBoots : Nat := 8

/-- What `Replay::accept` reads of a decoded message. -/
structure Rpc where
  sender : String
  did : String
  boot : Nat
  seq : Nat
  tsMs : Nat
  deriving DecidableEq

/-- `Window` -/
structure ReplayWindow where
  slide : Slide
  lastTsMs : Nat

/-- `Window::accept`, nothing where the number is refused -/
def ReplayWindow.accept (w : ReplayWindow) (seq tsMs : Nat) : Option ReplayWindow :=
  (w.slide.accept seq).map fun slide => ⟨slide, max w.lastTsMs tsMs⟩

/-- `Peer` -/
structure ReplayPeer where
  did : String
  boots : Table Nat ReplayWindow

structure Replay where
  peers : Table String ReplayPeer

def Replay.default : Replay := ⟨∅⟩

def ReplayWindow.live (nowMs : Nat) (w : ReplayWindow) : Bool := decide (nowMs ≤ satAdd w.lastTsMs maxClockSkewMs)

def ReplayPeer.retain (nowMs : Nat) (p : ReplayPeer) : Option ReplayPeer :=
  let boots := p.boots.filter (fun _ w => w.live nowMs)
  if boots.size = 0 then none else some { p with boots := boots }

def Replay.retain (r : Replay) (nowMs : Nat) : Replay := ⟨r.peers.filterMap (fun _ p => p.retain nowMs)⟩

/-- `msg.ts_ms.abs_diff(now_ms) <= MAX_CLOCK_SKEW_MS` -/
def fresh (tsMs nowMs : Nat) : Bool := decide (tsMs - nowMs + (nowMs - tsMs) ≤ maxClockSkewMs)

def Replay.accept (r : Replay) (msg : Rpc) (nowMs : Nat) : Replay × Bool :=
  if msg.seq = 0 ∨ fresh msg.tsMs nowMs = false then (r, false)
  else
    let r := r.retain nowMs
    let entry := match r.peers.get msg.sender with
      | some peer => some peer
      | none => if maxVoters ≤ r.peers.size then none else some ⟨msg.did, ∅⟩
    match entry with
    | none => (r, false)
    | some peer =>
      let put (peer : ReplayPeer) : Replay := ⟨r.peers.insert msg.sender peer⟩
      if peer.did ≠ msg.did then (put peer, false)
      else match peer.boots.get msg.boot with
        | some window => match window.accept msg.seq msg.tsMs with
          | none => (put peer, false)
          | some window => (put { peer with boots := peer.boots.insert msg.boot window }, true)
        | none =>
          if maxBoots ≤ peer.boots.size then (put peer, false)
          else (put { peer with boots := peer.boots.insert msg.boot ⟨.new msg.seq, msg.tsMs⟩ }, true)

/-- A call of `Replay::accept`, the clock a word. -/
structure ReplayCall where
  msg : Rpc
  nowMs : Nat
  word : nowMs ≤ u64Max

def Replay.after (r : Replay) (calls : List ReplayCall) : Replay := calls.foldl (fun r c => (r.accept c.msg c.nowMs).1) r

def Replay.accepted : Replay → List ReplayCall → List Rpc
  | _, [] => []
  | r, c :: calls =>
    let rest := (r.accept c.msg c.nowMs).1.accepted calls
    if (r.accept c.msg c.nowMs).2 then c.msg :: rest else rest

def Rpc.key (m : Rpc) : String × Nat × Nat × Nat := (m.sender, m.boot, m.seq, m.tsMs)

/-! ## What the table remembers -/

variable {r : Replay} {m : Rpc} {nowMs : Nat}

/-- **A message the table refuses**: its window has seen it, and is no older than it. -/
def Replay.Remembers (r : Replay) (m : Rpc) : Prop :=
  ∃ p w, r.peers.get m.sender = some p ∧ p.boots.get m.boot = some w ∧ w.slide.accept m.seq = none ∧ m.tsMs ≤ w.lastTsMs

theorem le_of_fresh (h : fresh m.tsMs nowMs = true) : nowMs ≤ m.tsMs + maxClockSkewMs := by
  have := of_decide_eq_true h
  omega

theorem get_retain {k : String} {p : ReplayPeer} (h : r.peers.get k = some p) {boot : Nat} {w : ReplayWindow}
    (hw : p.boots.get boot = some w) (hlive : w.live nowMs = true) :
    ∃ p', (r.retain nowMs).peers.get k = some p' ∧ p'.did = p.did ∧ p'.boots.get boot = some w := by
  have hget : (p.boots.filter (fun _ w => w.live nowMs)).get boot = some w := by
    rw [Table.get_filter, hw]
    exact filter_some_pos hlive
  refine ⟨{ p with boots := p.boots.filter (fun _ w => w.live nowMs) }, ?_, rfl, hget⟩
  rw [Replay.retain, get_filterMap, h, bind_some]
  exact if_neg (size_ne_zero hget)

theorem Replay.Remembers.retain (h : r.Remembers m) (hword : nowMs ≤ u64Max) (hnow : nowMs ≤ m.tsMs + maxClockSkewMs) :
    (r.retain nowMs).Remembers m := by
  obtain ⟨p, w, hp, hw, hseen, hts⟩ := h
  have hlive : w.live nowMs = true := by
    refine decide_eq_true ?_
    unfold satAdd
    omega
  obtain ⟨p', hp', -, hw'⟩ := get_retain hp hw hlive
  exact ⟨p', w, hp', hw', hseen, hts⟩

theorem Replay.Remembers.accept {msg : Rpc} (h : (r.retain nowMs).Remembers m)
    (hfresh : ¬(msg.seq = 0 ∨ fresh msg.tsMs nowMs = false)) : (r.accept msg nowMs).1.Remembers m := by
  obtain ⟨p, w, hp, hw, hseen, hts⟩ := h
  have hput : ∀ peer : ReplayPeer, (msg.sender = m.sender → ∃ w', peer.boots.get m.boot = some w' ∧
      w'.slide.accept m.seq = none ∧ m.tsMs ≤ w'.lastTsMs) →
      Replay.Remembers ⟨(r.retain nowMs).peers.insert msg.sender peer⟩ m := by
    intro peer hpeer
    by_cases hs : m.sender = msg.sender
    · obtain ⟨w', h1, h2, h3⟩ := hpeer hs.symm
      exact ⟨peer, w', by rw [hs]; exact get_insert_self _ _ _, h1, h2, h3⟩
    · exact ⟨p, w, (get_insert_ne hs _ _).trans hp, hw, hseen, hts⟩
  unfold Replay.accept
  rw [if_neg hfresh]
  dsimp only
  split
  · exact ⟨p, w, hp, hw, hseen, hts⟩
  rename_i peer hentry
  have hsame : msg.sender = m.sender → peer = p := by
    intro hs
    rw [hs, hp] at hentry
    exact (Option.some.inj hentry).symm
  split
  · exact hput peer (fun hs => ⟨w, hsame hs ▸ hw, hseen, hts⟩)
  split
  · rename_i window hwin
    split
    · exact hput peer (fun hs => ⟨w, hsame hs ▸ hw, hseen, hts⟩)
    · rename_i window' hacc
      refine hput _ (fun hs => ?_)
      obtain ⟨slide, hslide, rfl⟩ := map_eq_some_iff.1 hacc
      by_cases hb : m.boot = msg.boot
      · rw [← hb, hsame hs, hw] at hwin
        cases hwin
        exact ⟨_, by rw [hb]; exact get_insert_self _ _ _, Slide.refuses_mono hslide hseen, le_trans hts (le_max_left _ _)⟩
      · exact ⟨w, by rw [get_insert_ne hb, hsame hs, hw], hseen, hts⟩
  · rename_i hwin
    split
    · exact hput peer (fun hs => ⟨w, hsame hs ▸ hw, hseen, hts⟩)
    · refine hput _ (fun hs => ⟨w, ?_, hseen, hts⟩)
      have hb : m.boot ≠ msg.boot := by
        intro hb
        rw [← hb, hsame hs, hw] at hwin
        cases hwin
      rw [get_insert_ne hb, hsame hs, hw]

theorem accept_true {msg : Rpc} (h : (r.accept msg nowMs).2 = true) :
    fresh msg.tsMs nowMs = true ∧ (∀ m : Rpc, m.key = msg.key → ¬(r.retain nowMs).Remembers m) ∧
      ∀ m : Rpc, m.key = msg.key → (r.accept msg nowMs).1.Remembers m := by
  have hkey : ∀ m : Rpc, m.key = msg.key → m.sender = msg.sender ∧ m.boot = msg.boot ∧ m.seq = msg.seq ∧ m.tsMs = msg.tsMs := by
    intro m hm
    simpa [Rpc.key] using hm
  unfold Replay.accept at h ⊢
  split at h
  · cases h
  rename_i hfresh
  rw [if_neg hfresh]
  dsimp only at h ⊢
  split at h
  · cases h
  rename_i peer hentry
  split at h
  · cases h
  rename_i hdid
  rw [if_neg hdid]
  refine ⟨by simpa using (not_or.1 hfresh).2, ?_⟩
  have hpeer : ∀ p, (r.retain nowMs).peers.get msg.sender = some p → p = peer := by
    intro p hp
    rw [hp] at hentry
    exact Option.some.inj hentry
  split at h
  · rename_i window hwin
    split at h
    · cases h
    · rename_i window' hacc
      obtain ⟨slide, hslide, rfl⟩ := map_eq_some_iff.1 hacc
      refine ⟨fun m hm => ?_, fun m hm => ?_⟩
      · rintro ⟨p, w, hp, hw, hseen, -⟩
        obtain ⟨h1, h2, h3, -⟩ := hkey m hm
        rw [h1] at hp
        rw [hpeer p hp, h2, hwin] at hw
        cases hw
        rw [h3, hslide] at hseen
        cases hseen
      · obtain ⟨h1, h2, h3, h4⟩ := hkey m hm
        refine ⟨_, _, by rw [h1]; exact get_insert_self _ _ _, by rw [h2]; exact get_insert_self _ _ _, ?_, ?_⟩
        · rw [h3]
          exact Slide.accept_refuses hslide
        · rw [h4]
          exact le_max_right _ _
  · rename_i hwin
    split at h
    · cases h
    · rename_i hroom
      rw [if_neg hroom]
      refine ⟨fun m hm => ?_, fun m hm => ?_⟩
      · rintro ⟨p, w, hp, hw, -, -⟩
        obtain ⟨h1, h2, -, -⟩ := hkey m hm
        rw [h1] at hp
        rw [hpeer p hp, h2, hwin] at hw
        cases hw
      · obtain ⟨h1, h2, h3, h4⟩ := hkey m hm
        refine ⟨_, _, by rw [h1]; exact get_insert_self _ _ _, by rw [h2]; exact get_insert_self _ _ _, ?_, ?_⟩
        · rw [h3]
          exact Slide.new_refuses _
        · rw [h4]

theorem Replay.Remembers.call {msg : Rpc} (h : r.Remembers m) (hword : nowMs ≤ u64Max)
    (hnow : nowMs ≤ m.tsMs + maxClockSkewMs) : (r.accept msg nowMs).1.Remembers m := by
  by_cases hfresh : msg.seq = 0 ∨ fresh msg.tsMs nowMs = false
  · unfold Replay.accept
    rw [if_pos hfresh]
    exact h
  · exact (h.retain hword hnow).accept hfresh

/-! ## Whole runs -/

theorem not_mem_accepted : ∀ (calls : List ReplayCall) (r : Replay) (m : Rpc) (start : Nat),
    (m.tsMs + maxClockSkewMs < start ∨ r.Remembers m) → (∀ c ∈ calls, start ≤ c.nowMs) →
    calls.Pairwise (fun a b => a.nowMs ≤ b.nowMs) → ∀ x ∈ r.accepted calls, x.key ≠ m.key
  | [], _, _, _, _, _, _ => nofun
  | c :: calls, r, m, start, hm, hstart, hsorted => by
    intro x hx hkey
    rw [List.pairwise_cons] at hsorted
    have hnow := hstart c List.mem_cons_self
    have hnext : m.tsMs + maxClockSkewMs < c.nowMs ∨ (r.accept c.msg c.nowMs).1.Remembers m := by
      rcases hm with hold | hrem
      · exact .inl (lt_of_lt_of_le hold hnow)
      · by_cases hlt : m.tsMs + maxClockSkewMs < c.nowMs
        · exact .inl hlt
        · exact .inr (hrem.call c.word (Nat.not_lt.1 hlt))
    have hrest := not_mem_accepted calls (r.accept c.msg c.nowMs).1 m c.nowMs hnext hsorted.1 hsorted.2
    rw [Replay.accepted] at hx
    split at hx
    · rename_i hacc
      rcases List.mem_cons.1 hx with rfl | hx
      · obtain ⟨hfresh, hnot, -⟩ := accept_true hacc
        have hle := le_of_fresh hfresh
        have hts : c.msg.tsMs = m.tsMs := by
          simp only [Rpc.key, Prod.mk.injEq] at hkey
          exact hkey.2.2.2
        rcases hm with hold | hrem
        · omega
        · exact hnot m hkey.symm (hrem.retain c.word (by omega))
      · exact hrest x hx hkey
    · exact hrest x hx hkey

theorem accepted_nodup : ∀ (calls : List ReplayCall) (r : Replay), calls.Pairwise (fun a b => a.nowMs ≤ b.nowMs) →
    ((r.accepted calls).map Rpc.key).Nodup
  | [], _, _ => List.nodup_nil
  | c :: calls, r, hsorted => by
    rw [List.pairwise_cons] at hsorted
    have ih := accepted_nodup calls (r.accept c.msg c.nowMs).1 hsorted.2
    rw [Replay.accepted]
    split
    · rename_i hacc
      rw [List.map_cons, List.nodup_cons]
      refine ⟨fun hmem => ?_, ih⟩
      obtain ⟨x, hx, hkey⟩ := List.mem_map.1 hmem
      exact not_mem_accepted calls _ c.msg c.nowMs (.inr ((accept_true hacc).2.2 c.msg rfl)) hsorted.1 hsorted.2 x hx hkey
    · exact ih

/-- **The table stays small.** -/
def Replay.Small (r : Replay) : Prop := r.peers.size ≤ maxVoters ∧ ∀ k p, r.peers.get k = some p → p.boots.size ≤ maxBoots

theorem Replay.Small.retain (h : r.Small) (nowMs : Nat) : (r.retain nowMs).Small := by
  have hget : ∀ k p, (r.retain nowMs).peers.get k = some p → ∃ p', r.peers.get k = some p' ∧ p'.retain nowMs = some p := by
    intro k p hp
    rw [Replay.retain, get_filterMap] at hp
    exact bind_eq_some_iff.1 hp
  refine ⟨le_trans (size_le_of_keys (fun k p hp => ?_)) h.1, fun k p hp => ?_⟩
  · obtain ⟨p', hp', -⟩ := hget k p hp
    rw [hp']
    exact some_ne_none _
  · obtain ⟨p', hp', hret⟩ := hget k p hp
    unfold ReplayPeer.retain at hret
    dsimp only at hret
    split at hret
    · cases hret
    · cases hret
      refine le_trans (size_le_of_keys (fun b w hw => ?_)) (h.2 k p' hp')
      rw [Table.get_filter] at hw
      rw [(filter_eq_some_iff.1 hw).1]
      exact some_ne_none _

theorem size_insert_le {κ ν : Type} [DecidableEq κ] (t : Table κ ν) (k : κ) (v : ν) {bound : Nat} (hle : t.size ≤ bound)
    (hnew : t.get k = none → t.size < bound) : (t.insert k v).size ≤ bound := by
  cases hg : t.get k with
  | none => rw [size_insert hg]; exact hnew hg
  | some w => rw [size_replace hg]; exact hle

theorem Replay.Small.accept (h : r.Small) (msg : Rpc) (nowMs : Nat) : (r.accept msg nowMs).1.Small := by
  unfold Replay.accept
  split
  · exact h
  have hs := h.retain nowMs
  dsimp only
  split
  · exact hs
  rename_i peer hentry
  have hpeer : peer.boots.size ≤ maxBoots ∧
      ((r.retain nowMs).peers.get msg.sender = none → (r.retain nowMs).peers.size < maxVoters) := by
    split at hentry
    · rename_i p hp
      cases hentry
      exact ⟨hs.2 _ _ hp, fun hn => by rw [hn] at hp; cases hp⟩
    · split at hentry
      · cases hentry
      · rename_i hroom
        cases hentry
        exact ⟨Nat.zero_le _, fun _ => Nat.not_le.1 hroom⟩
  have hput : ∀ p : ReplayPeer, p.boots.size ≤ maxBoots → Replay.Small ⟨(r.retain nowMs).peers.insert msg.sender p⟩ := by
    intro p hp
    refine ⟨size_insert_le _ _ _ hs.1 hpeer.2, fun k q hq => ?_⟩
    rcases of_get_insert hq with ⟨-, rfl⟩ | ⟨-, hq⟩
    · exact hp
    · exact hs.2 k q hq
  split
  · exact hput peer hpeer.1
  split
  · rename_i window hwin
    split
    · exact hput peer hpeer.1
    · refine hput _ (size_insert_le _ _ _ hpeer.1 (fun hn => ?_))
      rw [hwin] at hn
      cases hn
  · split
    · exact hput peer hpeer.1
    · rename_i hroom
      exact hput _ (size_insert_le _ _ _ hpeer.1 (fun _ => Nat.not_le.1 hroom))

theorem Replay.Small.after : ∀ (calls : List ReplayCall) {r : Replay}, r.Small → (r.after calls).Small
  | [], _, h => h
  | c :: calls, _, h => Replay.Small.after calls (h.accept c.msg c.nowMs)

/-- **Replay protection of the replication messages**: on a clock that does not go back no message is accepted twice, and
at most 64 peers with 8 windows each are kept. -/
theorem rpc_accepted_once (calls : List ReplayCall) (hclock : calls.Pairwise (fun a b => a.nowMs ≤ b.nowMs)) :
    ((Replay.default.accepted calls).map Rpc.key).Nodup ∧ (Replay.default.after calls).peers.size ≤ 64 ∧
      ∀ k p, (Replay.default.after calls).peers.get k = some p → p.boots.size ≤ 8 := by
  have hsmall : Replay.default.Small := ⟨Nat.zero_le _, nofun⟩
  exact ⟨accepted_nodup calls .default hclock, hsmall.after calls⟩

def replayedCalls : List ReplayCall :=
  [⟨⟨"peer", "did-peer", 1, 1, 1000⟩, 1000, by decide⟩, ⟨⟨"peer", "did-peer", 1, 1, 1000⟩, 1001, by decide⟩,
    ⟨⟨"peer", "did-peer", 2, 1, 121001⟩, 121001, by decide⟩, ⟨⟨"peer", "did-peer", 1, 1, 1000⟩, 121001, by decide⟩]

theorem rpc_accepted_once_replayed :
    Replay.default.accepted replayedCalls = [⟨"peer", "did-peer", 1, 1, 1000⟩, ⟨"peer", "did-peer", 2, 1, 121001⟩] ∧
      (Replay.default.after replayedCalls).peers.size ≤ 64 :=
  ⟨by decide, (rpc_accepted_once replayedCalls (by decide)).2.1⟩

end Mistl.Escrow
