import Mistl.TunnelStdio
/-!
# TunnelOwner — who owns a stdio session

Every run of the executor whose steps are `Orderly` is `Owned`: three invariants, of the authorizations, of what the worker and
the cleanups share, and of the logs.
-/
open List Mistl.Table Option

namespace Mistl.Tunnel
namespace Stdio

variable {gate : Bool} {command : List String} {x x' : Executor} {act : Act}

/-! ## Authorizations -/

def Executor.Fresh (x : Executor) (peerId : String) (auth : Nat) : Prop :=
  ∃ a, x.auths[auth]? = some a ∧ a.peerId = peerId ∧ ∀ t, x.lastClose.get peerId = some t → t < a.started

def Worker.auth : Worker → Option (String × Nat)
  | .authActive peerId _ auth => some (peerId, auth)
  | .authStdin peerId _ auth => some (peerId, auth)
  | .claim peerId _ auth => some (peerId, auth)
  | _ => none

structure Executor.Granting (x : Executor) : Prop where
  clock : ∀ peerId t, x.lastClose.get peerId = some t → t < x.clock
  pending : ∀ peerId entry, x.pendingOpens.get peerId = some entry → x.Fresh peerId entry.auth
  worker : ∀ peerId auth, x.worker.auth = some (peerId, auth) → x.Fresh peerId auth
  granted : ∀ g ∈ x.grants, ∀ t, g.lastClose = some t → t < g.started

variable {peerId : String} {k : Nat}

namespace Executor

theorem Granting.frame (h : x.Granting) (hauths : x'.auths = x.auths) (hpending : x'.pendingOpens = x.pendingOpens)
    (hclose : x'.lastClose = x.lastClose) (hgrants : x'.grants = x.grants) (hclock : x.clock ≤ x'.clock)
    (hworker : ∀ y, x'.worker.auth = some y → x.worker.auth = some y) : x'.Granting := by
  have hfresh : ∀ peerId auth, x.Fresh peerId auth → x'.Fresh peerId auth := fun peerId auth hf => by
    rw [Fresh, hauths, hclose]
    exact hf
  refine ⟨fun peerId t ht => ?_, fun peerId entry he => ?_, fun peerId auth ha => ?_, ?_⟩
  · exact (h.clock peerId t (hclose ▸ ht)).trans_le hclock
  · exact hfresh _ _ (h.pending peerId entry (hpending ▸ he))
  · exact hfresh _ _ (h.worker peerId auth (hworker _ ha))
  · rw [hgrants]
    exact h.granted

theorem Fresh.answer {k auth : Nat} {a : Auth} (h : x.Fresh peerId auth) (hk : x.auths[k]? = some a)
    (hauths : x'.auths = x.auths.set k { a with answered := true }) (hclose : x'.lastClose = x.lastClose) :
    x'.Fresh peerId auth := by
  obtain ⟨b, hb, hpeer, hlast⟩ := h
  rw [Fresh, hauths, hclose, getElem?_set]
  by_cases hij : k = auth
  · subst hij
    obtain rfl := Option.some.inj (hb.symm.trans hk)
    exact ⟨{ b with answered := true }, by rw [if_pos rfl, if_pos (List.getElem?_eq_some_iff.1 hk).1], hpeer, hlast⟩
  · exact ⟨b, by rw [if_neg hij, hb], hpeer, hlast⟩

section

variable (h : x.Granting)

include h

theorem Granting.answer {a : Auth} (hk : x.auths[k]? = some a)
    (hauths : x'.auths = x.auths.set k { a with answered := true }) (hclose : x'.lastClose = x.lastClose)
    (hpending : ∀ peerId entry, x'.pendingOpens.get peerId = some entry → x.pendingOpens.get peerId = some entry)
    (hgrants : x'.grants = x.grants) (hclock : x.clock ≤ x'.clock)
    (hworker : ∀ peerId auth, x'.worker.auth = some (peerId, auth) → x.Fresh peerId auth) : x'.Granting := by
  refine ⟨fun peerId t ht => ?_, fun peerId entry he => ?_, fun peerId auth ha => ?_, ?_⟩
  · exact (h.clock peerId t (hclose ▸ ht)).trans_le hclock
  · exact (h.pending peerId entry (hpending _ _ he)).answer hk hauths hclose
  · exact (hworker peerId auth ha).answer hk hauths hclose
  · rw [hgrants]
    exact h.granted

theorem Granting.take (hstep : Take x x') : x'.Granting := by
  cases hstep with
  | message peerId data hidle => exact h.frame rfl rfl rfl rfl (Nat.le_succ _) nofun
  | opened hidle =>
    refine h.frame rfl rfl rfl rfl (Nat.le_succ _) (fun y hy => ?_)
    exact hy
  | close peerId hidle =>
    refine ⟨fun p t ht => ?_, fun p entry he => ?_, nofun, h.granted⟩
    · rcases of_get_insert ht with ⟨-, rfl⟩ | ⟨-, ht⟩
      · exact Nat.lt_succ_self _
      · exact (h.clock p t ht).trans (Nat.lt_succ_self _)
    · obtain ⟨hp, hold⟩ := of_get_erase he
      obtain ⟨a, ha, hpeer, hlast⟩ := h.pending p entry hold
      refine ⟨a, ha, hpeer, fun t ht => hlast t ?_⟩
      rw [← ht, get_insert_ne hp]
  | @denied k a hidle hk hanswered =>
    refine h.answer hk rfl rfl (fun p entry he => ?_) rfl (Nat.le_succ _) (fun p auth ha => h.worker p auth ha)
    exact (of_get_erase he).2
  | withdrawn hidle hk hanswered hnone =>
    exact h.answer hk rfl rfl (fun _ _ he => he) rfl (Nat.le_succ _) fun p auth ha => h.worker p auth ha

/-- **A result that is taken for its own open** is of an authorization started after the last close. -/
theorem Granting.allowed (hstep : TakeAllowed k x x') (hok : Orderly x (.allowed k)) : x'.Granting := by
  cases hstep with
  | pending hidle hk hanswered hentry =>
    refine h.answer hk rfl rfl (fun p e he => ?_) rfl (Nat.le_succ _) (fun p auth ha => ?_)
    · exact (of_get_erase he).2
    · obtain ⟨rfl, rfl⟩ := Prod.mk.inj (Option.some.inj ha)
      have hfresh := h.pending _ _ hentry
      rw [hok _ _ hk hentry] at hfresh
      exact hfresh

theorem Granting.queue (peerId : String) (data : Bytes) : (x.queue peerId data).Granting := by
  unfold Executor.queue
  cases hentry : x.pendingOpens.get peerId with
  | none => exact h.frame rfl rfl rfl rfl le_rfl nofun
  | some entry =>
    dsimp only
    split
    · refine ⟨h.clock, fun p e he => ?_, nofun, h.granted⟩
      rcases of_get_insert he with ⟨rfl, rfl⟩ | ⟨-, he⟩
      · exact h.pending p entry hentry
      · exact h.pending p e he
    · exact h.frame rfl rfl rfl rfl le_rfl nofun

theorem Granting.insertOpen (peerId : String) : (x.insertOpen peerId).Granting := by
  unfold Executor.insertOpen
  split
  · exact h
  · have hold : ∀ {p auth}, x.Fresh p auth → ∃ a, (x.auths ++ [⟨peerId, x.clock, false⟩])[auth]? = some a ∧ a.peerId = p ∧
        ∀ t, x.lastClose.get p = some t → t < a.started := by
      rintro p auth ⟨a, ha, hpeer, hlast⟩
      exact ⟨a, by rw [getElem?_append_left (List.getElem?_eq_some_iff.1 ha).1, ha], hpeer, hlast⟩
    refine ⟨h.clock, fun p e he => ?_, fun p auth ha => hold (h.worker p auth ha), h.granted⟩
    rcases of_get_insert he with ⟨hp, rfl⟩ | ⟨-, he⟩
    · refine ⟨⟨peerId, x.clock, false⟩, ?_, hp.symm, fun t ht => h.clock p t ht⟩
      rw [getElem?_append_right le_rfl, Nat.sub_self]
      rfl
    · exact hold (h.pending p e he)

theorem Granting.read (hstep : Read gate x x') : x'.Granting := by
  cases hstep with
  | own hw hactive =>
    refine h.frame rfl rfl rfl rfl le_rfl (fun y hy => ?_)
    split at hy <;> cases hy
  | other hw hactive | openBusy hw => exact h.queue _ _
  | opening hw hactive hgate hnone | openFree hw hactive | wrote hw | dropped hw | write hw hstdin
  | notActive hw hactive | authBusy hw => exact h.frame rfl rfl rfl rfl le_rfl nofun
  | insertOpen hw hstdin => exact (h.insertOpen _).queue _ _
  | authFree hw hactive | claiming hw hstdin => exact h.frame rfl rfl rfl rfl le_rfl fun y hy => by rw [hw]; exact hy

theorem Granting.write (hstep : Write command x x') : x'.Granting := by
  cases hstep with
  | @claim peerId queued k hw =>
    refine ⟨h.clock, h.pending, nofun, fun g hg t ht => ?_⟩
    rcases mem_append.1 hg with hg | hg
    · exact h.granted g hg t ht
    · rw [mem_singleton.1 hg] at ht ⊢
      obtain ⟨a, ha, -, hlast⟩ := h.worker peerId k (by rw [hw]; rfl)
      rw [grant, ha]
      exact hlast t ht
  | _ => exact h.frame rfl rfl rfl rfl le_rfl nofun

theorem Granting.tidy (hstep : Tidy x x') : x'.Granting := by
  cases hstep <;> exact h.frame rfl rfl rfl rfl le_rfl fun _ hy => hy

theorem Granting.check (hstep : Check x x') : x'.Granting := by
  cases hstep
  exact h.frame rfl rfl rfl rfl le_rfl fun _ hy => hy

end

end Executor

/-! ## Sessions and children -/

inductive View where
  | steady
  | closing
  | launching (peerId : String)
  | installing (child : Nat) (peerId : String)
  | bumping (child : Nat) (peerId : String)

def Worker.view : Worker → View
  | .closeStdin => .closing
  | .closeKill => .closing
  | .spawn peerId _ => .launching peerId
  | .failed peerId _ => .launching peerId
  | .installStdin c peerId _ => .installing c peerId
  | .installKill c peerId _ => .installing c peerId
  | .bump c peerId _ => .bumping c peerId
  | _ => .steady

def View.starting : View → Bool
  | .steady => false
  | .closing => false
  | _ => true

theorem Worker.starting_view (w : Worker) : w.starting = w.view.starting := by
  cases w <;> rfl

def Child.Runs (d : Child) : Prop := d.alive = true ∧ d.killed = false

def View.Fits (x : Executor) : View → Prop
  | .steady => ∀ (c : Nat) (d : Child), x.children[c]? = some d → d.Runs → x.activePeer = some d.owner ∧ x.killTx = some c
  | .closing => x.activePeer = none ∧ ∀ (c : Nat) (d : Child), x.children[c]? = some d → d.Runs → x.killTx = some c
  | .launching peerId => x.activePeer = some peerId ∧ x.stdinTx = none ∧ ∀ (c : Nat) (d : Child), x.children[c]? = some d → ¬ d.Runs
  | .installing c peerId => c + 1 = x.children.length ∧ x.activePeer = some peerId ∧ x.killTx ≠ some c ∧
      ∃ d : Child, x.children[c]? = some d ∧ d.owner = peerId ∧ d.session = x.session
  | .bumping c peerId => c + 1 = x.children.length ∧ x.activePeer = some peerId ∧ x.killTx = some c ∧
      ∃ d : Child, x.children[c]? = some d ∧ d.owner = peerId ∧ d.session = x.session

def View.unborn : View → Option Nat
  | .installing c _ => some c
  | .bumping c _ => some c
  | _ => none

/-- **What the worker and the cleanups share.** -/
structure Executor.Shared (command : List String) (x : Executor) : Prop where
  stdin : ∀ c, x.stdinTx = some c → c + 1 = x.children.length ∧
    ∃ d, x.children[c]? = some d ∧ (x.activePeer = none ∨ x.activePeer = some d.owner)
  active : x.activePeer ≠ none → x.worker.view.starting = true ∨ command = [] ∨
    ∃ d, x.children[x.children.length - 1]? = some d ∧ x.activePeer = some d.owner ∧ d.session = x.session
  childless : command = [] → x.children = []
  born : ∀ c d, x.children[c]? = some d → (d.cleanup = .unborn → x.worker.view.unborn = some c) ∧ (d.cleanup ≠ .unborn → d.gen = c + 1)
  generation : x.generation + (x.worker.view.unborn.elim 0 (fun _ => 1)) = x.children.length
  room : x.children.length < 2 ^ 64
  cleaning : ∀ c d, x.children[c]? = some d → d.cleanup = .clearStdin ∨ d.cleanup = .clearActive →
    c + 1 = x.children.length ∧ d.alive = false ∧ x.worker.view.starting = false
  kill : ∀ c, x.killTx = some c → c < x.children.length
  latest : ∀ (c : Nat) (d : Child), x.children[c]? = some d → d.Runs → c + 1 = x.children.length
  view : x.worker.view.Fits x

variable {f : Child → Child} {l : List Child} {d : Child}

theorem get_modify {c j : Nat} (h : (l.modify c f)[j]? = some d) : ∃ e, l[j]? = some e ∧ ((j = c ∧ d = f e) ∨ (j ≠ c ∧ d = e)) := by
  rw [getElem?_modify] at h
  obtain ⟨e, he, hd⟩ := map_eq_some_iff.1 h
  by_cases hc : c = j
  · rw [if_pos hc] at hd
    exact ⟨e, he, .inl ⟨hc.symm, hd.symm⟩⟩
  · rw [if_neg hc] at hd
    exact ⟨e, he, .inr ⟨fun h => hc h.symm, hd.symm⟩⟩

theorem modify_get {j : Nat} {e : Child} (c : Nat) (h : l[j]? = some e) : (l.modify c f)[j]? = some (if c = j then f e else e) := by
  rw [getElem?_modify, h]
  split <;> rfl

namespace Executor

section

variable (h : x.Shared command)

include h

theorem Shared.frame (hactive : x'.activePeer = x.activePeer) (hstdin : x'.stdinTx = x.stdinTx)
    (hkill : x'.killTx = x.killTx) (hgen : x'.generation = x.generation) (hchildren : x'.children = x.children)
    (hsession : x'.session = x.session) (hview : x'.worker.view = x.worker.view) : x'.Shared command := by
  have hfits : ∀ v : View, v.Fits x → v.Fits x' := by
    intro v hv
    cases v <;> simp only [View.Fits, hactive, hstdin, hkill, hchildren, hsession] <;> exact hv
  obtain ⟨h1, h2, h3, h4, h5, h6, h7, h8, h9, h10⟩ := h
  refine ⟨?_, ?_, ?_, ?_, ?_, ?_, ?_, ?_, ?_, ?_⟩
  · rw [hstdin, hchildren, hactive]
    exact h1
  · rw [hactive, hview, hchildren, hsession]
    exact h2
  · rw [hchildren]
    exact h3
  · rw [hchildren, hview]
    exact h4
  · rw [hgen, hview, hchildren]
    exact h5
  · rw [hchildren]
    exact h6
  · rw [hchildren, hview]
    exact h7
  · rw [hkill, hchildren]
    exact h8
  · rw [hchildren]
    exact h9
  · rw [hview]
    exact hfits _ h10

theorem Shared.take (hstep : Take x x') : x'.Shared command := by
  cases hstep with
  | message peerId data hidle | close peerId hidle => exact h.frame rfl rfl rfl rfl rfl rfl (by rw [hidle]; rfl)
  | opened hidle | denied hidle hk hanswered | withdrawn hidle hk hanswered hnone => exact h.frame rfl rfl rfl rfl rfl rfl rfl

theorem Shared.allowed (hstep : TakeAllowed k x x') : x'.Shared command := by
  cases hstep with
  | pending hidle hk hanswered hentry => exact h.frame rfl rfl rfl rfl rfl rfl (by rw [hidle]; rfl)

theorem Shared.queue (hview : x.worker.view = .steady) (peerId : String) (data : Bytes) : (x.queue peerId data).Shared command := by
  unfold Executor.queue
  dsimp only
  split
  · split
    · exact h.frame rfl rfl rfl rfl rfl rfl hview.symm
    · exact h.frame rfl rfl rfl rfl rfl rfl hview.symm
  · exact h.frame rfl rfl rfl rfl rfl rfl hview.symm

theorem Shared.insertOpen (peerId : String) : (x.insertOpen peerId).Shared command := by
  unfold Executor.insertOpen
  split
  · exact h
  · exact h.frame rfl rfl rfl rfl rfl rfl rfl

end

theorem insertOpen_worker (peerId : String) : (x.insertOpen peerId).worker = x.worker := by
  unfold Executor.insertOpen
  split <;> rfl

theorem Shared.read (h : x.Shared command) (hstep : Read gate x x') : x'.Shared command := by
  cases hstep with
  | own hw hactive =>
    refine h.frame rfl rfl rfl rfl rfl rfl ?_
    rw [hw]
    split <;> rfl
  | other hw hactive => exact h.queue (by rw [hw]; rfl) _ _
  | opening hw hactive hgate hnone | openFree hw hactive | wrote hw | dropped hw | write hw hstdin
  | notActive hw hactive | authFree hw hactive | claiming hw hstdin => exact h.frame rfl rfl rfl rfl rfl rfl (by rw [hw]; rfl)
  | openBusy hw => exact h.queue (by rcases hw with hw | hw <;> rw [hw.1] <;> rfl) _ _
  | insertOpen hw hstdin => exact (h.insertOpen _).queue (by rw [insertOpen_worker, hw]; rfl) _ _
  | authBusy hw => exact h.frame rfl rfl rfl rfl rfl rfl (by rcases hw with hw | hw <;> rw [hw.1] <;> rfl)

end Executor

/-- What a child keeps while it ends and is cleaned up after. -/
structure Child.Later (d d' : Child) : Prop where
  owner : d'.owner = d.owner
  session : d'.session = d.session
  gen : d'.gen = d.gen
  runs : d'.Runs → d.Runs
  ended : d.alive = false → d'.alive = false
  unborn : d'.cleanup = .unborn ↔ d.cleanup = .unborn

theorem Child.Later.refl (d : Child) : d.Later d := ⟨rfl, rfl, rfl, id, id, Iff.rfl⟩

structure Follows (l l' : List Child) : Prop where
  length : l'.length = l.length
  get : ∀ (c : Nat) (d' : Child), l'[c]? = some d' → ∃ d, l[c]? = some d ∧ d.Later d'

theorem Follows.modify (c : Nat) (hf : ∀ d, l[c]? = some d → d.Later (f d)) : Follows l (l.modify c f) := by
  refine ⟨length_modify .., fun j d' hd' => ?_⟩
  obtain ⟨e, he, ⟨rfl, rfl⟩ | ⟨-, rfl⟩⟩ := get_modify hd'
  · exact ⟨e, he, hf e he⟩
  · exact ⟨d', he, Child.Later.refl d'⟩

variable {c : Nat}

theorem Follows.at (hd : l[c]? = some d) (hf : d.Later (f d)) : Follows l (l.modify c f) := Follows.modify c fun e he => by
    obtain rfl := Option.some.inj (he.symm.trans hd)
    exact hf

theorem Follows.next {l l' : List Child} (h : Follows l l') (hd : l[c]? = some d) : ∃ d', l'[c]? = some d' ∧ d.Later d' := by
  have hlt : c < l'.length := h.length ▸ (List.getElem?_eq_some_iff.1 hd).1
  obtain ⟨e, he, hlater⟩ := h.get c _ (getElem?_eq_getElem hlt)
  obtain rfl := Option.some.inj (hd.symm.trans he)
  exact ⟨_, getElem?_eq_getElem hlt, hlater⟩

namespace Executor

section

variable (h : x.Shared command)

include h

theorem Shared.thin (hchildren : Follows x.children x'.children)
    (hactive : x'.activePeer = x.activePeer ∨ (x'.activePeer = none ∧ x.worker.view.starting = false ∧
      ∀ (c : Nat) (d : Child), x.children[c]? = some d → ¬ d.Runs))
    (hstdin : x'.stdinTx = x.stdinTx ∨ x'.stdinTx = none) (hkill : x'.killTx = x.killTx)
    (hgen : x'.generation = x.generation) (hsession : x'.session = x.session) (hworker : x'.worker = x.worker)
    (hcleaning : ∀ c d, x'.children[c]? = some d → d.cleanup = .clearStdin ∨ d.cleanup = .clearActive →
      c + 1 = x.children.length ∧ d.alive = false ∧ x.worker.view.starting = false) : x'.Shared command := by
  have hactive' : ∀ p, x.activePeer = none ∨ x.activePeer = some p → x'.activePeer = none ∨ x'.activePeer = some p := by
    intro p hp
    rcases hactive with heq | ⟨hnone, -⟩
    · rwa [heq]
    · exact .inl hnone
  have hsame : x'.activePeer ≠ none → x'.activePeer = x.activePeer := fun hne => by
    rcases hactive with heq | ⟨hnone, -⟩
    · exact heq
    · exact absurd hnone hne
  refine ⟨fun c hc => ?_, fun hne => ?_, fun hempty => ?_, fun c d hd => ?_, ?_, ?_, ?_, fun c hc => ?_, fun c d hd hr => ?_, ?_⟩
  · rcases hstdin with heq | hnone
    · obtain ⟨hlast, d, hd, hown⟩ := h.stdin c (heq ▸ hc)
      obtain ⟨d', hd', hlater⟩ := hchildren.next hd
      exact ⟨by rw [hchildren.length]; exact hlast, d', hd', by rw [hlater.owner]; exact hactive' _ hown⟩
    · rw [hnone] at hc
      cases hc
  · have heq := hsame hne
    rw [hworker, heq, hsession, hchildren.length]
    rcases h.active (heq ▸ hne) with hs | he | ⟨d, hd, hown, hses⟩
    · exact .inl hs
    · exact .inr (.inl he)
    · obtain ⟨d', hd', hlater⟩ := hchildren.next hd
      exact .inr (.inr ⟨d', hd', by rw [hlater.owner]; exact hown, by rw [hlater.session]; exact hses⟩)
  · rw [← length_eq_zero_iff, hchildren.length, h.childless hempty]
    rfl
  · obtain ⟨e, he, hlater⟩ := hchildren.get c d hd
    obtain ⟨hborn, hgen'⟩ := h.born c e he
    rw [hworker, hlater.gen, Ne, hlater.unborn]
    exact ⟨hborn, hgen'⟩
  · rw [hgen, hworker, hchildren.length]
    exact h.generation
  · rw [hchildren.length]
    exact h.room
  · rw [hworker, hchildren.length]
    exact hcleaning
  · rw [hchildren.length]
    exact h.kill c (hkill ▸ hc)
  · obtain ⟨e, he, hlater⟩ := hchildren.get c d hd
    rw [hchildren.length]
    exact h.latest c e he (hlater.runs hr)
  · have hview := h.view
    rw [hworker]
    rcases hactive with heq | ⟨hnone, hstarting, hnobody⟩
    · cases hv : x.worker.view with
      | steady =>
        rw [hv] at hview
        intro c d hd hr
        obtain ⟨e, he, hlater⟩ := hchildren.get c d hd
        rw [heq, hkill, hlater.owner]
        exact hview c e he (hlater.runs hr)
      | closing =>
        rw [hv] at hview
        refine ⟨heq ▸ hview.1, fun c d hd hr => ?_⟩
        obtain ⟨e, he, hlater⟩ := hchildren.get c d hd
        exact hkill ▸ hview.2 c e he (hlater.runs hr)
      | launching peerId =>
        rw [hv] at hview
        refine ⟨heq ▸ hview.1, ?_, fun c d hd hr => ?_⟩
        · rcases hstdin with hsame' | hnone
          · exact hsame' ▸ hview.2.1
          · exact hnone
        · obtain ⟨e, he, hlater⟩ := hchildren.get c d hd
          exact hview.2.2 c e he (hlater.runs hr)
      | installing c peerId =>
        rw [hv] at hview
        obtain ⟨hlast, hpeer, hne, d, hd, hown, hses⟩ := hview
        obtain ⟨d', hd', hlater⟩ := hchildren.next hd
        exact ⟨by rw [hchildren.length]; exact hlast, heq ▸ hpeer, hkill ▸ hne, d', hd', hlater.owner.trans hown,
          by rw [hlater.session, hsession, hses]⟩
      | bumping c peerId =>
        rw [hv] at hview
        obtain ⟨hlast, hpeer, hsw, d, hd, hown, hses⟩ := hview
        obtain ⟨d', hd', hlater⟩ := hchildren.next hd
        exact ⟨by rw [hchildren.length]; exact hlast, heq ▸ hpeer, hkill ▸ hsw, d', hd', hlater.owner.trans hown,
          by rw [hlater.session, hsession, hses]⟩
    · have hnobody' : ∀ (c : Nat) (d : Child), x'.children[c]? = some d → ¬ d.Runs := fun c d hd hr => by
        obtain ⟨e, he, hlater⟩ := hchildren.get c d hd
        exact hnobody c e he (hlater.runs hr)
      cases hv : x.worker.view with
      | steady => exact fun c d hd hr => absurd hr (hnobody' c d hd)
      | closing => exact ⟨hnone, fun c d hd hr => absurd hr (hnobody' c d hd)⟩
      | _ =>
        rw [hv] at hstarting
        cases hstarting

theorem Shared.nobody (hd : x.children[c]? = some d)
    (hcleaning : d.cleanup = .clearStdin ∨ d.cleanup = .clearActive) (j : Nat) (e : Child) (he : x.children[j]? = some e) :
    ¬ e.Runs := fun hr => by
  obtain ⟨hlast, hdead, -⟩ := h.cleaning c d hd hcleaning
  have hj := h.latest j e he hr
  obtain rfl : j = c := by omega
  obtain rfl := Option.some.inj (he.symm.trans hd)
  rw [hr.1] at hdead
  cases hdead

theorem Shared.stillCleaning 
    (hf : ∀ d, x.children[k]? = some d → (f d).cleanup = .clearStdin ∨ (f d).cleanup = .clearActive →
      k + 1 = x.children.length ∧ (f d).alive = false ∧ x.worker.view.starting = false) (c : Nat) (d : Child)
    (hd : (x.children.modify k f)[c]? = some d) (hcleaning : d.cleanup = .clearStdin ∨ d.cleanup = .clearActive) :
    c + 1 = x.children.length ∧ d.alive = false ∧ x.worker.view.starting = false := by
  obtain ⟨e, he, ⟨rfl, rfl⟩ | ⟨-, rfl⟩⟩ := get_modify hd
  · exact hf e he hcleaning
  · exact h.cleaning c d he hcleaning

theorem Shared.tidy (hstep : Tidy x x') : x'.Shared command := by
  cases hstep with
  | exit c =>
    refine h.thin (Follows.modify c fun d _ => ⟨rfl, rfl, rfl, nofun, fun _ => rfl, Iff.rfl⟩) (.inl rfl) (.inl rfl) rfl rfl rfl
      rfl (h.stillCleaning fun d hd hcl => ?_)
    obtain ⟨hlast, -, hstarting⟩ := h.cleaning c d hd hcl
    exact ⟨hlast, rfl, hstarting⟩
  | @skip c d hd hwaiting hdead hgen =>
    refine h.thin (.at hd ⟨rfl, rfl, rfl, id, id, by rw [hwaiting]; exact ⟨nofun, nofun⟩⟩) (.inl rfl) (.inl rfl)
      rfl rfl rfl rfl (h.stillCleaning fun e _ hcl => ?_)
    rcases hcl with hcl | hcl <;> cases hcl
  | @clearStdin c d hd hcl =>
    refine h.thin (.at hd ⟨rfl, rfl, rfl, id, id, by rw [hcl]; exact ⟨nofun, nofun⟩⟩) (.inl rfl) (.inr rfl) rfl rfl
      rfl rfl (h.stillCleaning fun e he _ => ?_)
    obtain rfl := Option.some.inj (he.symm.trans hd)
    exact h.cleaning c e he (.inl hcl)
  | @clearActive c d hd hcl =>
    refine h.thin (.at hd ⟨rfl, rfl, rfl, id, id, by rw [hcl]; exact ⟨nofun, nofun⟩⟩)
      (.inr ⟨rfl, (h.cleaning c d hd (.inr hcl)).2.2, h.nobody hd (.inr hcl)⟩) (.inl rfl) rfl rfl rfl rfl
      (h.stillCleaning fun e _ hcl' => ?_)
    rcases hcl' with hcl' | hcl' <;> cases hcl'

theorem Shared.check (hstep : Check x x') (hok : Orderly x .check) : x'.Shared command := by
  cases hstep with
  | @current c d hd hwaiting hdead hgen =>
    have hstarting : x.worker.view.starting = false := (Worker.starting_view _).symm.trans hok
    have hunborn : x.worker.view.unborn = none := by
      cases hv : x.worker.view with
      | installing _ _ => rw [hv] at hstarting; cases hstarting
      | bumping _ _ => rw [hv] at hstarting; cases hstarting
      | _ => rfl
    have hlen := h.generation
    rw [hunborn, hgen, (h.born c d hd).2 (by rw [hwaiting]; nofun)] at hlen
    refine h.thin (Follows.modify c fun e he => ?_) (.inl rfl) (.inl rfl) rfl rfl rfl rfl (h.stillCleaning fun e he _ => ?_)
    · obtain rfl := Option.some.inj (he.symm.trans hd)
      exact ⟨rfl, rfl, rfl, id, id, by rw [hwaiting]; exact ⟨nofun, nofun⟩⟩
    · obtain rfl := Option.some.inj (he.symm.trans hd)
      exact ⟨hlen, hdead, hstarting⟩

end

def Ready (x : Executor) : Worker → Prop
  | .authStdin _ _ _ => x.activePeer = none
  | .claim _ _ _ => x.activePeer = none ∧ x.stdinTx = none
  | .write _ sender => ∀ c, x.stdinTx = some c → ∃ d, x.children[c]? = some d ∧ d.owner = sender
  | _ => True

theorem Shared.unborn_none (h : x.Shared command) (hview : x.worker.view.unborn = none) 
    (hd : x.children[c]? = some d) : d.cleanup ≠ .unborn := fun hu => by
  have hc := (h.born c d hd).1 hu
  rw [hview] at hc
  cases hc

theorem killed_get {k : Option Nat} 
    (h : (k.elim l (fun c => l.modify c (fun d => { d with killed := true })))[c]? = some d) :
    ∃ e, l[c]? = some e ∧ e.Later d ∧ d.cleanup = e.cleanup ∧ d.alive = e.alive ∧ (d.killed = false → k ≠ some c) := by
  cases k with
  | none => exact ⟨d, h, Child.Later.refl d, rfl, rfl, fun _ => nofun⟩
  | some k =>
    obtain ⟨e, he, ⟨rfl, rfl⟩ | ⟨hne, rfl⟩⟩ := get_modify h
    · exact ⟨e, he, ⟨rfl, rfl, rfl, nofun, id, Iff.rfl⟩, rfl, rfl, nofun⟩
    · exact ⟨d, he, Child.Later.refl d, rfl, rfl, fun _ hk => hne (Option.some.inj hk).symm⟩

theorem follows_killed (k : Option Nat) (l : List Child) :
    Follows l (k.elim l (fun c => l.modify c (fun d => { d with killed := true }))) := by
  refine ⟨?_, fun c d hd => ?_⟩
  · cases k with
    | none => rfl
    | some k => exact length_modify ..
  · obtain ⟨e, he, hlater, -⟩ := killed_get hd
    exact ⟨e, he, hlater⟩

section

variable (h : x.Shared command)

include h

theorem Shared.closeActive (hview : x.worker.view = .steady) : Shared command { x with worker := .closeStdin, activePeer := none } := by
  obtain ⟨h1, h2, h3, h4, h5, h6, h7, h8, h9, h10⟩ := h
  rw [hview] at h4 h5 h7 h10
  refine ⟨fun c hc => ?_, nofun, h3, h4, h5, h6, h7, h8, h9, rfl, fun c d hd hr => (h10 c d hd hr).2⟩
  obtain ⟨hlast, d, hd, -⟩ := h1 c hc
  exact ⟨hlast, d, hd, .inl rfl⟩

theorem Shared.closeStdin (hview : x.worker.view = .closing) : Shared command { x with worker := .closeKill, stdinTx := none } := by
  obtain ⟨h1, h2, h3, h4, h5, h6, h7, h8, h9, h10⟩ := h
  rw [hview] at h2 h4 h5 h7 h10
  exact ⟨nofun, h2, h3, h4, h5, h6, h7, h8, h9, h10⟩

theorem Shared.closeKill (hview : x.worker.view = .closing) : Shared command { x with
      worker := .idle
      killTx := none
      children := x.killTx.elim x.children (fun c => x.children.modify c (fun d => { d with killed := true })) } := by
  have hfits := h.view
  rw [hview] at hfits
  obtain ⟨hnone, hswitch⟩ := hfits
  have hnobody : ∀ (c : Nat) (d : Child),
      (x.killTx.elim x.children (fun c => x.children.modify c (fun d => { d with killed := true })))[c]? = some d →
      ¬ d.Runs := fun c d hd hr => by
    obtain ⟨e, he, hlater, -, -, hswitch'⟩ := killed_get hd
    exact hswitch' hr.2 (hswitch c e he (hlater.runs hr))
  have hfollows := follows_killed x.killTx x.children
  refine ⟨fun c hc => ?_, fun hne => absurd hnone hne, fun hempty => ?_, fun c d hd => ?_, ?_, ?_, fun c d hd hcl => ?_,
    nofun, fun c d hd hr => absurd hr (hnobody c d hd), fun c d hd hr => absurd hr (hnobody c d hd)⟩
  · obtain ⟨hlast, d, hd, -⟩ := h.stdin c hc
    obtain ⟨d', hd', -⟩ := hfollows.next hd
    exact ⟨by rw [hfollows.length]; exact hlast, d', hd', .inl hnone⟩
  · rw [← length_eq_zero_iff, hfollows.length, h.childless hempty]
    rfl
  · obtain ⟨e, he, hlater⟩ := hfollows.get c d hd
    obtain ⟨hborn, hgen⟩ := h.born c e he
    rw [hview] at hborn
    rw [hlater.gen, Ne, hlater.unborn]
    exact ⟨hborn, hgen⟩
  · have hlen := h.generation
    rw [hview] at hlen
    rw [hfollows.length]
    exact hlen
  · rw [hfollows.length]
    exact h.room
  · obtain ⟨e, he, -, hcleanup, hdead, -⟩ := killed_get hd
    obtain ⟨hlast, hend, -⟩ := h.cleaning c e he (hcleanup ▸ hcl)
    exact ⟨by rw [hfollows.length]; exact hlast, hdead.trans hend, rfl⟩

theorem Shared.claim (hview : x.worker.view = .steady) (hactive : x.activePeer = none)
    (hstdin : x.stdinTx = none) (hcleaning : ∀ d ∈ x.children, d.cleanup ≠ .clearStdin ∧ d.cleanup ≠ .clearActive)
    (peerId : String) (queued : List Bytes) (g : Grant) :
    Shared command { x with
      worker := .spawn peerId queued
      activePeer := some peerId
      session := x.session + 1
      grants := x.grants ++ [g] } := by
  obtain ⟨h1, h2, h3, h4, h5, h6, h7, h8, h9, h10⟩ := h
  rw [hview] at h4 h5 h7 h10
  have hnobody : ∀ (c : Nat) (d : Child), x.children[c]? = some d → ¬ d.Runs := fun c d hd hr => by
    have hsome := (h10 c d hd hr).1
    rw [hactive] at hsome
    cases hsome
  refine ⟨fun c hc => ?_, fun _ => .inl rfl, h3, h4, h5, h6, fun c d hd hcl => ?_, h8, h9, rfl, hstdin, hnobody⟩
  · rw [hstdin] at hc
    cases hc
  · obtain ⟨hne1, hne2⟩ := hcleaning d (mem_of_getElem? hd)
    rcases hcl with hcl | hcl
    · exact absurd hcl hne1
    · exact absurd hcl hne2

end

variable {queued : List Bytes}

section

variable (h : x.Shared command)

include h

theorem Shared.spawn (hw : x.worker = .spawn peerId queued)
    (hcommand : command ≠ []) (hroom : x.children.length + 1 < 2 ^ 64) :
    Shared command { x with
      worker := .installStdin x.children.length peerId queued
      children := x.children ++ [⟨peerId, x.session, 0, true, false, .unborn⟩] } := by
  have hview : x.worker.view = .launching peerId := by rw [hw]; rfl
  have hfits := h.view
  rw [hview] at hfits
  obtain ⟨hactive, hstdin, hnobody⟩ := hfits
  have hold : ∀ {c : Nat} {d : Child}, (x.children ++ [⟨peerId, x.session, 0, true, false, .unborn⟩])[c]? = some d →
      x.children[c]? = some d ∨ (c = x.children.length ∧ d = ⟨peerId, x.session, 0, true, false, .unborn⟩) := by
    intro c d hd
    rw [getElem?_append] at hd
    split at hd
    · exact .inl hd
    · obtain ⟨hlt, hget⟩ := List.getElem?_eq_some_iff.1 hd
      rw [length_singleton] at hlt
      refine .inr ⟨by omega, ?_⟩
      rw [← hget, getElem_singleton]
  have hlen : (x.children ++ [(⟨peerId, x.session, 0, true, false, .unborn⟩ : Child)]).length = x.children.length + 1 := by
    rw [length_append, length_singleton]
  have hnew : (x.children ++ [⟨peerId, x.session, 0, true, false, .unborn⟩])[x.children.length]? =
      some ⟨peerId, x.session, 0, true, false, .unborn⟩ := by
    rw [getElem?_append_right le_rfl, Nat.sub_self]
    rfl
  refine ⟨fun c hc => ?_, fun _ => .inl rfl, fun hempty => absurd hempty hcommand, fun c d hd => ?_, ?_, ?_,
    fun c d hd hcl => ?_, fun c hc => ?_, fun c d hd hr => ?_, ?_⟩
  · rw [hstdin] at hc
    cases hc
  · rcases hold hd with hd | ⟨rfl, rfl⟩
    · have hunborn := h.unborn_none (by rw [hview]; rfl) hd
      exact ⟨fun hu => absurd hu hunborn, (h.born c d hd).2⟩
    · exact ⟨fun _ => rfl, fun hne => absurd rfl hne⟩
  · have hgen := h.generation
    rw [hview] at hgen
    rw [hlen]
    exact congrArg (· + 1) hgen
  · rw [hlen]
    exact hroom
  · rcases hold hd with hd | ⟨rfl, rfl⟩
    · have hstarting := (h.cleaning c d hd hcl).2.2
      rw [hview] at hstarting
      cases hstarting
    · rcases hcl with hcl | hcl <;> cases hcl
  · rw [hlen]
    exact (h.kill c hc).trans (Nat.lt_succ_self _)
  · rcases hold hd with hd | ⟨rfl, rfl⟩
    · exact absurd hr (hnobody c d hd)
    · exact hlen.symm
  · refine ⟨hlen.symm, hactive, fun hk => ?_, _, hnew, rfl, rfl⟩
    exact absurd (h.kill _ hk) (Nat.lt_irrefl _)

theorem Shared.installStdin 
    (hw : x.worker = .installStdin c peerId queued) :
    Shared command { x with worker := .installKill c peerId queued, stdinTx := some c } := by
  obtain ⟨h1, h2, h3, h4, h5, h6, h7, h8, h9, h10⟩ := h
  rw [hw] at h2 h4 h5 h7 h10
  have hfits := h10
  obtain ⟨hlast, hactive, -, d, hd, hown, -⟩ := hfits
  refine ⟨fun j hj => ?_, h2, h3, h4, h5, h6, h7, h8, h9, h10⟩
  cases hj
  exact ⟨hlast, d, hd, .inr (by rw [hown]; exact hactive)⟩

theorem Shared.installKill 
    (hw : x.worker = .installKill c peerId queued) :
    Shared command { x with
      worker := .bump c peerId queued
      killTx := some c
      children := x.killTx.elim x.children (fun c => x.children.modify c (fun d => { d with killed := true })) } := by
  have hview : x.worker.view = .installing c peerId := by rw [hw]; rfl
  have hfits := h.view
  rw [hview] at hfits
  obtain ⟨hlast, hactive, hne, d, hd, hown, hses⟩ := hfits
  have hfollows := follows_killed x.killTx x.children
  have hlen := hfollows.length
  refine ⟨fun j hj => ?_, fun _ => .inl rfl, fun hempty => ?_, fun j e he => ?_, ?_, ?_, fun j e he hcl => ?_, fun j hj => ?_,
    fun j e he hr => ?_, ?_⟩
  · obtain ⟨hj', e, he, howner⟩ := h.stdin j hj
    obtain ⟨e', he', hlater⟩ := hfollows.next he
    exact ⟨by rw [hlen]; exact hj', e', he', by rw [hlater.owner]; exact howner⟩
  · rw [← length_eq_zero_iff, hlen, h.childless hempty]
    rfl
  · obtain ⟨e', he', hlater⟩ := hfollows.get j e he
    obtain ⟨hborn, hgen⟩ := h.born j e' he'
    rw [hview] at hborn
    rw [hlater.gen, Ne, hlater.unborn]
    exact ⟨hborn, hgen⟩
  · have hgen := h.generation
    rw [hview] at hgen
    rw [hlen]
    exact hgen
  · rw [hlen]
    exact h.room
  · obtain ⟨e', he', -, hcleanup, -⟩ := killed_get he
    have hstarting := (h.cleaning j e' he' (hcleanup ▸ hcl)).2.2
    rw [hview] at hstarting
    cases hstarting
  · cases hj
    rw [hlen]
    omega
  · obtain ⟨e', he', hlater⟩ := hfollows.get j e he
    rw [hlen]
    exact h.latest j e' he' (hlater.runs hr)
  · obtain ⟨d', hd', hlater⟩ := hfollows.next hd
    exact ⟨by rw [hlen]; exact hlast, hactive, rfl, d', hd', hlater.owner.trans hown, hlater.session.trans hses⟩

theorem Shared.bump 
    (hw : x.worker = .bump c peerId queued) :
    Shared command { x with
      worker := .write queued peerId
      generation := (x.generation + 1) % 2 ^ 64
      children := x.children.modify c (fun d => { d with gen := (x.generation + 1) % 2 ^ 64, cleanup := .waiting }) } := by
  have hview : x.worker.view = .bumping c peerId := by rw [hw]; rfl
  have hfits := h.view
  rw [hview] at hfits
  obtain ⟨hlast, hactive, hswitch, d, hd, hown, hses⟩ := hfits
  have hgen : x.generation + 1 = x.children.length := by
    have hgen := h.generation
    rw [hview] at hgen
    exact hgen
  have hmod : (x.generation + 1) % 2 ^ 64 = c + 1 := by rw [hgen, Nat.mod_eq_of_lt h.room, hlast]
  have hlen : (x.children.modify c
      (fun d => { d with gen := (x.generation + 1) % 2 ^ 64, cleanup := .waiting })).length = x.children.length :=
    length_modify ..
  have hnow := modify_get (f := fun d => { d with gen := (x.generation + 1) % 2 ^ 64, cleanup := .waiting }) c hd
  rw [if_pos rfl] at hnow
  refine ⟨fun j hj => ?_, fun _ => .inr (.inr ⟨{ d with gen := (x.generation + 1) % 2 ^ 64, cleanup := .waiting }, ?_, ?_, hses⟩),
    fun hempty => ?_, fun j e he => ?_, ?_, ?_, fun j e he hcl => ?_, fun j hj => ?_, fun j e he hr => ?_, fun j e he hr => ?_⟩
  · obtain ⟨hj', e, he, howner⟩ := h.stdin j hj
    obtain rfl : j = c := by omega
    obtain rfl := Option.some.inj (he.symm.trans hd)
    exact ⟨by rw [hlen]; exact hj', _, hnow, howner⟩
  · rw [hlen, ← hlast]
    exact hnow
  · exact hactive.trans (congrArg some hown.symm)
  · rw [h.childless hempty] at hd
    cases hd
  · obtain ⟨e', he', ⟨rfl, rfl⟩ | ⟨hne, rfl⟩⟩ := get_modify he
    · exact ⟨nofun, fun _ => hmod⟩
    · obtain ⟨hborn, hold⟩ := h.born j e he'
      rw [hview] at hborn
      exact ⟨fun hu => absurd (Option.some.inj (hborn hu)).symm hne, hold⟩
  · rw [hlen, hmod]
    exact hlast
  · rw [hlen]
    exact h.room
  · obtain ⟨e', he', ⟨rfl, rfl⟩ | ⟨hne, rfl⟩⟩ := get_modify he
    · rcases hcl with hcl | hcl <;> cases hcl
    · have hstarting := (h.cleaning j e he' hcl).2.2
      rw [hview] at hstarting
      cases hstarting
  · rw [hlen]
    exact h.kill j hj
  · rw [hlen]
    obtain ⟨e', he', ⟨rfl, rfl⟩ | ⟨hne, rfl⟩⟩ := get_modify he
    · exact hlast
    · exact h.latest j e he' hr
  · have hj : j + 1 = x.children.length := by
      obtain ⟨e', he', ⟨rfl, rfl⟩ | ⟨hne, rfl⟩⟩ := get_modify he
      · exact hlast
      · exact h.latest j e he' hr
    obtain rfl : j = c := by omega
    obtain rfl := Option.some.inj (he.symm.trans hnow)
    exact ⟨hactive.trans (congrArg some hown.symm), hswitch⟩

theorem Shared.failed (hw : x.worker = .failed peerId queued) :
    Shared command { x with worker := .write queued peerId, activePeer := none } := by
  obtain ⟨h1, h2, h3, h4, h5, h6, h7, h8, h9, h10⟩ := h
  rw [hw] at h4 h5 h7 h10
  obtain ⟨-, hstdin, hnobody⟩ := h10
  refine ⟨fun c hc => ?_, nofun, h3, h4, h5, h6, fun c d hd hcl => ?_, h8, h9, fun c d hd hr => absurd hr (hnobody c d hd)⟩
  · rw [hstdin] at hc
    cases hc
  · have hstarting := (h7 c d hd hcl).2.2
    cases hstarting

theorem Shared.empty (hw : x.worker = .spawn peerId queued)
    (hcommand : command = []) : Shared command { x with worker := .write queued peerId } := by
  obtain ⟨h1, h2, h3, h4, h5, h6, h7, h8, h9, h10⟩ := h
  rw [hw] at h4 h5 h7 h10
  obtain ⟨-, hstdin, hnobody⟩ := h10
  exact ⟨h1, fun _ => .inr (.inl hcommand), h3, h4, h5, h6, fun c d hd hcl => absurd (h7 c d hd hcl).2.2 nofun, h8, h9,
    fun c d hd hr => absurd hr (hnobody c d hd)⟩

theorem Shared.write (hready : Ready x x.worker) (hstep : Write command x x')
    (hok : Orderly x .write) : x'.Shared command := by
  cases hstep with
  | closeActive hw hactive => exact h.closeActive (by rw [hw]; rfl)
  | closeStdin hw => exact h.closeStdin (by rw [hw]; rfl)
  | closeKill hw => exact h.closeKill (by rw [hw]; rfl)
  | claim hw =>
    rw [hw] at hready
    exact h.claim (by rw [hw]; rfl) hready.1 hready.2 (hok.1 _ _ _ hw) _ _ _
  | empty hw hcommand => exact h.empty hw hcommand
  | notSpawned hw hcommand => exact h.frame rfl rfl rfl rfl rfl rfl (by rw [hw]; rfl)
  | failed hw => exact h.failed hw
  | spawn hw hcommand => exact h.spawn hw hcommand hok.2
  | installStdin hw => exact h.installStdin hw
  | installKill hw => exact h.installKill hw
  | bump hw => exact h.bump hw

end

/-! ## Feeding and clearing -/

theorem queue_same (peerId : String) (data : Bytes) : (x.queue peerId data).children = x.children ∧
    (x.queue peerId data).fed = x.fed ∧ (x.queue peerId data).cleared = x.cleared ∧
    (x.queue peerId data).worker = .idle := by
  unfold Executor.queue
  dsimp only
  split
  · split <;> exact ⟨rfl, rfl, rfl, rfl⟩
  · exact ⟨rfl, rfl, rfl, rfl⟩

theorem insertOpen_same (peerId : String) : (x.insertOpen peerId).children = x.children ∧
    (x.insertOpen peerId).fed = x.fed ∧ (x.insertOpen peerId).cleared = x.cleared := by
  unfold Executor.insertOpen
  split <;> exact ⟨rfl, rfl, rfl⟩

def Fed (x : Executor) : Prop := ∀ c sender, (c, sender) ∈ x.fed → ∃ d, x.children[c]? = some d ∧ d.owner = sender

def ClearsOwn (x : Executor) : Prop := ∀ s s', (s, s') ∈ x.cleared → s' = s

section

variable (h : x.Fed)

include h

theorem Fed.follows (hchildren : ∀ (c : Nat) (d : Child), x.children[c]? = some d →
    ∃ d' : Child, x'.children[c]? = some d' ∧ d'.owner = d.owner) (hfed : x'.fed = x.fed) : x'.Fed := fun c sender hm => by
  obtain ⟨d, hd, hown⟩ := h c sender (hfed ▸ hm)
  obtain ⟨d', hd', hsame⟩ := hchildren c d hd
  exact ⟨d', hd', hsame.trans hown⟩

theorem Fed.frame (hchildren : x'.children = x.children) (hfed : x'.fed = x.fed) : x'.Fed :=
  h.follows (fun c d hd => ⟨d, by rw [hchildren]; exact hd, rfl⟩) hfed

theorem Fed.later (hchildren : Follows x.children x'.children) (hfed : x'.fed = x.fed) : x'.Fed := by
  refine h.follows (fun c d hd => ?_) hfed
  obtain ⟨d', hd', hlater⟩ := hchildren.next hd
  exact ⟨d', hd', hlater.owner⟩

theorem Fed.read (hready : Ready x x.worker) (hstep : Read gate x x') : x'.Fed := by
  cases hstep with
  | other hw hactive | openBusy hw => exact h.frame (queue_same _ _).1 (queue_same _ _).2.1
  | insertOpen hw hstdin =>
    exact h.frame ((queue_same _ _).1.trans (insertOpen_same _).1) ((queue_same _ _).2.1.trans (insertOpen_same _).2.1)
  | write hw hstdin =>
    rw [hw] at hready
    intro c sender hm
    rcases mem_append.1 hm with hm | hm
    · exact h c sender hm
    · obtain ⟨rfl, rfl⟩ := Prod.mk.inj (mem_singleton.1 hm)
      exact hready c hstdin
  | _ => exact h.frame rfl rfl

theorem Fed.write (hstep : Write command x x') : x'.Fed := by
  cases hstep with
  | closeKill hw | installKill hw => exact h.later (follows_killed _ _) rfl
  | spawn hw hcommand =>
    refine h.follows (fun c d hd => ⟨d, ?_, rfl⟩) rfl
    exact (getElem?_append_left (List.getElem?_eq_some_iff.1 hd).1).trans hd
  | bump hw =>
    refine h.follows (fun c d hd => ⟨_, modify_get _ hd, ?_⟩) rfl
    split <;> rfl
  | _ => exact h.frame rfl rfl

theorem Fed.tidy (hstep : Tidy x x') : x'.Fed := by
  cases hstep with
  | _ =>
    refine h.follows (fun c d hd => ⟨_, modify_get _ hd, ?_⟩) rfl
    split <;> rfl

theorem Fed.check (hstep : Check x x') : x'.Fed := by
  cases hstep
  refine h.follows (fun c d hd => ⟨_, modify_get _ hd, ?_⟩) rfl
  split <;> rfl

end

theorem ClearsOwn.tidy (h : x.ClearsOwn) (hshared : x.Shared command) (hstep : Tidy x x') : x'.ClearsOwn := by
  cases hstep with
  | exit c | skip hd hwaiting hdead hgen => exact h
  | @clearStdin c d hd hcl =>
    intro s s' hm
    rcases mem_append.1 hm with hm | hm
    · exact h s s' hm
    · obtain ⟨t, ht, heq⟩ := List.mem_map.1 hm
      obtain ⟨rfl, rfl⟩ := Prod.mk.inj heq
      obtain ⟨e, he, rfl⟩ := List.mem_map.1 ht
      obtain ⟨j, hj, hej⟩ := bind_eq_some_iff.1 (mem_toList.1 he)
      have hlast := (hshared.cleaning c d hd (.inl hcl)).1
      have hlast' := (hshared.stdin j hj).1
      obtain rfl : j = c := by omega
      rw [Option.some.inj (hej.symm.trans hd)]
  | @clearActive c d hd hcl =>
    intro s s' hm
    rcases mem_append.1 hm with hm | hm
    · exact h s s' hm
    · split at hm
      · cases hm
      · rename_i hactive
        obtain ⟨rfl, rfl⟩ := Prod.mk.inj (mem_singleton.1 hm)
        obtain ⟨hlast, -, hstarting⟩ := hshared.cleaning c d hd (.inr hcl)
        rcases hshared.active hactive with hs | hempty | ⟨e, he, -, hses⟩
        · rw [hstarting] at hs
          cases hs
        · rw [hshared.childless hempty] at hd
          cases hd
        · rw [← hlast, Nat.add_sub_cancel, hd] at he
          rw [Option.some.inj he, hses]

/-! ## What the worker has seen -/

theorem Ready.thin {w : Worker} (h : Ready x w) (hchildren : Follows x.children x'.children)
    (hactive : x'.activePeer = x.activePeer ∨ x'.activePeer = none)
    (hstdin : x'.stdinTx = x.stdinTx ∨ x'.stdinTx = none) : Ready x' w := by
  have hnoActive : x.activePeer = none → x'.activePeer = none := fun hnone => by
    rcases hactive with heq | hnone'
    · rw [heq, hnone]
    · exact hnone'
  cases w with
  | authStdin _ _ _ => exact hnoActive h
  | claim _ _ _ =>
    refine ⟨hnoActive h.1, ?_⟩
    rcases hstdin with heq | hnone
    · rw [heq, h.2]
    · exact hnone
  | write _ sender =>
    intro c hc
    rcases hstdin with heq | hnone
    · obtain ⟨d, hd, hown⟩ := h c (heq ▸ hc)
      obtain ⟨d', hd', hlater⟩ := hchildren.next hd
      exact ⟨d', hd', hlater.owner.trans hown⟩
    · rw [hnone] at hc
      cases hc
  | _ => trivial

theorem Ready.tidy {w : Worker} (h : Ready x w) (hstep : Tidy x x') : Ready x' w := by
  cases hstep with
  | exit c => exact h.thin (Follows.modify c fun d _ => ⟨rfl, rfl, rfl, nofun, fun _ => rfl, Iff.rfl⟩) (.inl rfl) (.inl rfl)
  | @skip c d hd hwaiting hdead hgen =>
    exact h.thin (.at hd ⟨rfl, rfl, rfl, id, id, by rw [hwaiting]; exact ⟨nofun, nofun⟩⟩) (.inl rfl) (.inl rfl)
  | @clearStdin c d hd hcl => exact h.thin (.at hd ⟨rfl, rfl, rfl, id, id, by rw [hcl]; exact ⟨nofun, nofun⟩⟩) (.inl rfl) (.inr rfl)
  | @clearActive c d hd hcl => exact h.thin (.at hd ⟨rfl, rfl, rfl, id, id, by rw [hcl]; exact ⟨nofun, nofun⟩⟩) (.inr rfl) (.inl rfl)

theorem Ready.check {w : Worker} (h : Ready x w) (hstep : Check x x') : Ready x' w := by
  cases hstep with
  | @current c d hd hwaiting hdead hgen =>
    exact h.thin (.at hd ⟨rfl, rfl, rfl, id, id, by rw [hwaiting]; exact ⟨nofun, nofun⟩⟩) (.inl rfl) (.inl rfl)

theorem Shared.stdinOwner (h : x.Shared command) (hactive : x.activePeer = some peerId) (c : Nat)
    (hc : x.stdinTx = some c) : ∃ d, x.children[c]? = some d ∧ d.owner = peerId := by
  obtain ⟨-, d, hd, hown⟩ := h.stdin c hc
  rw [hactive] at hown
  rcases hown with hnone | hsome
  · cases hnone
  · exact ⟨d, hd, (Option.some.inj hsome).symm⟩

theorem Ready.read (h : Ready x x.worker) (hshared : x.Shared command) (hstep : Read gate x x') : Ready x' x'.worker := by
  cases hstep with
  | own hw hactive =>
    split
    · exact hshared.stdinOwner hactive
    · trivial
  | other hw hactive | openBusy hw | insertOpen hw hstdin => rw [(queue_same _ _).2.2.2]; trivial
  | dropped hw | write hw hstdin => rw [hw] at h; exact h
  | authFree hw hactive => exact hactive
  | claiming hw hstdin => rw [hw] at h; exact ⟨h, hstdin⟩
  | _ => trivial

theorem Ready.write (hshared : x.Shared command) (hstep : Write command x x') : Ready x' x'.worker := by
  cases hstep with
  | @empty peerId queued hw hcommand | @failed peerId queued hw =>
    have hfits := hshared.view
    rw [hw] at hfits
    intro c hc
    rw [hfits.2.1] at hc
    cases hc
  | @bump c peerId queued hw =>
    have hfits := hshared.view
    rw [hw] at hfits
    intro j hj
    obtain ⟨d, hd, hown⟩ := hshared.stdinOwner hfits.2.1 j hj
    refine ⟨_, modify_get c hd, ?_⟩
    split <;> exact hown
  | _ => trivial

/-! ## Runs -/

/-- **The invariant of a run.** -/
structure Sound (command : List String) (x : Executor) : Prop where
  granting : x.Granting
  shared : x.Shared command
  ready : Ready x x.worker
  fed : x.Fed
  clearsOwn : x.ClearsOwn

theorem sound_initial : Sound command .initial where
  granting := ⟨nofun, nofun, nofun, nofun⟩
  shared := ⟨nofun, fun h => absurd rfl h, fun _ => rfl, nofun, rfl, by decide, nofun, nofun, nofun, nofun⟩
  ready := trivial
  fed := nofun
  clearsOwn := nofun

theorem Sound.step (h : x.Sound command) (hok : Orderly x act) (hstep : Step gate command x act x') : x'.Sound command := by
  cases hstep with
  | take ht =>
    refine ⟨h.granting.take ht, h.shared.take ht, ?_, ?_, ?_⟩
    · cases ht with
      | message peerId data hidle => trivial
      | opened hidle => rw [hidle]; trivial
      | close peerId hidle => trivial
      | denied hidle hk hanswered => rw [hidle]; trivial
      | withdrawn hidle hk hanswered hnone => rw [hidle]; trivial
    · cases ht <;> exact h.fed.frame rfl rfl
    · cases ht <;> exact h.clearsOwn
  | allowed ht =>
    refine ⟨h.granting.allowed ht hok, h.shared.allowed ht, ?_, ?_, ?_⟩
    · cases ht
      trivial
    · cases ht
      exact h.fed.frame rfl rfl
    · cases ht
      exact h.clearsOwn
  | read hr =>
    refine ⟨h.granting.read hr, h.shared.read hr, h.ready.read h.shared hr, h.fed.read h.ready hr, ?_⟩
    cases hr with
    | other hw hactive => rw [ClearsOwn, (queue_same _ _).2.2.1]; exact h.clearsOwn
    | openBusy hw => rw [ClearsOwn, (queue_same _ _).2.2.1]; exact h.clearsOwn
    | insertOpen hw hstdin =>
      rw [ClearsOwn, (queue_same _ _).2.2.1, (insertOpen_same _).2.2]
      exact h.clearsOwn
    | _ => exact h.clearsOwn
  | write hw =>
    refine ⟨h.granting.write hw, h.shared.write h.ready hw hok, Ready.write h.shared hw, h.fed.write hw, ?_⟩
    cases hw <;> exact h.clearsOwn
  | tidy ht =>
    refine ⟨h.granting.tidy ht, h.shared.tidy ht, ?_, h.fed.tidy ht, h.clearsOwn.tidy h.shared ht⟩
    have hready := h.ready.tidy ht
    cases ht <;> exact hready
  | check hc =>
    refine ⟨h.granting.check hc, h.shared.check hc hok, ?_, h.fed.check hc, ?_⟩
    · have hready := h.ready.check hc
      cases hc
      exact hready
    · cases hc
      exact h.clearsOwn

theorem reach_sound (h : Reach gate command Orderly x) : x.Sound command := by
  induction h with
  | refl => exact sound_initial
  | tail _ hok hstep ih => exact ih.step hok hstep

end Executor

open Executor

variable {ok : Executor → Act → Prop} {x'' : Executor}

/-- **In every orderly run a session is its owner's alone.** -/
theorem session_owned (gate : Bool) (command : List String) (x : Executor) (h : Reach gate command Orderly x) : x.Owned := by
  have hs := reach_sound h
  refine ⟨hs.fed, hs.granting.granted, hs.clearsOwn, fun hidle c d hd halive hkilled => ?_⟩
  have hfits := hs.shared.view
  rw [hidle] at hfits
  exact hfits c d hd ⟨halive, hkilled⟩

/-! ## Sessions of Alice and Bob -/

theorem Reach.to (h : Reach gate command ok x) (hstep : Step gate command x act x') (hok : ok x act) (heq : x' = x'') :
    Reach gate command ok x'' :=
  heq ▸ h.tail hok hstep

theorem Reach.opens (h : Reach true command ok x) (hok : ∀ y, ok y .take ∧ ok y .read) (hidle : x.worker = .idle)
    (hactive : x.activePeer = none) (hstdin : x.stdinTx = none) (peerId : String) (data : Bytes)
    (hpending : x.pendingOpens.get peerId = none) :
    Reach true command ok
      (({ x with worker := .openStdin peerId data, clock := x.clock + 1 }.insertOpen peerId).queue peerId data) := by
  have h1 := h.tail (hok _).1 (.take (.message peerId data hidle))
  have h2 := h1.tail (hok _).2 (.read (.opening rfl (by rw [hactive]; nofun) rfl hpending))
  have h3 := h2.tail (hok _).2 (.read (.openFree rfl hactive))
  exact h3.tail (hok _).2 (.read (.insertOpen rfl hstdin))

theorem Reach.claims (h : Reach gate command ok x) (hok : ∀ y, ok y .read) (hidle : x.worker = .idle)
    (hactive : x.activePeer = none) (hstdin : x.stdinTx = none) {a : Auth} {entry : PendingOpen}
    (hk : x.auths[k]? = some a) (hanswered : a.answered = false) (hpending : x.pendingOpens.get a.peerId = some entry)
    (hallowed : ok x (.allowed k)) :
    Reach gate command ok { x with
      worker := .claim a.peerId entry.queued k
      clock := x.clock + 1
      pendingOpens := x.pendingOpens.erase a.peerId
      auths := x.auths.set k { a with answered := true } } := by
  have h1 := h.tail hallowed (.allowed (.pending hidle hk hanswered hpending))
  have h2 := h1.tail (hok _) (.read (.authFree rfl hactive))
  exact h2.tail (hok _) (.read (.claiming rfl hstdin))

def aliceOpens : Executor :=
  ⟨none, none, none, 0, insert ∅ "alice" ⟨[[108]], 1, 0⟩, .idle, [], [⟨"alice", 1, false⟩], 0, 1, ∅, [], [], []⟩

theorem reach_aliceOpens (hok : ∀ y, ok y .take ∧ ok y .read) : Reach true ["sh"] ok aliceOpens := by
  have h : Reach true ["sh"] ok initial := .refl
  have hopens := h.opens hok rfl rfl rfl "alice" [0, 108] rfl
  have heq : ({ initial with worker := .openStdin "alice" [0, 108], clock := initial.clock + 1 }.insertOpen "alice").queue
      "alice" [0, 108] = aliceOpens := by decide
  rwa [heq] at hopens

def aliceBegins : Executor := ⟨some "alice", some 0, some 0, 1, ∅, .write [[108]] "alice", [⟨"alice", 1, 1, true, false, .waiting⟩],
    [⟨"alice", 1, true⟩], 1, 2, ∅, [], [⟨"alice", 1, none⟩], []⟩

theorem reach_aliceBegins (hok : ∀ y, ok y .take ∧ ok y .read) (hallowed : ok aliceOpens (.allowed 0))
    (hwrite : ∀ y : Executor, (∀ d ∈ y.children, d.cleanup ≠ .clearStdin ∧ d.cleanup ≠ .clearActive) →
      y.children.length + 1 < 2 ^ 64 → ok y .write) : Reach true ["sh"] ok aliceBegins := by
  have h := (reach_aliceOpens hok).claims (fun y => (hok y).2) rfl rfl rfl rfl rfl
    (show Table.get aliceOpens.pendingOpens "alice" = some ⟨[[108]], 1, 0⟩ by decide) hallowed
  have h1 := h.tail (hwrite _ nofun (by decide)) (.write (.claim rfl))
  have h2 := h1.tail (hwrite _ nofun (by decide)) (.write (.spawn rfl nofun))
  have h3 := h2.tail (hwrite _ (by decide) (by decide)) (.write (.installStdin rfl))
  have h4 := h3.tail (hwrite _ (by decide) (by decide)) (.write (.installKill rfl))
  exact h4.to (.write (.bump rfl)) (hwrite _ (by decide) (by decide)) (by decide)

theorem session_owned_alice : ∃ x, Reach true ["sh"] Orderly x ∧ x.activePeer = some "alice" ∧ x.fed = [(0, "alice")] ∧ x.Owned := by
  have hown : Orderly aliceOpens (.allowed 0) := fun a entry ha he => by
    cases ha
    obtain rfl := Option.some.inj ((get_insert_self ..).symm.trans he)
    rfl
  have h : Reach true ["sh"] Orderly aliceBegins := reach_aliceBegins (fun _ => ⟨trivial, trivial⟩) hown
    (fun y hcleaning hroom => ⟨fun _ _ _ _ => hcleaning, hroom⟩)
  have h1 := h.tail (show Orderly _ .read from trivial) (.read (.write rfl rfl))
  exact ⟨_, h1, rfl, rfl, session_owned _ _ _ h1⟩

def aliceReopens : Executor :=
  ⟨none, none, none, 0, insert ∅ "alice" ⟨[[109]], 1, 1⟩, .idle, [], [⟨"alice", 1, false⟩, ⟨"alice", 3, false⟩], 0, 3,
    insert ∅ "alice" 1, [], [], []⟩

theorem reach_stale_allow : ∃ x, Reach true ["sh"] (fun _ _ => True) x ∧ ⟨"alice", 1, some 1⟩ ∈ x.grants := by
  have hopens : Reach true ["sh"] (fun _ _ => True) aliceOpens := reach_aliceOpens (fun _ => ⟨trivial, trivial⟩)
  have h1 := hopens.tail trivial (.take (.close "alice" rfl))
  have h2 := h1.tail trivial (.read (.notActive rfl nofun))
  have h3 := h2.opens (fun _ => ⟨trivial, trivial⟩) rfl rfl rfl "alice" [0, 109] (by decide)
  have hreopens : Reach true ["sh"] (fun _ _ => True) aliceReopens := by
    refine Eq.subst ?_ h3
    decide
  have h4 := hreopens.claims (fun _ => trivial) rfl rfl rfl (k := 0) rfl rfl
    (show Table.get aliceReopens.pendingOpens "alice" = some ⟨[[109]], 1, 1⟩ by decide) trivial
  exact ⟨_, h4.tail trivial (.write (.claim rfl)), by decide⟩

def aliceEnds : Executor := ⟨none, none, none, 1, ∅, .idle, [⟨"alice", 1, 1, false, true, .waiting⟩], [⟨"alice", 1, true⟩], 1, 3,
    insert ∅ "alice" 2, [(0, "alice")], [⟨"alice", 1, none⟩], []⟩

theorem reach_aliceEnds : Reach true ["sh"] (fun _ _ => True) aliceEnds := by
  have h : Reach true ["sh"] (fun _ _ => True) aliceBegins := reach_aliceBegins (fun _ => ⟨trivial, trivial⟩) trivial (fun _ _ _ => trivial)
  have h1 := h.tail trivial (.read (.write rfl rfl))
  have h2 := h1.tail trivial (.read (.wrote rfl))
  have h3 := h2.tail trivial (.take (.close "alice" rfl))
  have h4 := h3.tail trivial (.write (.closeActive rfl rfl))
  have h5 := h4.tail trivial (.write (.closeStdin rfl))
  have h6 := h5.tail trivial (.write (.closeKill rfl))
  exact h6.to (.tidy (.exit 0)) trivial (by decide)

def bobOpens : Executor := { aliceEnds with
    clock := 4
    pendingOpens := insert ∅ "bob" ⟨[[108]], 1, 1⟩
    auths := [⟨"alice", 1, true⟩, ⟨"bob", 4, false⟩] }

theorem reach_stale_cleanup : ∃ x, Reach true ["sh"] (fun _ _ => True) x ∧ (1, 2) ∈ x.cleared := by
  have h1 := reach_aliceEnds.opens (fun _ => ⟨trivial, trivial⟩) rfl rfl rfl "bob" [0, 108] (by decide)
  have hopens : Reach true ["sh"] (fun _ _ => True) bobOpens := by
    refine Eq.subst ?_ h1
    decide
  have h2 := hopens.claims (fun _ => trivial) rfl rfl rfl (k := 1) rfl rfl
    (show Table.get bobOpens.pendingOpens "bob" = some ⟨[[108]], 1, 1⟩ by decide) trivial
  have h3 := h2.tail trivial (.write (.claim rfl))
  have h4 := h3.tail trivial (.check (.current (c := 0) rfl rfl rfl rfl))
  have h5 := h4.tail trivial (.tidy (.clearStdin (c := 0) rfl rfl))
  exact ⟨_, h5.tail trivial (.tidy (.clearActive (c := 0) rfl rfl)), by decide⟩

/-- An allow result of a withdrawn open is taken for the next one, and a cleanup that looks at the generation between a claim
and its generation clears the new session. -/
theorem session_not_owned : (¬ ∀ gate command x, Reach gate command (fun _ _ => True) x → ∀ g ∈ x.grants, ∀ t, g.lastClose = some t →
      t < g.started) ∧
    ¬ ∀ gate command x, Reach gate command (fun _ _ => True) x → ∀ s s', (s, s') ∈ x.cleared → s' = s := by
  refine ⟨fun hall => ?_, fun hall => ?_⟩
  · obtain ⟨x, hx, hg⟩ := reach_stale_allow
    exact absurd (hall _ _ x hx _ hg 1 rfl) (by decide)
  · obtain ⟨x, hx, hs⟩ := reach_stale_cleanup
    exact absurd (hall _ _ x hx 1 2 hs) (by decide)

end Stdio
end Mistl.Tunnel
