import Mistl.Lib.Runs
import Mistl.Lib.Table
import Mathlib.Logic.Function.Basic
/-!
# FolderFlight — callers that share one run

`single_flight` of `storage/folder_share.rs` between its lock sections and its awaits: a caller joins the slot of its key or puts one
there, awaits the slot's cell, and takes the key out of the registry when it has its value.  A call is not cancelled.
-/
open Mistl.Table Option

namespace Mistl.SingleFlight

/-! ## Slots, calls, steps -/

/-- A slot's cell: nothing yet, the caller whose `make` is running, or what that one's `make` has produced. -/
inductive OnceCell (τ : Type) where
  | vacant
  | running (c : Nat)
  | set (c : Nat) (v : τ)

inductive Phase (τ : Type) where
  | awaiting
  | making
  | picked (v : τ)
  | returned (v : τ)
  deriving DecidableEq

structure Call (τ : Type) where
  key : String
  slot : Nat
  phase : Phase τ
  deriving DecidableEq

/-- The registry, the cells of the slots made so far, the calls by number, and the number of the next slot. -/
structure State (τ : Type) where
  registry : Table String Nat
  cell : Nat → OnceCell τ
  calls : Table Nat (Call τ)
  next : Nat

inductive Act (τ : Type) where
  | join (c : Nat) (key : String)
  | start (c : Nat)
  | finish (c : Nat) (v : τ)
  | pick (c : Nat)
  | remove (c : Nat)

variable {τ : Type}

/-- `map.lock().entry(key).or_insert_with(..).clone()` -/
def State.join (s : State τ) (c : Nat) (key : String) : State τ :=
  match s.registry.get key with
  | some slot => { s with calls := s.calls.insert c ⟨key, slot, .awaiting⟩ }
  | none => { s with registry := s.registry.insert key s.next, calls := s.calls.insert c ⟨key, s.next, .awaiting⟩, next := s.next + 1 }

def State.step (s : State τ) : Act τ → Option (State τ)
  | .join c key => if s.calls.get c = none then some (s.join c key) else none
  -- `get_or_init(make)`: the first to find the cell vacant runs its own `make`, the others wait for it
  | .start c =>
    match s.calls.get c with
    | some ⟨key, slot, .awaiting⟩ =>
      match s.cell slot with
      | .vacant => some { s with cell := Function.update s.cell slot (.running c), calls := s.calls.insert c ⟨key, slot, .making⟩ }
      | _ => none
    | _ => none
  | .finish c v =>
    match s.calls.get c with
    | some ⟨key, slot, .making⟩ =>
      some { s with cell := Function.update s.cell slot (.set c v), calls := s.calls.insert c ⟨key, slot, .picked v⟩ }
    | _ => none
  | .pick c =>
    match s.calls.get c with
    | some ⟨key, slot, .awaiting⟩ =>
      match s.cell slot with
      | .set _ v => some { s with calls := s.calls.insert c ⟨key, slot, .picked v⟩ }
      | _ => none
    | _ => none
  -- `map.lock().remove(&key)`
  | .remove c =>
    match s.calls.get c with
    | some ⟨key, slot, .picked v⟩ => some { s with registry := s.registry.erase key, calls := s.calls.insert c ⟨key, slot, .returned v⟩ }
    | _ => none

def init : State τ := { registry := ∅, cell := fun _ => .vacant, calls := ∅, next := 0 }

abbrev run : State τ → List (Act τ) → Option (State τ) := Runs.run State.step

def Phase.inFlight : Phase τ → Bool
  | .returned _ => false
  | _ => true

def removesOwn (s : State τ) : Act τ → Bool
  | .remove c =>
    match s.calls.get c with
    | some call => (s.registry.get call.key).all (fun slot => slot == call.slot)
    | none => true
  | _ => true

/-! ## What a step does -/

theorem join_cases (s : State τ) (c : Nat) (key : String) :
    (∃ slot, s.registry.get key = some slot ∧ s.join c key = { s with calls := s.calls.insert c ⟨key, slot, .awaiting⟩ }) ∨
    (s.registry.get key = none ∧ s.join c key = { s with
      registry := s.registry.insert key s.next, calls := s.calls.insert c ⟨key, s.next, .awaiting⟩, next := s.next + 1 }) := by
  unfold State.join
  cases hget : s.registry.get key with
  | none => exact Or.inr ⟨rfl, rfl⟩
  | some slot => exact Or.inl ⟨slot, rfl, rfl⟩

variable {s s' : State τ} {c : Nat}

theorem start_cases (h : s.step (.start c) = some s') :
    ∃ key slot, s.calls.get c = some ⟨key, slot, .awaiting⟩ ∧ s.cell slot = .vacant ∧
      s' = { s with cell := Function.update s.cell slot (.running c), calls := s.calls.insert c ⟨key, slot, .making⟩ } := by
  rw [State.step] at h
  split at h
  · rename_i key slot hcall
    split at h
    · rename_i hcell
      exact ⟨key, slot, hcall, hcell, (Option.some.inj h).symm⟩
    · cases h
  · cases h

theorem finish_cases {v : τ} (h : s.step (.finish c v) = some s') : ∃ key slot, s.calls.get c = some ⟨key, slot, .making⟩ ∧
      s' = { s with cell := Function.update s.cell slot (.set c v), calls := s.calls.insert c ⟨key, slot, .picked v⟩ } := by
  rw [State.step] at h
  split at h
  · rename_i key slot hcall
    exact ⟨key, slot, hcall, (Option.some.inj h).symm⟩
  · cases h

theorem pick_cases (h : s.step (.pick c) = some s') :
    ∃ key slot m v, s.calls.get c = some ⟨key, slot, .awaiting⟩ ∧ s.cell slot = .set m v ∧
      s' = { s with calls := s.calls.insert c ⟨key, slot, .picked v⟩ } := by
  rw [State.step] at h
  split at h
  · rename_i key slot hcall
    split at h
    · rename_i m v hcell
      exact ⟨key, slot, m, v, hcall, hcell, (Option.some.inj h).symm⟩
    · cases h
  · cases h

theorem remove_cases (h : s.step (.remove c) = some s') : ∃ key slot v, s.calls.get c = some ⟨key, slot, .picked v⟩ ∧
      s' = { s with registry := s.registry.erase key, calls := s.calls.insert c ⟨key, slot, .returned v⟩ } := by
  rw [State.step] at h
  split at h
  · rename_i key slot v hcall
    exact ⟨key, slot, v, hcall, (Option.some.inj h).symm⟩
  · cases h

variable {key : String}

theorem joined_cases (h : s.step (.join c key) = some s') : s.calls.get c = none ∧ s' = s.join c key := by
  rw [State.step] at h
  split at h
  · rename_i hfresh
    exact ⟨hfresh, (Option.some.inj h).symm⟩
  · cases h

/-! ## What holds in every run -/

def Phase.value : Phase τ → Option τ
  | .picked v => some v
  | .returned v => some v
  | _ => none

def Fits (cell : Nat → OnceCell τ) (c : Nat) (call : Call τ) : Prop :=
  match call.phase with
  | .awaiting => True
  | .making => cell call.slot = .running c
  | .picked v => ∃ m, cell call.slot = .set m v
  | .returned v => ∃ m, cell call.slot = .set m v

theorem Fits.of_value {cell : Nat → OnceCell τ} {call : Call τ} {v : τ} (h : Fits cell c call) (hv : call.phase.value = some v) :
    ∃ m, cell call.slot = .set m v := by
  obtain ⟨key, slot, phase⟩ := call
  cases phase with
  | awaiting | making => cases hv
  | picked w | returned w => exact Option.some.inj hv ▸ h

theorem Fits.update {cell : Nat → OnceCell τ} {call : Call τ} {slot : Nat} {x : OnceCell τ} (h : Fits cell c call)
    (hcell : cell slot = .vacant ∨ ∃ c', c' ≠ c ∧ cell slot = .running c') : Fits (Function.update cell slot x) c call := by
  obtain ⟨key, slot', phase⟩ := call
  by_cases hslot : slot' = slot
  · subst hslot
    cases phase with
    | awaiting => trivial
    | making =>
      obtain hvacant | ⟨c', hne, hrunning⟩ := hcell
      · exact absurd (h.symm.trans hvacant) (fun heq => OnceCell.noConfusion rfl (heq_of_eq heq))
      · exact absurd (OnceCell.running.inj (hrunning.symm.trans h)) hne
    | picked v | returned v =>
      obtain ⟨m, hm⟩ := h
      obtain hvacant | ⟨c', hne, hrunning⟩ := hcell
      · rw [hm] at hvacant; cases hvacant
      · rw [hm] at hrunning; cases hrunning
  · unfold Fits at h ⊢
    simp only [Function.update_of_ne hslot]
    exact h

/-- What holds whatever the callers do: a key in the registry has a caller in flight, each call is where its cell says, and what a cell
is set to its caller has made. -/
structure Sound (s : State τ) : Prop where
  held : ∀ key slot, s.registry.get key = some slot →
    slot < s.next ∧ ∃ c call, s.calls.get c = some call ∧ call.key = key ∧ call.phase.inFlight = true
  fits : ∀ c call, s.calls.get c = some call → call.slot < s.next ∧ Fits s.cell c call
  fresh : ∀ slot, s.next ≤ slot → s.cell slot = .vacant
  made : ∀ slot m v, s.cell slot = .set m v → ∃ call, s.calls.get m = some call ∧ call.slot = slot ∧ call.phase.value = some v

theorem sound_init : Sound (init : State τ) := ⟨nofun, nofun, fun _ _ => rfl, fun _ _ _ h => OnceCell.noConfusion rfl (heq_of_eq h)⟩

theorem sound_join (h : Sound s) (hstep : s.step (.join c key) = some s') : Sound s' := by
  obtain ⟨hfresh, rfl⟩ := joined_cases hstep
  have hother : ∀ {m : Nat} {call new : Call τ}, s.calls.get m = some call → (s.calls.insert c new).get m = some call := by
    intro m call new hcall
    have hne : m ≠ c := fun heq => some_ne_none call (hcall.symm.trans (heq ▸ hfresh))
    rw [get_insert_ne hne, hcall]
  obtain ⟨slot, hslot, heq⟩ | ⟨hnone, heq⟩ := join_cases s c key
  · rw [heq]
    refine ⟨fun key' slot' hkey' => ?_, fun m call hcall => ?_, h.fresh, fun slot' m v hcell => ?_⟩
    · obtain ⟨hlt, m, call, hcall, hkey, hflight⟩ := h.held key' slot' hkey'
      exact ⟨hlt, m, call, hother hcall, hkey, hflight⟩
    · rcases of_get_insert hcall with ⟨-, rfl⟩ | ⟨-, hcall⟩
      · exact ⟨(h.held key slot hslot).1, trivial⟩
      · exact h.fits m call hcall
    · obtain ⟨call, hcall, hat, hv⟩ := h.made slot' m v hcell
      exact ⟨call, hother hcall, hat, hv⟩
  · rw [heq]
    refine ⟨fun key' slot' hkey' => ?_, fun m call hcall => ?_, fun slot' hle => h.fresh slot' (Nat.le_of_succ_le hle),
      fun slot' m v hcell => ?_⟩
    · rcases of_get_insert hkey' with ⟨hkey, rfl⟩ | ⟨-, hkey'⟩
      · exact ⟨Nat.lt_succ_self _, c, _, get_insert_self _ _ _, hkey.symm, rfl⟩
      · obtain ⟨hlt, m, call, hcall, hkey, hflight⟩ := h.held key' slot' hkey'
        exact ⟨Nat.lt_succ_of_lt hlt, m, call, hother hcall, hkey, hflight⟩
    · rcases of_get_insert hcall with ⟨-, rfl⟩ | ⟨-, hcall⟩
      · exact ⟨Nat.lt_succ_self _, trivial⟩
      · obtain ⟨hlt, hfits⟩ := h.fits m call hcall
        exact ⟨Nat.lt_succ_of_lt hlt, hfits⟩
    · obtain ⟨call, hcall, hat, hv⟩ := h.made slot' m v hcell
      exact ⟨call, hother hcall, hat, hv⟩

theorem held_insert {s : State τ} {slot : Nat} {old new : Phase τ} (h : Sound s)
    (hcall : s.calls.get c = some ⟨key, slot, old⟩) (hnew : new.inFlight = true) {key' : String} {slot' : Nat}
    (hkey : s.registry.get key' = some slot') : slot' < s.next ∧
      ∃ m call, (s.calls.insert c ⟨key, slot, new⟩).get m = some call ∧ call.key = key' ∧ call.phase.inFlight = true := by
  obtain ⟨hlt, m, call, hm, hkey', hflight⟩ := h.held key' slot' hkey
  by_cases hmc : m = c
  · subst hmc
    rw [hcall] at hm
    cases hm
    exact ⟨hlt, m, _, get_insert_self _ _ _, hkey', hnew⟩
  · exact ⟨hlt, m, call, (get_insert_ne hmc _ _).trans hm, hkey', hflight⟩

theorem made_insert {s : State τ} {slot : Nat} {old : Phase τ} (h : Sound s)
    (hcall : s.calls.get c = some ⟨key, slot, old⟩) (hold : old.value = none) (new : Call τ) {slot' m : Nat} {v : τ}
    (hcell : s.cell slot' = .set m v) :
    ∃ call, (s.calls.insert c new).get m = some call ∧ call.slot = slot' ∧ call.phase.value = some v := by
  obtain ⟨call, hm, hat, hv⟩ := h.made slot' m v hcell
  have hmc : m ≠ c := by
    intro heq
    subst heq
    rw [hcall] at hm
    cases hm
    exact some_ne_none v (hv.symm.trans hold)
  exact ⟨call, (get_insert_ne hmc _ _).trans hm, hat, hv⟩

theorem sound_start (h : Sound s) (hstep : s.step (.start c) = some s') : Sound s' := by
  obtain ⟨key, slot, hcall, hvacant, rfl⟩ := start_cases hstep
  have hlt : slot < s.next := (h.fits c _ hcall).1
  refine ⟨fun key' slot' hkey' => held_insert h hcall rfl hkey', fun m call hm => ?_, fun slot' hle => ?_, fun slot' m v hcell => ?_⟩
  · rcases of_get_insert hm with ⟨rfl, rfl⟩ | ⟨-, hm⟩
    · exact ⟨hlt, Function.update_self ..⟩
    · obtain ⟨hlt', hfits⟩ := h.fits m call hm
      exact ⟨hlt', hfits.update (Or.inl hvacant)⟩
  · exact (Function.update_of_ne (Nat.ne_of_gt (Nat.lt_of_lt_of_le hlt hle)) _ _).trans (h.fresh slot' hle)
  · change Function.update s.cell slot (.running c) slot' = .set m v at hcell
    rw [Function.update_apply] at hcell
    split at hcell
    · cases hcell
    · exact made_insert h hcall rfl _ hcell

theorem sound_finish {v : τ} (h : Sound s) (hstep : s.step (.finish c v) = some s') : Sound s' := by
  obtain ⟨key, slot, hcall, rfl⟩ := finish_cases hstep
  obtain ⟨hlt, hrunning⟩ := h.fits c _ hcall
  refine ⟨fun key' slot' hkey' => held_insert h hcall rfl hkey', fun m call hm => ?_, fun slot' hle => ?_, fun slot' m w hcell => ?_⟩
  · rcases of_get_insert hm with ⟨-, rfl⟩ | ⟨hmc, hm⟩
    · exact ⟨hlt, c, Function.update_self ..⟩
    · obtain ⟨hlt', hfits⟩ := h.fits m call hm
      exact ⟨hlt', hfits.update (Or.inr ⟨c, Ne.symm hmc, hrunning⟩)⟩
  · exact (Function.update_of_ne (Nat.ne_of_gt (Nat.lt_of_lt_of_le hlt hle)) _ _).trans (h.fresh slot' hle)
  · change Function.update s.cell slot (.set c v) slot' = .set m w at hcell
    rw [Function.update_apply] at hcell
    split at hcell
    · rename_i hslot
      cases hcell
      exact ⟨_, get_insert_self _ _ _, hslot.symm, rfl⟩
    · exact made_insert h hcall rfl _ hcell

theorem sound_pick (h : Sound s) (hstep : s.step (.pick c) = some s') : Sound s' := by
  obtain ⟨key, slot, m, v, hcall, hset, rfl⟩ := pick_cases hstep
  refine ⟨fun key' slot' hkey' => held_insert h hcall rfl hkey', fun m' call hm => ?_, h.fresh,
    fun slot' m' w hcell => made_insert h hcall rfl _ hcell⟩
  rcases of_get_insert hm with ⟨-, rfl⟩ | ⟨-, hm⟩
  · exact ⟨(h.fits c _ hcall).1, m, hset⟩
  · exact h.fits m' call hm

theorem sound_remove (h : Sound s) (hstep : s.step (.remove c) = some s') : Sound s' := by
  obtain ⟨key, slot, v, hcall, rfl⟩ := remove_cases hstep
  refine ⟨fun key' slot' hkey' => ?_, fun m call hm => ?_, h.fresh, fun slot' m w hcell => ?_⟩
  · rw [get_erase] at hkey'
    split at hkey'
    · exact absurd hkey' (some_ne_none _).symm
    · rename_i hne
      obtain ⟨hlt, m, call, hm, hkey, hflight⟩ := h.held key' slot' hkey'
      have hmc : m ≠ c := by
        intro heq
        subst heq
        rw [hcall] at hm
        cases hm
        exact hne hkey.symm
      exact ⟨hlt, m, call, (get_insert_ne hmc _ _).trans hm, hkey, hflight⟩
  · rcases of_get_insert hm with ⟨-, rfl⟩ | ⟨-, hm⟩
    · exact ⟨(h.fits c _ hcall).1, (h.fits c _ hcall).2⟩
    · exact h.fits m call hm
  · obtain ⟨call, hm, hat, hv⟩ := h.made slot' m w hcell
    by_cases hmc : m = c
    · subst hmc
      rw [hcall] at hm
      cases hm
      exact ⟨_, get_insert_self _ _ _, hat, hv⟩
    · exact ⟨call, (get_insert_ne hmc _ _).trans hm, hat, hv⟩

theorem sound_step {act : Act τ} (h : Sound s) (hstep : s.step act = some s') : Sound s' := by
  cases act with
  | join c key => exact sound_join h hstep
  | start c => exact sound_start h hstep
  | finish c v => exact sound_finish h hstep
  | pick c => exact sound_pick h hstep
  | remove c => exact sound_remove h hstep

/-! ## While each caller removes its own slot -/

def Current (s : State τ) : Prop :=
  ∀ c call, s.calls.get c = some call → (∀ m v, s.cell call.slot ≠ .set m v) → s.registry.get call.key = some call.slot

theorem current_init : Current (init : State τ) := nofun

theorem current_step {act : Act τ} (hsound : Sound s) (h : Current s) (hown : removesOwn s act = true)
    (hstep : s.step act = some s') : Current s' := by
  intro m call hm hopen
  cases act with
  | join c key =>
    obtain ⟨hfresh, rfl⟩ := joined_cases hstep
    obtain ⟨slot, hslot, heq⟩ | ⟨hnone, heq⟩ := join_cases s c key
    · rw [heq] at hm hopen ⊢
      rcases of_get_insert hm with ⟨-, rfl⟩ | ⟨-, hm⟩
      · exact hslot
      · exact h m call hm hopen
    · rw [heq] at hm hopen ⊢
      rcases of_get_insert hm with ⟨-, rfl⟩ | ⟨-, hm⟩
      · exact get_insert_self _ _ _
      · -- the key had no slot, so nobody waited for one
        have hkey := h m call hm hopen
        have hne : call.key ≠ key := by
          intro heq
          rw [heq, hnone] at hkey
          exact some_ne_none _ hkey.symm
        exact (get_insert_ne hne _ _).trans hkey
  | start c =>
    obtain ⟨key, slot, hcall, hvacant, rfl⟩ := start_cases hstep
    rcases of_get_insert hm with ⟨-, rfl⟩ | ⟨-, hm⟩
    · exact h c ⟨key, slot, .awaiting⟩ hcall (fun m v hset => by rw [hvacant] at hset; cases hset)
    · refine h m call hm (fun n v hset => hopen n v ?_)
      have hne : call.slot ≠ slot := by
        intro heq
        rw [heq, hvacant] at hset
        cases hset
      exact (Function.update_of_ne hne ..).trans hset
  | finish c v =>
    obtain ⟨key, slot, hcall, rfl⟩ := finish_cases hstep
    have hne : call.slot ≠ slot := by
      intro heq
      rw [heq] at hopen
      exact hopen c v (Function.update_self ..)
    rcases of_get_insert hm with ⟨-, rfl⟩ | ⟨-, hm⟩
    · exact absurd rfl hne
    · exact h m call hm (fun n w hset => hopen n w ((Function.update_of_ne hne ..).trans hset))
  | pick c =>
    obtain ⟨key, slot, n, v, hcall, hset, rfl⟩ := pick_cases hstep
    rcases of_get_insert hm with ⟨-, rfl⟩ | ⟨-, hm⟩
    · exact absurd hset (hopen n v)
    · exact h m call hm hopen
  | remove c =>
    obtain ⟨key, slot, v, hcall, rfl⟩ := remove_cases hstep
    obtain ⟨n, hset⟩ := (hsound.fits c _ hcall).2
    rcases of_get_insert hm with ⟨-, rfl⟩ | ⟨-, hm⟩
    · exact absurd hset (hopen n v)
    · have hkey := h m call hm hopen
      have hne : call.key ≠ key := by
        intro heq
        rw [heq] at hkey
        simp only [removesOwn, hcall, hkey, all_some, beq_iff_eq] at hown
        exact hopen n v (hown ▸ hset)
      exact (get_erase_ne hne _).trans hkey

theorem making_unique {s : State τ} (hsound : Sound s) (h : Current s) {c c' : Nat} {slot slot' : Nat}
    (hc : s.calls.get c = some ⟨key, slot, .making⟩) (hc' : s.calls.get c' = some ⟨key, slot', .making⟩) : c = c' := by
  have hrunning : s.cell slot = .running c := (hsound.fits c _ hc).2
  have hrunning' : s.cell slot' = .running c' := (hsound.fits c' _ hc').2
  have hslot := h c _ hc (fun m v hset => by rw [hrunning] at hset; cases hset)
  have hslot' := h c' _ hc' (fun m v hset => by rw [hrunning'] at hset; cases hset)
  have heq : slot = slot' := Option.some.inj (hslot.symm.trans hslot')
  subst heq
  exact OnceCell.running.inj (hrunning.symm.trans hrunning')

/-! ## Runs -/

theorem sound_run {acts : List (Act τ)} {s : State τ} (hrun : run init acts = some s) : Sound s :=
  Runs.invariant (fun _ _ _ h _ hstep => sound_step h hstep) sound_init (Runs.along_true init acts) hrun

theorem current_run {acts : List (Act τ)} {s : State τ} (hown : Runs.along State.step removesOwn init acts = true)
    (hrun : run init acts = some s) : Current s := by
  have hstep : ∀ (s s' : State τ) act, Sound s ∧ Current s → removesOwn s act = true → s.step act = some s' → Sound s' ∧ Current s' :=
    fun _ _ _ h hok hstep => ⟨sound_step h.1 hstep, current_step h.1 h.2 hok hstep⟩
  exact (Runs.invariant hstep ⟨sound_init, current_init⟩ hown hrun).2

/-- **A call returns what the run of its slot made, and a key nobody is in flight for has no slot; and while each caller takes out the
slot it joined, a key has one `make` running at most.** -/
theorem single_flight_runs {acts : List (Act τ)} {s : State τ} (hrun : run init acts = some s) :
    (∀ c key slot v, s.calls.get c = some ⟨key, slot, .returned v⟩ →
      ∃ m call, s.cell slot = .set m v ∧ s.calls.get m = some call ∧ call.slot = slot ∧ call.phase.value = some v) ∧
    (∀ key, (∀ c call, s.calls.get c = some call → call.key = key → call.phase.inFlight = false) → s.registry.get key = none) ∧
    (Runs.along State.step removesOwn init acts = true → ∀ c c' key slot slot', s.calls.get c = some ⟨key, slot, .making⟩ →
      s.calls.get c' = some ⟨key, slot', .making⟩ → c = c') := by
  have hsound := sound_run hrun
  refine ⟨fun c key slot v hcall => ?_, fun key hgone => ?_, fun hown c c' key slot slot' hc hc' => ?_⟩
  · obtain ⟨m, hset⟩ := (hsound.fits c _ hcall).2.of_value rfl
    obtain ⟨call, hm, hat, hv⟩ := hsound.made slot m v hset
    exact ⟨m, call, hset, hm, hat, hv⟩
  · by_contra hkey
    obtain ⟨slot, hslot⟩ := ne_none_iff_exists'.1 hkey
    obtain ⟨_, c, call, hcall, hof, hflight⟩ := hsound.held key slot hslot
    exact Bool.false_ne_true ((hgone c call hcall hof).symm.trans hflight)
  · exact making_unique hsound (current_run hown hrun) hc hc'

/-- The second call of a slot takes the key out after a third has put a new slot there. -/
def overtaken : List (Act Nat) :=
  [.join 0 "link", .start 0, .join 1 "link", .finish 0 7, .remove 0, .join 2 "link", .start 2, .pick 1, .remove 1, .join 3 "link", .start 3]

theorem single_flight_runs_alone : ∃ s : State Nat, run init (overtaken.take 7) = some s ∧
    (∀ c c' key slot slot', s.calls.get c = some ⟨key, slot, .making⟩ → s.calls.get c' = some ⟨key, slot', .making⟩ → c = c') := by
  obtain ⟨s, hs⟩ := isSome_iff_exists.1 (show (run init (overtaken.take 7)).isSome = true by decide)
  exact ⟨s, hs, (single_flight_runs hs).2.2 (by decide)⟩

theorem overtaken_runs_twice : ∃ s : State Nat, run init overtaken = some s ∧
    s.calls.get 2 = some ⟨"link", 1, .making⟩ ∧ s.calls.get 3 = some ⟨"link", 2, .making⟩ := by
  have h : (run init overtaken).map (fun s => (s.calls.get 2, s.calls.get 3)) =
      some (some ⟨"link", 1, .making⟩, some ⟨"link", 2, .making⟩) := by decide
  obtain ⟨s, hs, hcalls⟩ := map_eq_some_iff.1 h
  exact ⟨s, hs, congrArg Prod.fst hcalls, congrArg Prod.snd hcalls⟩

end Mistl.SingleFlight
