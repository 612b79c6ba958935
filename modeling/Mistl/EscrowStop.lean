import Mistl.EscrowCluster
/-!
# EscrowStop — what stops a replicated room

A proposal, a membership change or the barrier of a new leader that the engine refuses stops the whole cluster,
although nothing is wrong with its storage.
-/
open List Mistl.Table Mistl.Json

namespace Mistl.Escrow
namespace Cluster

variable {σ : Type} (C : Crates) (K : Consensus σ)

/-- What an input submits to the engine, and the engine it submits it to: a client's command, a change of membership or
the barrier of a node that became leader. -/
def submission (c : Cluster σ) (env : Env) (input : Input) : Option (Engine σ × Event) :=
  if c.running = false then none
  else match input with
    | .propose command term _ => if c.proposable env command term then some (c.engine, .clientPropose command.payload) else none
    | .membership voters learners =>
      if c.engine.role = .leader ∧ c.membershipPending = none then
        match c.target K voters learners with
        | .ok target => some (c.engine, .changeMembership target.voters target.learners)
        | .error _ => none
      else none
    | .event event _ =>
      if c.error.isSome then none
      else match c.engine.step K event with
        | (engine, .ok outputs) =>
          if outputs.contains .becameLeader then
            some (engine, .clientPropose (Command.readBarrier env.ticket).payload)
          else none
        | (_, .error _) => none
    | .maintain | .gone _ => none

def Refuses (c : Cluster σ) (env : Env) (input : Input) : Prop :=
  ∃ engine event error, c.submission K env input = some (engine, event) ∧
    (engine.step K event).2 = .error error ∧ (engine.step K event).1.stopped = false

def Input.Owed : Input → Reply → Prop
  | .propose command _ _, .client ticket _ => ticket = command.ticket
  | .membership _ _, .membershipRefused _ => True
  | _, _ => False

def Input.Proposes : Input → String → Prop
  | .propose command _ _, ticket => ticket = command.ticket
  | _, _ => False

/-- The cluster runs on: every other request that waits still does, and nothing but the input is answered. -/
structure Survives (c : Cluster σ) (env : Env) (input : Input) : Prop where
  running : (c.handle C K env input).1.running = true
  error : (c.handle C K env input).1.error = none
  pending : ∀ ticket p, c.pending.get ticket = some p → p.waiting = true → ¬ input.Proposes ticket →
    (c.handle C K env input).1.pending.get ticket = some p
  replies : ∀ reply ∈ (c.handle C K env input).2, input.Owed reply

/-- **The condition**: the log has room for what an input submits. -/
def Roomy (c : Cluster σ) (env : Env) (input : Input) : Prop := (c.submission K env input).isSome = true → match input with
    | .propose command _ _ => command.payload.size ≤ maxCommandBytes ∧ c.engine.log.length < maxEntries
    | .membership _ _ => c.engine.log.length < maxEntries - 1
    | .event _ _ => c.engine.log.length < maxEntries
    | .maintain | .gone _ => True

def Runs (ok : Cluster σ → Env → Input → Prop) : Cluster σ → Cluster σ → Prop :=
  Relation.ReflTransGen (fun c c' => ∃ env input, ok c env input ∧ c' = (c.handle C K env input).1)

theorem Runs.anyway {C : Crates} {K : Consensus σ} {ok : Cluster σ → Env → Input → Prop} {c c' : Cluster σ}
    (h : Runs C K ok c c') : Runs C K (fun _ _ _ => True) c c' := by
  refine Relation.ReflTransGen.mono ?_ _ _ h
  rintro _ _ ⟨env, input, -, hstep⟩
  exact ⟨env, input, trivial, hstep⟩

/-! ## One input -/

theorem barrier_size {ticket : String} (h : hexString ticket 32 = true) :
    (Command.readBarrier ticket).payload.size ≤ maxCommandBytes := by
  have h1 : stringSize "op" = 4 := by decide
  have h2 : stringSize "ticket" = 8 := by decide
  have h3 : stringSize "read_barrier" = 14 := by decide
  rw [Command.payload, Command.toJson, size_obj]
  simp only [fieldsSize, size_str, stringSize_hex h, maxCommandBytes]
  omega

variable {C K} {c : Cluster σ} {env : Env}

variable {command : Command}

theorem proposable_iff {term : Nat} : c.proposable env command term = true ↔
    c.error = none ∧ c.engine.role = .leader ∧ c.engine.currentTerm = term ∧ c.retain.pending.size < maxRequests ∧
      env.encodes (c.probe command term) = true := by
  unfold proposable
  simp only [Bool.and_eq_true, decide_eq_true_eq, and_assoc]

variable {error : EngineError}

theorem proposal_refused {term : Nat} (id : String) (hp : c.proposable env command term = true)
    (hr : (c.engine.step K (.clientPropose command.payload)).2 = .error error) :
    (c.proposal C K env command term id).1.running = false := by
  obtain ⟨h1, h2, h3, h4, h5⟩ := proposable_iff.1 hp
  have hprobe : c.retain.probe command term = c.probe command term := rfl
  have hguard : ¬ (c.retain.error.isSome = true ∨ c.retain.engine.role ≠ .leader ∨ c.retain.engine.currentTerm ≠ term
      ∨ maxRequests ≤ c.retain.pending.size) := by
    simp only [retain, h1, h2, h3, Option.isSome_none, Bool.false_eq_true, ne_eq, not_true_eq_false, false_or, Nat.not_le]
    exact h4
  unfold proposal
  simp only [if_neg hguard, hprobe, h5, Bool.true_eq_false, if_false]
  have hr' : (c.retain.engine.step K (.clientPropose command.payload)).2 = .error error := hr
  split
  · rename_i heq
    rw [heq] at hr'
    cases hr'
  · rfl

variable {voters learners : List String}

theorem changeMembership_refused {target : Membership}
    (hl : c.engine.role = .leader) (hm : c.membershipPending = none) (ht : c.target K voters learners = .ok target)
    (hr : (c.engine.step K (.changeMembership target.voters target.learners)).2 = .error error) :
    (c.changeMembership C K env voters learners).1.running = false := by
  unfold changeMembership
  have hguard : ¬ (c.engine.role ≠ .leader ∨ c.membershipPending.isSome = true) := by
    simp only [hl, hm, ne_eq, not_true_eq_false, Option.isSome_none, Bool.false_eq_true, or_self, not_false_eq_true]
  rw [if_neg hguard, ht]
  dsimp only
  split
  · rename_i heq
    rw [heq] at hr
    cases hr
  · rfl

theorem outputs_refused {outputs : List Output} (suppressSend : Bool) (hl : outputs.contains .becameLeader = true)
    (hr : (c.engine.step K (.clientPropose (Command.readBarrier env.ticket).payload)).2 = .error error) :
    (c.outputs C K env outputs suppressSend).1.running = false := by
  unfold Cluster.outputs pass barrier
  rw [if_pos hl]
  split
  · rename_i heq
    rw [heq] at hr
    cases hr
  · rfl

theorem survives_iff_roomy (hK : K.Elections) (c : Cluster σ) (env : Env) (input : Input) :
    (c.Refuses K env input → c.Survives C K env input) ↔ c.Roomy K env input := by
  constructor
  · intro hmeets hsome
    obtain ⟨⟨engine, event⟩, hsub⟩ := Option.isSome_iff_exists.1 hsome
    have hrefuse : ∀ error, engine.stopped = false → engine.admitEvent K event = .error error →
        (c.handle C K env input).1.running = false → False := by
      intro error hst ha hstop
      have hstep := Engine.step_of_admitEvent hst ha
      have hsurv := hmeets ⟨engine, event, error, hsub, by rw [hstep], by rw [hstep]; exact hst⟩
      rw [hsurv.running] at hstop
      cases hstop
    unfold submission at hsub
    split at hsub
    · cases hsub
    · rename_i hrun
      cases input with
      | propose command term id =>
        dsimp only at hsub ⊢
        split at hsub
        · rename_i hp
          cases hsub
          by_contra hroom
          obtain ⟨error, ha⟩ := (Engine.admit_propose (K := K) (e := c.engine) command.payload).2 hroom
          have hst := Engine.stopped_of_leader (proposable_iff.1 hp).2.1
          refine hrefuse error hst ha ?_
          rw [handle, if_neg hrun]
          exact proposal_refused id hp (by rw [Engine.step_of_admitEvent hst ha])
        · cases hsub
      | membership voters learners =>
        dsimp only at hsub ⊢
        split at hsub
        · rename_i hl
          split at hsub
          · rename_i target ht
            cases hsub
            by_contra hroom
            obtain ⟨error, ha⟩ := (Engine.admit_membership (K := K) (e := c.engine) target.voters target.learners).2 hroom
            have hst := Engine.stopped_of_leader hl.1
            refine hrefuse error hst ha ?_
            rw [handle, if_neg hrun]
            exact changeMembership_refused hl.1 hl.2 ht (by rw [Engine.step_of_admitEvent hst ha])
          · cases hsub
        · cases hsub
      | event ev suppressSend =>
        dsimp only at hsub ⊢
        split at hsub
        · cases hsub
        · rename_i herr
          split at hsub
          · rename_i next outs hstep
            split at hsub
            · rename_i hl
              cases hsub
              obtain ⟨hst, hlog⟩ := Engine.step_elected hK hstep (contains_iff_mem.1 hl)
              by_contra hroom
              rw [← hlog] at hroom
              obtain ⟨error, ha⟩ := (Engine.admit_propose (K := K) (e := engine)
                (Command.readBarrier env.ticket).payload).2 (fun h => hroom h.2)
              refine hrefuse error hst ha ?_
              rw [handle, if_neg hrun]
              simp only [Cluster.event, if_neg herr, hstep]
              exact outputs_refused suppressSend hl (by rw [Engine.step_of_admitEvent hst ha])
            · cases hsub
          · cases hsub
      | maintain | gone ticket => trivial
  · rintro hroomy ⟨engine, event, error, hsub, herr, hst⟩
    have hroom := hroomy (by rw [hsub]; rfl)
    obtain ⟨-, ha, -⟩ := Engine.step_refused herr hst
    exfalso
    unfold submission at hsub
    split at hsub
    · cases hsub
    · cases input with
      | propose command term id =>
        dsimp only at hsub hroom
        split at hsub
        · cases hsub
          exact (Engine.admit_propose _).1 ⟨error, ha⟩ hroom
        · cases hsub
      | membership voters learners =>
        dsimp only at hsub hroom
        split at hsub
        · split at hsub
          · cases hsub
            exact (Engine.admit_membership _ _).1 ⟨error, ha⟩ hroom
          · cases hsub
        · cases hsub
      | event ev suppressSend =>
        dsimp only at hsub hroom
        split at hsub
        · cases hsub
        · split at hsub
          · rename_i next outs hstep
            split at hsub
            · rename_i hl
              cases hsub
              obtain ⟨-, hlog⟩ := Engine.step_elected hK hstep (contains_iff_mem.1 hl)
              rw [← hlog] at hroom
              exact (Engine.admit_propose _).1 ⟨error, ha⟩ ⟨barrier_size env.ticket_hex, hroom⟩
            · cases hsub
          · cases hsub
      | maintain | gone ticket => cases hsub

/-! ## The stages of a pass -/

def Calm (error : Option Fault) (p : Pass σ) : Prop := p.cluster.error = error ∧ ∀ e, p.fault ≠ some (.refused e)

theorem Calm.next {error : Option Fault} {p : Pass σ} {f : Cluster σ → Multiset Reply → Pass σ} (hp : Calm error p)
    (hf : ∀ c r, Calm c.error (f c r)) : Calm error (p.next f) := by
  unfold Pass.next
  split
  · exact hp
  · have := hf p.cluster p.replies
    rwa [hp.1] at this

theorem calm_install (env : Env) : ∀ (outputs : List Output) (c : Cluster σ) (r : Multiset Reply),
    Calm c.error (install C env outputs c r)
  | [], _, _ => ⟨rfl, nofun⟩
  | output :: outputs, c, r => by
    cases output with
    | installSnapshot snapshot =>
      rw [install]
      split
      · split
        · rename_i state _ _
          exact calm_install env outputs { c with state := state } r
        · exact ⟨rfl, nofun⟩
      · exact ⟨rfl, nofun⟩
    | _ => exact calm_install env outputs c r

theorem calm_applyEntry (env : Env) (entry : LogEntry) (c : Cluster σ) (r : Multiset Reply) :
    Calm c.error (applyEntry C env entry c r) := by
  unfold applyEntry
  split
  · split <;> exact ⟨rfl, fun _ h => by cases h⟩
  · exact ⟨rfl, fun _ h => by cases h⟩
  · split
    · exact ⟨rfl, fun _ h => by cases h⟩
    · dsimp only
      split <;> exact ⟨rfl, fun _ h => by cases h⟩

theorem calm_applyEntries (env : Env) : ∀ (entries : List LogEntry) (c : Cluster σ) (r : Multiset Reply),
    Calm c.error (applyEntries C env entries c r)
  | [], _, _ => ⟨rfl, nofun⟩
  | entry :: entries, c, r => (calm_applyEntry env entry c r).next (calm_applyEntries env entries)

theorem calm_compaction (env : Env) (c : Cluster σ) (r : Multiset Reply) : Calm c.error (compaction C K env c r) := by
  unfold compaction
  split
  · split
    · exact ⟨rfl, nofun⟩
    · split
      · exact ⟨rfl, nofun⟩
      · dsimp only
        split <;> exact ⟨rfl, nofun⟩
  · exact ⟨rfl, nofun⟩

theorem calm_send (env : Env) : ∀ (outputs : List Output) (c : Cluster σ) (r : Multiset Reply), Calm c.error (send C env outputs c r)
  | [], _, _ => ⟨rfl, nofun⟩
  | output :: outputs, c, r => by
    cases output with
    | sendMessage recipient msg =>
      cases msg with
      | installSnapshot term leader snapshot =>
        rw [send]
        split
        · split
          · exact calm_send env outputs c r
          · exact ⟨rfl, nofun⟩
        · exact ⟨rfl, nofun⟩
      | _ =>
        unfold send
        split
        · exact calm_send env outputs c r
        · exact ⟨rfl, nofun⟩
    | _ => exact calm_send env outputs c r

theorem calm_settle (outputs : List Output) (c : Cluster σ) (r : Multiset Reply) : Calm c.error (settle K outputs c r) := by
  have herr : (c.settleMembership K outputs r).1.error = c.error := by
    unfold settleMembership
    split
    · rfl
    · split
      · rfl
      · split <;> rfl
  unfold settle
  dsimp only
  split <;> exact ⟨herr, nofun⟩

theorem pass_refused (c : Cluster σ) (env : Env) (outputs : List Output) (suppressSend : Bool) :
    (∃ engine error, outputs.contains .becameLeader = true ∧
      c.engine.step K (.clientPropose (Command.readBarrier env.ticket).payload) = (engine, .error error) ∧
      c.pass C K env outputs suppressSend = ⟨{ c with engine := engine }, 0, some (.refused error)⟩) ∨
    Calm c.error (c.pass C K env outputs suppressSend) := by
  have hrest : ∀ (p : Pass σ) (outs : List Output), Calm c.error p → Calm c.error
      (((((p.next (install C env outs)).next (fun c r => applyEntries C env c.unapplied c r)).next
        (compaction C K env)).next (send C env (if suppressSend then [] else outs))).next (settle K outs)) := by
    intro p outs hp
    exact ((((hp.next (calm_install env _)).next (fun c r => calm_applyEntries env _ c r)).next
      (calm_compaction env)).next (calm_send env _)).next (calm_settle _)
  unfold pass barrier
  cases hl : outputs.contains Output.becameLeader with
  | false => exact .inr (hrest _ _ ⟨rfl, nofun⟩)
  | true =>
    cases hstep : c.engine.step K (.clientPropose (Command.readBarrier env.ticket).payload) with
    | mk engine result =>
      cases result with
      | error error => exact .inl ⟨engine, error, rfl, rfl, rfl⟩
      | ok more => exact .inr (hrest ⟨{ c with engine := engine }, 0, none⟩ _ ⟨rfl, nofun⟩)

variable {e : EngineError}

theorem Calm.finish {error : Option Fault} {p : Pass σ} (hp : Calm error p) (hn : error = none) :
    p.finish.1.error ≠ some (.refused e) := by
  unfold Pass.finish
  split
  · rw [hp.1, hn]
    exact nofun
  · rename_i fault hf
    intro h
    cases h
    exact hp.2 e hf

/-! ## Runs -/

theorem outputs_calm (hc : c.error = none) (env : Env) {outputs : List Output} (suppressSend : Bool)
    (hl : .becameLeader ∉ outputs) :
    (c.outputs C K env outputs suppressSend).1.error ≠ some (.refused e) := by
  rcases pass_refused (C := C) (K := K) c env outputs suppressSend with ⟨_, _, hm, -⟩ | hcalm
  · exact absurd (contains_iff_mem.1 hm) hl
  · exact hcalm.finish hc

theorem stopped_of_propose {engine next : Engine σ} {command : Payload}
    (h : engine.step K (.clientPropose command) = (next, .error error)) (hsize : command.size ≤ maxCommandBytes)
    (hlen : engine.log.length < maxEntries) : next.stopped = true := by
  by_contra hs
  have hst : (engine.step K (.clientPropose command)).1.stopped = false := by
    rw [h]
    exact Bool.eq_false_iff.2 hs
  obtain ⟨-, ha, -⟩ := Engine.step_refused (congrArg Prod.snd h) hst
  exact (Engine.admit_propose command).1 ⟨error, ha⟩ ⟨hsize, hlen⟩

theorem stopped_of_membership {engine next : Engine σ} 
    (h : engine.step K (.changeMembership voters learners) = (next, .error error))
    (hlen : engine.log.length < maxEntries - 1) : next.stopped = true := by
  by_contra hs
  have hst : (engine.step K (.changeMembership voters learners)).1.stopped = false := by
    rw [h]
    exact Bool.eq_false_iff.2 hs
  obtain ⟨-, ha, -⟩ := Engine.step_refused (congrArg Prod.snd h) hst
  exact (Engine.admit_membership voters learners).1 ⟨error, ha⟩ hlen

theorem proposal_stopped (hK : K.Elections) (hrun : c.running = true) {term : Nat} {id : String}
    (hroom : c.Roomy K env (.propose command term id)) (hc : c.error = none)
    (h : (c.proposal C K env command term id).1.error = some (.refused e)) :
    (c.proposal C K env command term id).1.engine.stopped = true := by
  unfold proposal at h ⊢
  dsimp only at h ⊢
  split at h
  · rw [show c.retain.error = c.error from rfl, hc] at h
    cases h
  · rename_i hguard
    rw [if_neg hguard]
    split at h
    · rw [show c.retain.error = c.error from rfl, hc] at h
      cases h
    · rename_i henc
      rw [if_neg henc]
      split at h
      · rename_i engine outs hstep
        exact absurd h (outputs_calm (by exact hc) env false (Engine.step_propose_elects hK hstep))
      · rename_i engine error hstep
        simp only [not_or, not_not, Nat.not_le, Bool.not_eq_false] at hguard henc
        have hp : c.proposable env command term = true := proposable_iff.2 ⟨hc, hguard.2.1, hguard.2.2.1, hguard.2.2.2, henc⟩
        obtain ⟨h1, h2⟩ := hroom (by rw [submission, hrun]; simp [hp])
        exact stopped_of_propose hstep h1 h2

theorem membership_stopped (hK : K.Elections) (hrun : c.running = true)
    (hroom : c.Roomy K env (.membership voters learners)) (hc : c.error = none)
    (h : (c.changeMembership C K env voters learners).1.error = some (.refused e)) :
    (c.changeMembership C K env voters learners).1.engine.stopped = true := by
  unfold changeMembership at h ⊢
  split at h
  · rw [hc] at h
    cases h
  · rename_i hguard
    rw [if_neg hguard]
    cases ht : c.target K voters learners with
    | error x =>
      rw [ht] at h
      rw [hc] at h
      cases h
    | ok target =>
      rw [ht] at h
      dsimp only at h ⊢
      split at h
      · rename_i engine outs hstep
        exact absurd h (outputs_calm (by exact hc) env false (Engine.step_membership_elects hK hstep))
      · rename_i engine error hstep
        simp only [not_or, not_not, Bool.not_eq_true, Option.isSome_eq_false_iff, Option.isNone_iff_eq_none] at hguard
        have hlen := hroom (by rw [submission, hrun]; simp [hguard.1, hguard.2, ht])
        exact stopped_of_membership hstep hlen

theorem event_stopped (hK : K.Elections) (hrun : c.running = true) {ev : Event} {suppressSend : Bool}
    (hroom : c.Roomy K env (.event ev suppressSend)) (hc : c.error = none)
    (h : (c.event C K env ev suppressSend).1.error = some (.refused e)) :
    (c.event C K env ev suppressSend).1.engine.stopped = true := by
  have hsome : ¬ c.error.isSome = true := by
    rw [hc]
    exact Bool.false_ne_true
  unfold Cluster.event at h ⊢
  rw [if_neg hsome] at h ⊢
  split at h
  · rename_i engine outs hstep
    rcases pass_refused (C := C) (K := K) { c with engine := engine } env outs suppressSend with
      ⟨next, error, hl, hbar, hpass⟩ | hcalm
    · have hlog := (Engine.step_elected hK hstep (contains_iff_mem.1 hl)).2
      have hlen : c.engine.log.length < maxEntries := by
        refine hroom ?_
        rw [submission, hrun]
        simp [hc, hstep, contains_iff_mem.1 hl]
      have hstop := stopped_of_propose hbar (barrier_size env.ticket_hex) (by rw [hlog]; exact hlen)
      rw [Cluster.outputs, hpass]
      exact hstop
    · exact absurd h (hcalm.finish hc)
  · split at h
    · cases h
    · rw [hc] at h
      cases h

theorem handle_stopped (hK : K.Elections) {input : Input} (hroom : c.Roomy K env input) (hc : c.error = none)
    (h : (c.handle C K env input).1.error = some (.refused e)) :
    (c.handle C K env input).1.engine.stopped = true := by
  unfold handle at h ⊢
  split at h
  · rw [hc] at h
    cases h
  · rename_i hrun
    rw [if_neg hrun]
    have hrun' : c.running = true := Bool.not_eq_false _ ▸ hrun
    cases input with
    | propose command term id => exact proposal_stopped hK hrun' hroom hc h
    | membership voters learners => exact membership_stopped hK hrun' hroom hc h
    | event ev suppressSend => exact event_stopped hK hrun' hroom hc h
    | maintain =>
      dsimp only at h
      split at h
      · rw [hc] at h
        cases h
      · cases h
    | gone ticket =>
      dsimp only at h
      split at h <;> (rw [hc] at h; cases h)

theorem Pass.finish_halts {p : Pass σ} (hp : p.cluster.error = none) : p.finish.1.error = none ∨ p.finish.1.running = false := by
  unfold Pass.finish
  split
  · exact .inl hp
  · exact .inr rfl

theorem outputs_halts (hc : c.error = none) (env : Env) (outputs : List Output) (suppressSend : Bool) :
    (c.outputs C K env outputs suppressSend).1.error = none ∨ (c.outputs C K env outputs suppressSend).1.running = false := by
  refine Pass.finish_halts ?_
  rcases pass_refused (C := C) (K := K) c env outputs suppressSend with ⟨engine, error, -, -, hpass⟩ | hcalm
  · rw [hpass]
    exact hc
  · exact hcalm.1.trans hc

theorem handle_halts (hc : c.error = none) (env : Env) (input : Input) :
    (c.handle C K env input).1.error = none ∨ (c.handle C K env input).1.running = false := by
  unfold handle
  split
  · exact .inl hc
  · cases input with
    | propose command term id =>
      unfold proposal
      dsimp only
      split
      · exact .inl hc
      · split
        · exact .inl hc
        · split
          · refine outputs_halts ?_ env _ _
            exact hc
          · exact .inr rfl
    | membership voters learners =>
      unfold changeMembership
      dsimp only
      split
      · exact .inl hc
      · split
        · exact .inl hc
        · split
          · refine outputs_halts ?_ env _ _
            exact hc
          · exact .inr rfl
    | event ev suppressSend =>
      unfold Cluster.event
      dsimp only
      split
      · exact .inl hc
      · split
        · refine outputs_halts ?_ env _ _
          exact hc
        · split
          · exact .inr rfl
          · exact .inl hc
    | maintain =>
      dsimp only
      split
      · exact .inl hc
      · exact .inr rfl
    | gone ticket =>
      dsimp only
      split <;> exact .inl hc

theorem Runs.stopped (hK : K.Elections) {c₀ : Cluster σ} (h₀ : c₀.error = none) (hr : Runs C K (Roomy K) c₀ c) :
    (c.error = none ∨ c.running = false) ∧ ∀ e, c.error = some (.refused e) → c.engine.stopped = true := by
  induction hr with
  | refl =>
    refine ⟨.inl h₀, fun e he => ?_⟩
    rw [h₀] at he
    cases he
  | tail _ hstep ih =>
    obtain ⟨env, input, hroom, rfl⟩ := hstep
    rcases ih.1 with herr | hrun
    · exact ⟨handle_halts herr env input, fun e he => handle_stopped hK hroom herr he⟩
    · unfold handle
      rw [if_pos hrun]
      exact ih

/-- **A refusal stops the cluster only where the log has no room**: a cluster stopped by a refusal has a failed write
behind it, and an input that the engine refuses leaves the cluster running exactly when the log has room for it. -/
theorem refusal_survives_iff_roomy (C : Crates) (K : Consensus σ) (hK : K.Elections) (c₀ c : Cluster σ)
    (h₀ : c₀.error = none) (hr : Runs C K (Roomy K) c₀ c) :
    (∀ e, c.error = some (.refused e) → c.engine.stopped = true) ∧
    ∀ env input, (c.Refuses K env input → c.Survives C K env input) ↔ c.Roomy K env input :=
  ⟨(Runs.stopped hK h₀ hr).2, fun env input => survives_iff_roomy hK c env input⟩

/-! ## A leader without a majority -/

/-- The reads a leader without a majority keeps in its log, the barrier of its election first. -/
def readLog (n : Nat) : List LogEntry := (List.range n).map (fun i => ⟨1, i + 1, (Command.readBarrier (nonce i)).payload⟩)

def threeVoters : List String := ["0000000000000001", "0000000000000002", "0000000000000003"]

/-- The engine of a leader with `n` reads in its log and nothing committed. -/
def leaderEngine (n : Nat) : Engine Unit where
  raft :=
    { id := "0000000000000001", storage := ⟨1, some "0000000000000001", readLog n, 0, none, false⟩, role := .leader,
      commitIndex := 0, leaderId := none, membership := ⟨threeVoters, none, []⟩, own := () }
  applied := 0
  savedCommit := 0
  stopped := false
  acknowledged := ∅
  disk := []

/-- A running leader with `n` reads in its log, none of which is waited for. -/
structure AtLeader (n : Nat) (c : Cluster Unit) : Prop where
  engine : c.engine = leaderEngine n
  error : c.error = none
  running : c.running = true
  membership : c.membershipPending = none
  pending : c.retain.pending = ∅

theorem readLog_length (n : Nat) : (readLog n).length = n := by
  rw [readLog, length_map, length_range]

theorem readLog_succ (n : Nat) : readLog (n + 1) = readLog n ++ [⟨1, n + 1, (Command.readBarrier (nonce n)).payload⟩] := by
  rw [readLog, range_succ, map_append]
  rfl

theorem lastLogIndex_leader (n : Nat) : (leaderEngine n).raft.storage.lastLogIndex = n := by
  cases n with
  | zero => rfl
  | succ n =>
    unfold Storage.lastLogIndex leaderEngine
    rw [readLog_succ, getLast?_concat]
    rfl

variable {n : Nat}

theorem AtLeader.log_length {c : Cluster Unit} (hc : AtLeader n c) : c.engine.log.length = n := by
  rw [hc.engine]
  exact readLog_length n

theorem AtLeader.role {c : Cluster Unit} (hc : AtLeader n c) : c.engine.role = .leader := by
  rw [hc.engine]
  rfl

theorem leader_step (h : n < maxEntries) :
    (leaderEngine n).step Consensus.silent (.clientPropose (Command.readBarrier (nonce n)).payload)
      = (leaderEngine (n + 1), .ok [.proposed (n + 1)]) := by
  have hadm : (leaderEngine n).admitEvent Consensus.silent (.clientPropose (Command.readBarrier (nonce n)).payload)
      = .ok (.clientPropose (Command.readBarrier (nonce n)).payload, ∅, none) := by
    unfold Engine.admitEvent
    dsimp only
    rw [if_neg (Nat.not_lt.2 (barrier_size (hexString_hexPad 28 n))), if_pos]
    · rfl
    · show (readLog n).length < maxEntries
      rw [readLog_length]
      exact h
  have hadvance : (leaderEngine n).advance Consensus.silent (.clientPropose (Command.readBarrier (nonce n)).payload) ∅ none
      = ({ leaderEngine (n + 1) with raft := { (leaderEngine (n + 1)).raft with
            storage := { (leaderEngine (n + 1)).raft.storage with dirty := true } } }, [.proposed (n + 1)]) := by
    have hlast : Storage.lastLogIndex ⟨1, some "0000000000000001", readLog n, 0, none, false⟩ = n := lastLogIndex_leader n
    simp only [Engine.advance, Consensus.silent, leaderEngine, Engine.commitIndex, hlast, readLog_succ]
    rfl
  rw [Engine.step, hadm]
  dsimp only
  rw [hadvance]
  rfl

theorem leader_stages (C : Crates) (env : Env) {c : Cluster Unit} (hengine : c.engine = leaderEngine n)
    (hm : c.membershipPending = none) (outs : List Output) (hinstall : install C env outs c 0 = ⟨c, 0, none⟩)
    (hsend : send C env outs c 0 = ⟨c, 0, none⟩) :
    ((((Pass.next ⟨c, 0, none⟩ (install C env outs)).next (fun c r => applyEntries C env c.unapplied c r)).next
      (compaction C Consensus.silent env)).next (send C env (if false = true then [] else outs))).next
      (settle Consensus.silent outs) = ⟨c, 0, none⟩ := by
  have hun : c.unapplied = [] := by
    rw [unapplied, hengine, filter_eq_nil_iff]
    intro e _ he
    rw [Bool.and_eq_true, decide_eq_true_eq, decide_eq_true_eq] at he
    exact absurd (Nat.lt_of_lt_of_le he.1 he.2) (Nat.lt_irrefl 0)
  have hcompact : compaction C Consensus.silent env c 0 = ⟨c, 0, none⟩ := by
    rw [compaction, if_neg]
    rw [hengine]
    rintro ⟨-, -, hlt⟩
    exact absurd hlt (Nat.lt_irrefl 0)
  have hsettle : settle Consensus.silent outs c 0 = ⟨c, 0, none⟩ := by
    rw [settle, settleMembership, hm]
    rw [if_neg]
    rw [hengine]
    exact fun h => h rfl
  simp only [Pass.next, hinstall, hun, applyEntries, hcompact, Bool.false_eq_true, if_false, hsend, hsettle]

theorem leader_outputs (C : Crates) (env : Env) (k : Nat) {c : Cluster Unit}
    (hengine : c.engine = leaderEngine n) (hm : c.membershipPending = none) :
    c.outputs C Consensus.silent env [.proposed k] false = (c, 0) := by
  have hl : [Output.proposed k].contains .becameLeader = false := rfl
  unfold Cluster.outputs pass barrier
  exact congrArg Pass.finish (leader_stages C env hengine hm _ rfl rfl)

theorem elected_outputs (C : Crates) {c : Cluster Unit} (hengine : c.engine = leaderEngine 0)
    (hm : c.membershipPending = none) :
    c.outputs C Consensus.silent (easyEnv 0) [.becameLeader] false = ({ c with engine := leaderEngine 1 }, 0) := by
  have hstep : c.engine.step Consensus.silent (.clientPropose (Command.readBarrier (easyEnv 0).ticket).payload)
      = (leaderEngine 1, .ok [.proposed 1]) := by
    rw [hengine]
    exact leader_step (by decide)
  unfold Cluster.outputs pass barrier
  rw [hstep]
  exact congrArg Pass.finish (leader_stages C (easyEnv 0) (c := { c with engine := leaderEngine 1 })
    rfl hm [.becameLeader, .proposed 1] rfl rfl)

theorem elected (C : Crates) : ∃ c, Runs C Consensus.silent (Roomy Consensus.silent)
    (opened (Engine.opened "0000000000000001" threeVoters)) c ∧ AtLeader 1 c := by
  let candidate : Engine Unit := { leaderEngine 0 with raft := { (leaderEngine 0).raft with role := .candidate } }
  have hcandidate : ((opened (Engine.opened "0000000000000001" threeVoters)).handle C Consensus.silent (easyEnv 0)
      (.event .electionTimeout false)).1 = opened candidate := rfl
  have hvote : candidate.step Consensus.silent
      (.message "0000000000000002" (.requestVoteResponse 1 "0000000000000002" true))
        = (leaderEngine 0, .ok [.becameLeader]) := rfl
  have hleader : ((opened candidate).handle C Consensus.silent (easyEnv 0)
      (.event (.message "0000000000000002" (.requestVoteResponse 1 "0000000000000002" true)) false)).1
        = opened (leaderEngine 1) := by
    unfold handle
    simp only [Cluster.event, show (opened candidate).engine = candidate from rfl, hvote]
    rw [elected_outputs C rfl rfl]
    rfl
  -- both logs are empty, so each input has room for a barrier
  have hruns : Runs C Consensus.silent (Roomy Consensus.silent) (opened (Engine.opened "0000000000000001" threeVoters))
      (opened candidate) := .single ⟨_, _, fun _ => Nat.succ_pos 1023, hcandidate.symm⟩
  have hleads : Runs C Consensus.silent (Roomy Consensus.silent) (opened candidate) (opened (leaderEngine 1)) :=
    .single ⟨_, _, fun _ => Nat.succ_pos 1023, hleader.symm⟩
  exact ⟨opened (leaderEngine 1), hruns.trans hleads, rfl, rfl, rfl, rfl, rfl⟩

theorem AtLeader.read (C : Crates) (h : n < maxEntries) {c : Cluster Unit} (hc : AtLeader n c) :
    ∃ c', Runs C Consensus.silent (Roomy Consensus.silent) c c' ∧ AtLeader (n + 1) c' := by
  have hguard : ¬ (c.retain.error.isSome = true ∨ c.retain.engine.role ≠ .leader ∨ c.retain.engine.currentTerm ≠ 1
      ∨ maxRequests ≤ (∅ : Table String Pending).size) := by
    rw [show c.retain.error = none from hc.error, show c.retain.engine = leaderEngine n from hc.engine]
    simp [Engine.role, Engine.currentTerm, leaderEngine, maxRequests]
  let waiting : Cluster Unit :=
    { c with engine := leaderEngine (n + 1), pending := insert ∅ (nonce n) ⟨"read", true⟩ }
  let done : Cluster Unit := { waiting with pending := waiting.pending.insert (nonce n) ⟨"read", false⟩ }
  have hpropose : (c.handle C Consensus.silent (easyEnv n) (.propose (.readBarrier (nonce n)) 1 "read")).1 = waiting := by
    have hstep : c.retain.engine.step Consensus.silent (.clientPropose (Command.readBarrier (nonce n)).payload)
        = (leaderEngine (n + 1), .ok [.proposed (n + 1)]) := by
      rw [show c.retain.engine = leaderEngine n from hc.engine]
      exact leader_step h
    have hout := leader_outputs C (easyEnv n) (n + 1) (n := n + 1) (c := waiting) rfl hc.membership
    unfold handle
    rw [if_neg (by rw [hc.running]; decide)]
    unfold proposal
    simp only [hstep, hc.pending, if_neg hguard]
    exact congrArg Prod.fst hout
  have hgone : (waiting.handle C Consensus.silent (easyEnv n) (.gone (nonce n))).1 = done := by
    have hget : waiting.pending.get (nonce n) = some ⟨"read", true⟩ := get_insert_self _ _ _
    unfold handle
    rw [if_neg (by rw [show waiting.running = true from hc.running]; decide)]
    simp only [hget]
    rfl
  have hroom : c.Roomy Consensus.silent (easyEnv n) (.propose (.readBarrier (nonce n)) 1 "read") := fun _ => by
    refine ⟨barrier_size (hexString_hexPad 28 n), ?_⟩
    rw [hc.log_length]
    exact h
  refine ⟨done, .tail (.single ⟨_, _, hroom, hpropose.symm⟩) ⟨_, _, fun _ => trivial, hgone.symm⟩, ?_⟩
  refine ⟨rfl, hc.error, hc.running, hc.membership, ?_⟩
  refine eq_empty_iff.2 (fun k => ?_)
  show (done.pending.filter _).get k = none
  rw [get_filter, get_insert]
  split
  · rfl
  · rename_i hk
    rw [get_insert_ne hk]
    rfl

theorem leader_reads (C : Crates) : ∀ n ≤ 1023, ∃ c, Runs C Consensus.silent (Roomy Consensus.silent)
    (opened (Engine.opened "0000000000000001" threeVoters)) c ∧ AtLeader (n + 1) c
  | 0, _ => elected C
  | n + 1, h => by
    obtain ⟨c, hr, hc⟩ := leader_reads C n (by omega)
    obtain ⟨c', hr', hc'⟩ := hc.read C (by unfold maxEntries; omega)
    exact ⟨c', hr.trans hr', hc'⟩

theorem AtLeader.not_roomy {c : Cluster Unit} (hc : AtLeader maxEntries c) :
    ¬ c.Roomy Consensus.silent (easyEnv 1024) (.propose (.readBarrier (nonce 1024)) 1 "read") := by
  have hprop : c.proposable (easyEnv 1024) (.readBarrier (nonce 1024)) 1 = true := by
    refine proposable_iff.2 ⟨hc.error, hc.role, by rw [hc.engine]; rfl, ?_, rfl⟩
    rw [hc.pending]
    decide
  intro hroom
  have hlen := (hroom (by rw [submission, hc.running]; simp [hprop])).2
  rw [hc.log_length] at hlen
  exact absurd hlen (Nat.lt_irrefl _)

/-- **One read too many stops a leader without a majority**, though no write has failed. -/
theorem full_log_stops : ∃ c, Runs (sampleCrates []) Consensus.silent (fun _ _ _ => True)
    (opened (Engine.opened "0000000000000001" threeVoters)) c ∧ c.engine.role = .leader ∧
    c.Refuses Consensus.silent (easyEnv 1024) (.propose (.readBarrier (nonce 1024)) 1 "read") ∧
    ¬ c.Survives (sampleCrates []) Consensus.silent (easyEnv 1024) (.propose (.readBarrier (nonce 1024)) 1 "read") := by
  obtain ⟨c, hr, hc⟩ := leader_reads (sampleCrates []) 1023 (by decide)
  refine ⟨c, hr.anyway, hc.role, Classical.not_imp.1 (fun hmeets => ?_)⟩
  exact hc.not_roomy ((survives_iff_roomy Consensus.silent_elections c _ _).1 hmeets)

/-- The leader whose log is full: it got there with room for every input, and the next read stops it. -/
theorem refusal_survives_iff_roomy_full : ∃ c, Runs (sampleCrates []) Consensus.silent (Roomy Consensus.silent)
    (opened (Engine.opened "0000000000000001" threeVoters)) c ∧ c.engine.role = .leader ∧
    c.engine.log.length = 1024 ∧ (∀ e, c.error = some (.refused e) → c.engine.stopped = true) ∧
    c.Refuses Consensus.silent (easyEnv 1024) (.propose (.readBarrier (nonce 1024)) 1 "read") ∧
    ¬ c.Roomy Consensus.silent (easyEnv 1024) (.propose (.readBarrier (nonce 1024)) 1 "read") ∧
    ¬ c.Survives (sampleCrates []) Consensus.silent (easyEnv 1024) (.propose (.readBarrier (nonce 1024)) 1 "read") ∧
    ∀ env input, (c.Refuses Consensus.silent env input → c.Survives (sampleCrates []) Consensus.silent env input) ↔
      c.Roomy Consensus.silent env input := by
  obtain ⟨c, hr, hc⟩ := leader_reads (sampleCrates []) 1023 (by decide)
  have h := refusal_survives_iff_roomy (sampleCrates []) Consensus.silent Consensus.silent_elections _ c rfl hr
  have hstops := Classical.not_imp.1 (fun hmeets => hc.not_roomy ((h.2 _ _).1 hmeets))
  exact ⟨c, hr, hc.role, hc.log_length, h.1, hstops.1, hc.not_roomy, hstops.2, h.2⟩

end Cluster
end Mistl.Escrow
