import Mistl.EscrowNode
/-!
# EscrowMigration — the import of a frozen source

`Cluster::import_legacy` as the leaders run it, one after the other or at once, against the log they share with the
clients.  A run looks at an applied prefix of the committed log and proposes one command at a time; a proposal may be
committed at any later time.
-/
open List Mistl.Table Option

namespace Mistl.Escrow

/-! ## One run -/

/-- `migration_batch`: the heads from an offset, four at most, and whether they are the last. -/
def migrationBatch (source : List Head) (offset : Nat) : Option (List Head × Bool) :=
  if source.length < offset then none
  else
    let end_ := min (offset + 4) source.length
    some ((source.take end_).drop offset, end_ == source.length)

def accepted (reply : Json) : Bool := replyType reply == some "escrow_bootstrapped"

/-- Where a run of `import_legacy` stands; `next` is the offset after the batch it has. -/
inductive Import where
  | start
  | beginning (ticket : String)
  | asking (offset : Nat)
  | importing (next : Nat) (last : Bool) (rest : List Head)
  | bootstrapping (next : Nat) (last : Bool) (rest : List Head) (head : Head) (ticket : String)
  | completing (ticket : String)
  | done
  | failed
  deriving DecidableEq

namespace Import

/-- What a run that does not wait does next, at the state its node has, and what it proposes. -/
def look (maxSlots : Nat) (source : List Head) (s : State) (ticket : String) : Import → Import × Option Command
  | .start => if s.migrating then (.asking 0, none) else (.beginning ticket, some (.bootstrapBegin ticket))
  | .asking offset =>
    match migrationBatch source offset with
    | none => (.failed, none)
    | some (heads, last) =>
      if last = false ∧ heads = [] then (.failed, none)
      else if maxSlots < offset + heads.length then (.failed, none)
      else (.importing (offset + heads.length) last heads, none)
  | .importing next last (head :: rest) =>
    match s.heads.get head.slot with
    | some old => if old = head then (.importing next last rest, none) else (.failed, none)
    | none => (.bootstrapping next last rest head ticket, some (.bootstrap ticket [head]))
  | .importing next last [] =>
    if 2 ^ 32 ≤ next then (.failed, none)
    else if last then (.completing ticket, some (.bootstrapComplete ticket))
    else (.asking next, none)
  | run => (run, none)

def awaits : Import → Option Command
  | .beginning ticket => some (.bootstrapBegin ticket)
  | .bootstrapping _ _ _ head ticket => some (.bootstrap ticket [head])
  | .completing ticket => some (.bootstrapComplete ticket)
  | _ => none

def answer (reply : Json) : Import → Import
  | .beginning _ => if accepted reply then .asking 0 else .failed
  | .bootstrapping next last rest _ _ => if accepted reply then .importing next last rest else .failed
  | .completing _ => if accepted reply then .done else .failed
  | run => run

end Import

/-! ## The runs and the log -/

variable (C : Crates) (maxSlots : Nat)

/-- The state after the first `k` commands of a log. -/
def stateAt (log : Log) (k : Nat) : State := State.default.run C maxSlots (log.take k)

/-- The reply to a command that follows the first `k` of a log. -/
def replyAt (log : Log) (k : Nat) (c : Command × String) : Json := ((stateAt C maxSlots log k).apply C c.1 c.2 maxSlots).2

/-- The committed log, what the runs have proposed, and the runs, each with the source in the order it is served. -/
structure Migration where
  log : Log
  proposed : List Command
  runs : List (List Head × Import)

namespace Migration

def initial : Migration := ⟨[], [], []⟩

variable (quota : Nat) (source : List Head)

/-- One step of the cluster: a command is committed, or a run starts, goes on, hears of its proposal or gives up. -/
inductive Step (m : Migration) : Migration → Prop
  | client (command : Command) (id : String) : command.isClient = true → Step m { m with log := m.log ++ [(command, id)] }
  | commit (command : Command) (id : String) : command ∈ m.proposed → Step m { m with log := m.log ++ [(command, id)] }
  | start (order : List Head) : order.Perm source → Step m { m with runs := m.runs ++ [(order, .start)] }
  | look (before after : List (List Head × Import)) (order : List Head) (run : Import) (k : Nat) (ticket : String) :
      m.runs = before ++ (order, run) :: after → k ≤ m.log.length →
      Step m { m with
        proposed := m.proposed ++ (run.look quota order (stateAt C maxSlots m.log k) ticket).2.toList
        runs := before ++ (order, (run.look quota order (stateAt C maxSlots m.log k) ticket).1) :: after }
  | answer (before after : List (List Head × Import)) (order : List Head) (run : Import) (k : Nat) (command : Command)
      (id : String) : m.runs = before ++ (order, run) :: after → run.awaits = some command →
      m.log[k]? = some (command, id) →
      Step m { m with runs := before ++ (order, run.answer (replyAt C maxSlots m.log k (command, id))) :: after }
  | giveUp (before after : List (List Head × Import)) (order : List Head) (run : Import) :
      m.runs = before ++ (order, run) :: after → Step m { m with runs := before ++ (order, .failed) :: after }

def Reachable : Migration → Prop := Relation.ReflTransGen (Step C maxSlots quota source) initial

end Migration

variable {C maxSlots}

/-! ## Commands of a migration -/

section Commands

variable {s : State} {c : Command} {id : String}

theorem apply_of_ok {t : State} {reply : Json} (h : s.attempt C c id maxSlots = (t, .ok reply)) :
    s.apply C c id maxSlots = (t, reply) := by
  unfold State.apply
  rw [h]

theorem apply_of_error {t : State} {e : Error} (h : s.attempt C c id maxSlots = (t, .error e)) :
    s.apply C c id maxSlots = (t, e.reply id) := by
  unfold State.apply
  rw [h]

@[simp] theorem accepted_error (e : Error) (id : String) : accepted (e.reply id) = false := by
  rfl

@[simp] theorem accepted_bootstrapped (id : String) : accepted (bootstrapped id) = true := rfl

variable (C maxSlots id) in
theorem apply_client_migrating (hm : s.migrating = true) (hc : c.isClient = true) :
    (s.apply C c id maxSlots).1 = s ∧ replyType (s.apply C c id maxSlots).2 = some "escrow_error" := by
  cases hv : validate C c gib with
  | error e =>
    rw [apply_of_error (by rw [State.attempt, hv])]
    exact ⟨rfl, rfl⟩
  | ok _ =>
    rw [apply_of_error (t := s) (e := .new .migrating) (by rw [State.attempt, hv, hm, hc]; rfl)]
    exact ⟨rfl, rfl⟩

variable (C maxSlots s c id) in
theorem apply_migration (hc : c.isClient = false) : (∃ e : Error, s.apply C c id maxSlots = (s, e.reply id)) ∨
      s.attempt C c id maxSlots = s.execute C c id maxSlots ∧ validate C c gib = .ok () := by
  cases hv : validate C c gib with
  | error e => exact .inl ⟨e, apply_of_error (by rw [State.attempt, hv])⟩
  | ok _ => exact .inr ⟨by rw [State.attempt, hv, hc, Bool.and_false]; rfl, rfl⟩

variable (C maxSlots s id) in
theorem apply_begin (ticket : String) : (∃ e : Error, s.apply C (.bootstrapBegin ticket) id maxSlots = (s, e.reply id)) ∨
      s.migrationFinished = false ∧ (s.migrationStarted = true ∨ s.isEmpty = true) ∧
        s.apply C (.bootstrapBegin ticket) id maxSlots = ({ s with migrationStarted := true }, bootstrapped id) := by
  rcases apply_migration C maxSlots s (.bootstrapBegin ticket) id rfl
    with he | ⟨hx, -⟩
  · exact .inl he
  · by_cases h : s.migrationFinished = true ∨ (s.migrationStarted = false ∧ s.isEmpty = false)
    · exact .inl ⟨.new .conflict, apply_of_error (by rw [hx, State.execute, if_pos h])⟩
    · have ha : s.apply C (.bootstrapBegin ticket) id maxSlots = ({ s with migrationStarted := true }, bootstrapped id) :=
        apply_of_ok (hx.trans (by rw [State.execute, if_neg h]))
      refine .inr ⟨?_, ?_, ha⟩
      · exact Bool.eq_false_iff.2 (fun hf => h (.inl hf))
      · cases hs : s.migrationStarted with
        | true => exact .inl rfl
        | false => exact .inr (Bool.not_eq_false _ ▸ fun he => h (.inr ⟨hs, he⟩))

variable (C maxSlots s id) in
theorem apply_complete (ticket : String) : (∃ e : Error, s.apply C (.bootstrapComplete ticket) id maxSlots = (s, e.reply id)) ∨
      s.migrationStarted = true ∧
        s.apply C (.bootstrapComplete ticket) id maxSlots = ({ s with migrationFinished := true }, bootstrapped id) := by
  rcases apply_migration C maxSlots s (.bootstrapComplete ticket) id rfl
    with he | ⟨hx, -⟩
  · exact .inl he
  · by_cases h : s.migrationStarted = false
    · exact .inl ⟨.new .conflict, apply_of_error (by rw [hx, State.execute, if_pos h])⟩
    · exact .inr ⟨by simpa using h, apply_of_ok (hx.trans (by rw [State.execute, if_neg h]))⟩

variable (C maxSlots s id) in
theorem apply_bootstrap (ticket : String) (heads : List Head) :
    (∃ e : Error, s.apply C (.bootstrap ticket heads) id maxSlots = (s, e.reply id)) ∨
      s.migrating = true ∧ (∀ h ∈ heads, ∀ old, s.heads.get h.slot = some old → old = h) ∧
        s.apply C (.bootstrap ticket heads) id maxSlots =
          ({ s with metadataBytes := s.metadataBytes + ((s.missing heads).map headBytes).sum,
                    heads := insertAll Head.slot heads s.heads }, bootstrapped id) := by
  rcases apply_migration C maxSlots s (.bootstrap ticket heads) id rfl
    with he | ⟨hx, -⟩
  · exact .inl he
  · rw [State.execute, State.bootstrap] at hx
    by_cases h1 : s.migrationStarted = false ∨ s.migrationFinished = true
    · rw [if_pos h1] at hx
      exact .inl ⟨_, apply_of_error hx⟩
    rw [if_neg h1] at hx
    by_cases h2 : (heads.any (fun h => (s.heads.get h.slot).any (fun existing => existing != h))) = true
    · rw [if_pos h2] at hx
      exact .inl ⟨_, apply_of_error hx⟩
    rw [if_neg h2] at hx
    by_cases h3 : maxSlots < satAdd s.heads.size (s.missing heads).length
    · rw [if_pos h3] at hx
      exact .inl ⟨_, apply_of_error hx⟩
    rw [if_neg h3] at hx
    dsimp only at hx
    split at hx
    · exact .inl ⟨_, apply_of_error hx⟩
    · refine .inr ⟨?_, fun h hh old hold => ?_, apply_of_ok hx⟩
      · rw [not_or] at h1
        simp [State.migrating, h1]
      · by_contra hne
        exact h2 (List.any_eq_true.2 ⟨h, hh, by simp [hold, hne]⟩)

end Commands

/-! ## States along a log -/

section States

variable {s t : State} {slot : String} {x : Head}

theorem State.isEmpty_of_current (hx : s.current slot = some x) : s.isEmpty = false := by
  rw [State.isEmpty, Bool.and_eq_false_iff, beq_eq_false_iff_ne, beq_eq_false_iff_ne]
  unfold State.current at hx
  cases hh : s.heads.get slot with
  | some h => exact .inl (size_ne_zero hh)
  | none =>
    rw [hh] at hx
    exact .inr (size_ne_zero hx)

theorem Step.unstarted (h : Step C maxSlots s t) (hs : s.migrationStarted = false) (hx : s.isEmpty = false) :
    t.migrationStarted = false := by
  cases h with
  | begin hf hor =>
    rw [hs, hx] at hor
    rcases hor with hor | hor <;> cases hor
  | _ => exact hs

theorem unstarted_run : ∀ (log : Log) {s : State} {x : Head}, s.Linear C → s.migrationStarted = false →
    s.current slot = some x → (s.run C maxSlots log).migrationStarted = false
  | [], _, _, _, hs, _ => hs
  | c :: log, s, x, hl, hs, hx => by
    have hstep := apply_step C maxSlots s c.1 c.2
    obtain ⟨y, hy, -⟩ := hstep.current hl hx
    exact unstarted_run log (hstep.linear hl) (hstep.unstarted hs (State.isEmpty_of_current hx)) hy

theorem Step.finished (h : Step C maxSlots s t) (hs : s.migrationFinished = true) : t.migrationFinished = true := by
  cases h with
  | complete _ => rfl
  | _ => exact hs

theorem finished_run : ∀ (log : Log) {s : State}, s.migrationFinished = true → (s.run C maxSlots log).migrationFinished = true
  | [], _, hs => hs
  | c :: log, s, hs => finished_run log ((apply_step C maxSlots s c.1 c.2).finished hs)

theorem Step.kept (h : Step C maxSlots s t) (hm : s.migrating = true) (hx : s.heads.get slot = some x) : t.heads.get slot = some x := by
  cases h with
  | bootstrap heads hv hnd _ hsame =>
    exact get_insertAll_of_agrees Head.slot heads s.heads (fun h hh hk => (hsame h hh x (hk ▸ hx)).symm) hx
  | stay | begin _ _ | complete _ => exact hx
  | recreate _ _ _ hm' | create _ _ hm' | extend _ _ _ hm' | remove _ _ hm' => rw [hm] at hm'; cases hm'

theorem State.migrating_iff : s.migrating = true ↔ s.migrationStarted = true ∧ s.migrationFinished = false := by
  rw [State.migrating, Bool.and_eq_true, Bool.not_eq_true']

/-- **A head that was there before a migration's end is there at its end**: one from before its start keeps it from
starting. -/
theorem kept_run : ∀ (log : Log) {s : State}, s.Linear C → (s.run C maxSlots log).migrating = true →
    s.heads.get slot = some x → (s.run C maxSlots log).heads.get slot = some x
  | [], _, _, _, hx => hx
  | c :: log, s, hl, hm, hx => by
    have hstep := apply_step C maxSlots s c.1 c.2
    have hs : s.migrating = true := by
      obtain ⟨hstarted, hfinished⟩ := State.migrating_iff.1 hm
      refine State.migrating_iff.2 ⟨?_, ?_⟩
      · by_contra hn
        have hcurrent : s.current slot = some x := by rw [State.current, hx]; rfl
        rw [unstarted_run (c :: log) hl (Bool.eq_false_iff.2 hn) hcurrent] at hstarted
        cases hstarted
      · by_contra hn
        rw [finished_run (c :: log) (Bool.not_eq_false _ ▸ hn)] at hfinished
        cases hfinished
    exact kept_run log (hstep.linear hl) hm (hstep.kept hs hx)

theorem Step.began (h : Step C maxSlots s t) (hs : s.migrating = false) (ht : t.migrating = true) : t.heads = ∅ := by
  cases h with
  | begin hf hor =>
    have hstarted : s.migrationStarted = false := by
      rw [State.migrating, hf] at hs
      simpa using hs
    rcases hor with hor | hor
    · rw [hstarted] at hor
      cases hor
    · rw [State.isEmpty, Bool.and_eq_true, beq_iff_eq] at hor
      exact size_eq_zero.1 hor.1
  | bootstrap _ _ _ hm => rw [hs] at hm; cases hm
  | complete _ =>
    rw [State.migrating_iff] at ht
    cases ht.2
  | _ => cases (show false = true from hs.symm.trans ht)

theorem apply_heads_migrating {c : Command} {id : String} (hm : s.migrating = true)
    (hx : (s.apply C c id maxSlots).1.heads.get slot = some x) :
    s.heads.get slot = some x ∨ ∃ ticket heads, c = .bootstrap ticket heads ∧ x ∈ heads := by
  have client : c.isClient = true → s.heads.get slot = some x := by
    intro hc
    rwa [(apply_client_migrating _ _ _ hm hc).1] at hx
  cases c with
  | readBarrier t | put t head | delete t request => exact .inl (client rfl)
  | bootstrap t heads =>
    rcases apply_bootstrap C maxSlots s id t heads with ⟨e, he⟩ | ⟨-, -, he⟩
    · rw [he] at hx
      exact .inl hx
    · rw [he] at hx
      rcases get_insertAll Head.slot heads s.heads hx with ⟨hmem, -⟩ | hold
      · exact .inr ⟨t, heads, rfl, hmem⟩
      · exact .inl hold
  | bootstrapBegin t =>
    rcases apply_begin C maxSlots s id t with ⟨e, he⟩ | ⟨-, -, he⟩ <;>
      (rw [he] at hx; exact .inl hx)
  | bootstrapComplete t =>
    rcases apply_complete C maxSlots s id t with ⟨e, he⟩ | ⟨-, he⟩ <;>
      (rw [he] at hx; exact .inl hx)

theorem apply_finishes {c : Command} {id : String} (hs : s.migrationFinished = false)
    (ht : (s.apply C c id maxSlots).1.migrationFinished = true) :
    (∃ ticket, c = .bootstrapComplete ticket) ∧ accepted (s.apply C c id maxSlots).2 = true := by
  have hstep := apply_step C maxSlots s c id
  have hm : s.migrating = true := by
    generalize (s.apply C c id maxSlots).1 = t at ht hstep
    cases hstep with
    | complete h => exact State.migrating_iff.2 ⟨h, hs⟩
    | _ => exact absurd (hs.symm.trans ht) nofun
  have client : c.isClient ≠ true := by
    intro hc
    rw [(apply_client_migrating _ _ _ hm hc).1, hs] at ht
    cases ht
  cases c with
  | readBarrier t | put t head | delete t request => exact absurd rfl client
  | bootstrap t heads =>
    rcases apply_bootstrap C maxSlots s id t heads with ⟨e, he⟩ | ⟨-, -, he⟩ <;>
      (rw [he] at ht; exact absurd (hs.symm.trans ht) nofun)
  | bootstrapBegin t =>
    rcases apply_begin C maxSlots s id t with ⟨e, he⟩ | ⟨-, -, he⟩ <;>
      (rw [he] at ht; exact absurd (hs.symm.trans ht) nofun)
  | bootstrapComplete t =>
    refine ⟨⟨t, rfl⟩, ?_⟩
    rcases apply_complete C maxSlots s id t with ⟨e, he⟩ | ⟨-, he⟩
    · rw [he] at ht
      exact absurd (hs.symm.trans ht) nofun
    · rw [he]
      exact accepted_bootstrapped id

theorem apply_after {c : Command} {id : String} (hs : s.migrationFinished = true)
    (hc : c.isClient = false) : (s.apply C c id maxSlots).1 = s := by
  cases c with
  | readBarrier t | put t head | delete t request => cases hc
  | bootstrap t heads =>
    rcases apply_bootstrap C maxSlots s id t heads with ⟨e, he⟩ | ⟨hm, -, -⟩
    · rw [he]
    · rw [State.migrating_iff, hs] at hm
      exact absurd hm.2 nofun
  | bootstrapBegin t =>
    rcases apply_begin C maxSlots s id t with ⟨e, he⟩ | ⟨hf, -, -⟩
    · rw [he]
    · rw [hs] at hf
      cases hf
  | bootstrapComplete t =>
    rcases apply_complete C maxSlots s id t with ⟨e, he⟩ | ⟨-, he⟩
    · rw [he]
    · rw [he]
      rw [← hs]

variable (C maxSlots) in
theorem put_unused {head : Head} (id : String) (hh : s.heads.get head.slot = none) (hd : s.deleted.get head.slot = none)
    (hp : s.previous.get head.slot = none) : (∃ e, s.put C head id maxSlots = (s, .error e)) ∨
      (s.put C head id maxSlots).1.heads.get head.slot = some head := by
  unfold State.put
  rw [hd, hh, hp]
  dsimp only
  rw [if_neg nofun]
  split
  · rename_i e _
    exact .inl ⟨e, rfl⟩
  · rename_i hcas
    unfold checkCas at hcas
    dsimp only at hcas
    split at hcas <;> cases hcas
  · split
    · exact .inl ⟨_, rfl⟩
    · split
      · exact .inl ⟨_, rfl⟩
      · exact .inr (get_insert_self _ _ _)

variable (maxSlots) in
/-- **A client's command at a state without slots** changes nothing, and a put is refused, or the state has a slot. -/
theorem apply_client_unused {c : Command} (id : String) (hl : s.Linear C) (hs : ∀ slot, s.current slot = none)
    (hm : s.migrating = false) (hc : c.isClient = true) :
    ((s.apply C c id maxSlots).1 = s ∧
      ∀ ticket head, c = .put ticket head → replyType (s.apply C c id maxSlots).2 = some "escrow_error") ∨
    ∃ slot x, (s.apply C c id maxSlots).1.current slot = some x := by
  have hnone : ∀ slot, s.heads.get slot = none ∧ s.deleted.get slot = none := fun slot => or_eq_none_iff.1 (hs slot)
  cases hv : validate C c gib with
  | error e =>
    rw [apply_of_error (by rw [State.attempt, hv])]
    exact .inl ⟨rfl, fun _ _ _ => rfl⟩
  | ok _ =>
    have hx : s.attempt C c id maxSlots = s.execute C c id maxSlots := by
      rw [State.attempt, hv, hm]
      rfl
    cases c with
    | readBarrier t =>
      rw [apply_of_ok hx]
      exact .inl ⟨rfl, fun _ _ h => by cases h⟩
    | put t head =>
      obtain ⟨hh, hd⟩ := hnone head.slot
      rcases put_unused C maxSlots id hh hd (hl.previous_none hh) with ⟨e, he⟩ | he
      · rw [apply_of_error (hx.trans he)]
        exact .inl ⟨rfl, fun _ _ _ => rfl⟩
      · refine .inr ⟨head.slot, head, ?_⟩
        have hfst : (s.apply C (.put t head) id maxSlots).1 = (s.put C head id maxSlots).1 := by
          unfold State.apply
          rw [hx, State.execute]
          split <;> (rename_i h; rw [h])
        rw [State.current, hfst, he]
        rfl
    | delete t request =>
      obtain ⟨hh, hd⟩ := hnone request.slot
      rw [apply_of_ok (hx.trans (by rw [State.execute, State.delete, hh, hd]; rfl))]
      exact .inl ⟨rfl, fun _ _ h => by cases h⟩
    | bootstrap _ _ => cases hc
    | bootstrapBegin _ => cases hc
    | bootstrapComplete _ => cases hc

end States

/-! ## Positions of a log -/

variable {k : Nat}

section Positions

variable {log : Log} {c : Command × String}

theorem stateAt_linear (log : Log) (k : Nat) : (stateAt C maxSlots log k).Linear C := run_linear maxSlots _ (.default C)

theorem stateAt_succ (h : log[k]? = some c) :
    stateAt C maxSlots log (k + 1) = ((stateAt C maxSlots log k).apply C c.1 c.2 maxSlots).1 := by
  unfold stateAt
  rw [take_add_one, h, State.run_append]
  rfl

theorem stateAt_append (h : k ≤ log.length) (more : Log) : stateAt C maxSlots (log ++ more) k = stateAt C maxSlots log k := by
  unfold stateAt
  rw [take_append_of_le_length h]

variable (C maxSlots log) in
theorem stateAt_run {j k : Nat} (h : j ≤ k) :
    stateAt C maxSlots log k = (stateAt C maxSlots log j).run C maxSlots ((log.drop j).take (k - j)) := by
  unfold stateAt
  rw [← State.run_append, ← take_add, Nat.add_sub_cancel' h]

variable (C maxSlots) in
/-- A head that was live after some of the first `n` commands. -/
def Seen (log : Log) (n : Nat) (h : Head) : Prop := ∃ k ≤ n, (stateAt C maxSlots log k).heads.get h.slot = some h

theorem Seen.append {n : Nat} {h : Head} (hs : Seen C maxSlots log n h) (hn : n ≤ log.length) (more : Log) {n' : Nat}
    (hle : n ≤ n') : Seen C maxSlots (log ++ more) n' h := by
  obtain ⟨k, hk, hget⟩ := hs
  exact ⟨k, by omega, by rwa [stateAt_append (by omega)]⟩

/-- **A committed log of an import**: its bootstraps are of the source, and a completion stands after every head of it. -/
structure Imports (C : Crates) (maxSlots : Nat) (source : List Head) (log : Log) : Prop where
  own : ∀ (k : Nat) (ticket : String) (heads : List Head) (id : String), log[k]? = some (Command.bootstrap ticket heads, id) → ∀ h ∈ heads, h ∈ source
  whole : ∀ (k : Nat) (ticket id : String), log[k]? = some (Command.bootstrapComplete ticket, id) → ∀ h ∈ source, Seen C maxSlots log k h

variable {source : List Head}

theorem Imports.heads_mem (hi : Imports C maxSlots source log) : ∀ (k : Nat) {slot : String} {x : Head},
    (stateAt C maxSlots log k).migrating = true → (stateAt C maxSlots log k).heads.get slot = some x → x ∈ source
  | 0, _, _, hm, _ => absurd hm nofun
  | k + 1, slot, x, hm, hx => by
    cases hc : log[k]? with
    | none =>
      have hlen := List.getElem?_eq_none_iff.1 hc
      rw [stateAt, take_of_length_le (by omega)] at hm hx
      exact hi.heads_mem k (by rwa [stateAt, take_of_length_le hlen])
        (by rwa [stateAt, take_of_length_le hlen])
    | some c =>
      rw [stateAt_succ hc] at hm hx
      cases hs : (stateAt C maxSlots log k).migrating with
      | true =>
        rcases apply_heads_migrating hs hx with hold | ⟨t, heads, hboot, hmem⟩
        · exact hi.heads_mem k hs hold
        · obtain ⟨command, id⟩ := c
          subst hboot
          exact hi.own k t heads id hc x hmem
      | false =>
        rw [(apply_step C maxSlots _ c.1 c.2).began hs hm] at hx
        cases hx

def Completes (C : Crates) (maxSlots : Nat) (log : Log) (k : Nat) : Prop :=
  ∃ ticket id, log[k]? = some (Command.bootstrapComplete ticket, id) ∧
    accepted (replyAt C maxSlots log k (.bootstrapComplete ticket, id)) = true

theorem unfinished_at : ∀ {n : Nat}, (∀ k < n, ¬ Completes C maxSlots log k) → (stateAt C maxSlots log n).migrationFinished = false
  | 0, _ => rfl
  | n + 1, hfirst => by
    have ih := unfinished_at (n := n) (fun k hk => hfirst k (by omega))
    cases hc : log[n]? with
    | none =>
      have hlen := List.getElem?_eq_none_iff.1 hc
      rw [stateAt, take_of_length_le hlen] at ih
      rwa [stateAt, take_of_length_le (by omega)]
    | some c =>
      rw [stateAt_succ hc]
      by_contra hf
      obtain ⟨⟨t, ht⟩, haccepted⟩ := apply_finishes ih (Bool.not_eq_false _ ▸ hf)
      obtain ⟨command, id⟩ := c
      subst ht
      exact hfirst n (Nat.lt_succ_self n) ⟨t, id, hc, haccepted⟩

theorem Completes.spec {n : Nat} (h : Completes C maxSlots log n) (hf : (stateAt C maxSlots log n).migrationFinished = false) :
    (stateAt C maxSlots log n).migrating = true ∧
      stateAt C maxSlots log (n + 1) = { stateAt C maxSlots log n with migrationFinished := true } := by
  obtain ⟨t, id, hc, haccepted⟩ := h
  unfold replyAt at haccepted
  rw [stateAt_succ hc]
  rcases apply_complete C maxSlots (stateAt C maxSlots log n) id t
    with ⟨e, he⟩ | ⟨hs, he⟩
  · rw [he] at haccepted
    cases haccepted
  · exact ⟨State.migrating_iff.2 ⟨hs, hf⟩, by rw [he]⟩

theorem unfinished_before {k n : Nat} (hk : k ≤ n) (hm : (stateAt C maxSlots log n).migrating = true) :
    (stateAt C maxSlots log k).migrationFinished = false := by
  by_contra hf
  rw [stateAt_run _ _ _ hk, State.migrating_iff, finished_run _ (Bool.not_eq_false _ ▸ hf)] at hm
  exact absurd hm.2 nofun

theorem current_none {k n : Nat} (hk : k ≤ n) (hm : (stateAt C maxSlots log n).migrating = true)
    (hs : (stateAt C maxSlots log k).migrationStarted = false) (slot : String) :
    (stateAt C maxSlots log k).current slot = none := by
  cases hx : (stateAt C maxSlots log k).current slot with
  | none => rfl
  | some x =>
    rw [stateAt_run _ _ _ hk, State.migrating_iff, unstarted_run _ (stateAt_linear log k) hs hx] at hm
    exact absurd hm.1 nofun

theorem client_before {k n : Nat} (hk : k < n) (hm : (stateAt C maxSlots log n).migrating = true)
    (hc : log[k]? = some c) (hclient : c.1.isClient = true) :
    stateAt C maxSlots log (k + 1) = stateAt C maxSlots log k ∧
      ∀ ticket head, c.1 = .put ticket head → replyType (replyAt C maxSlots log k c) = some "escrow_error" := by
  rw [stateAt_succ hc]
  cases hs : (stateAt C maxSlots log k).migrationStarted with
  | true =>
    obtain ⟨heq, herror⟩ := apply_client_migrating C maxSlots c.2
      (State.migrating_iff.2 ⟨hs, unfinished_before (by omega) hm⟩) hclient
    exact ⟨heq, fun _ _ _ => herror⟩
  | false =>
    have hmigrating : (stateAt C maxSlots log k).migrating = false := by rw [State.migrating, hs, Bool.false_and]
    rcases apply_client_unused maxSlots c.2 (stateAt_linear log k)
      (current_none (by omega) hm hs) hmigrating hclient with h | ⟨slot, x, hx⟩
    · exact h
    · -- a slot made now would keep the migration from beginning
      rw [← stateAt_succ hc] at hx
      cases hs' : (stateAt C maxSlots log (k + 1)).migrationStarted with
      | false =>
        rw [current_none (by omega) hm hs' slot] at hx
        cases hx
      | true =>
        have hstep := apply_step C maxSlots (stateAt C maxSlots log k) c.1 c.2
        rw [← stateAt_succ hc] at hstep
        have hm' := State.migrating_iff.2 ⟨hs', unfinished_before (by omega : k + 1 ≤ n) hm⟩
        have hempty := hstep.began hmigrating hm'
        have hl : (stateAt C maxSlots log (k + 1)).Linear C := stateAt_linear log (k + 1)
        rw [State.current, hempty, (hl.fresh hm').1] at hx
        cases hx

end Positions

/-! ## What the runs keep -/

namespace Migration

variable {quota : Nat} {source : List Head} {m m' : Migration}

/-- What a run has behind it: every head of its source up to its offset was live, but for those it still has to do. -/
def Ahead (C : Crates) (maxSlots : Nat) (log : Log) (order : List Head) : Import → Prop
  | .asking offset => ∀ h ∈ order.take offset, Seen C maxSlots log log.length h
  | .importing next last rest => (∀ h ∈ order.take next, h ∈ rest ∨ Seen C maxSlots log log.length h) ∧
      (∀ h ∈ rest, h ∈ order) ∧ (last = true → order.length ≤ next)
  | .bootstrapping next last rest head _ =>
      (∀ h ∈ order.take next, h ∈ head :: rest ∨ Seen C maxSlots log log.length h) ∧
      (∀ h ∈ head :: rest, h ∈ order) ∧ (last = true → order.length ≤ next)
  | _ => True

structure Fair (C : Crates) (maxSlots : Nat) (source : List Head) (log : Log) (c : Command) : Prop where
  own : ∀ ticket heads, c = .bootstrap ticket heads → ∀ h ∈ heads, h ∈ source
  whole : ∀ ticket, c = .bootstrapComplete ticket → ∀ h ∈ source, Seen C maxSlots log log.length h

/-- **The invariant of a migration.** -/
structure Sound (C : Crates) (maxSlots : Nat) (source : List Head) (m : Migration) : Prop where
  imports : Imports C maxSlots source m.log
  proposed : ∀ c ∈ m.proposed, Fair C maxSlots source m.log c
  runs : ∀ r ∈ m.runs, r.1.Perm source ∧ Ahead C maxSlots m.log r.1 r.2

variable {order : List Head} {run : Import}

theorem Ahead.append {log : Log} (h : Ahead C maxSlots log order run) (more : Log) : Ahead C maxSlots (log ++ more) order run := by
  have seen : ∀ h, Seen C maxSlots log log.length h → Seen C maxSlots (log ++ more) (log ++ more).length h :=
    fun h hs => hs.append le_rfl more (by rw [length_append]; omega)
  cases run with
  | asking offset => exact fun x hx => seen x (h x hx)
  | importing next last rest | bootstrapping next last rest head ticket => exact ⟨fun x hx => (h.1 x hx).imp_right (seen x), h.2⟩
  | _ => trivial

theorem Fair.append {log : Log} {c : Command} (h : Fair C maxSlots source log c) (more : Log) :
    Fair C maxSlots source (log ++ more) c :=
  ⟨h.own, fun t ht x hx => (h.whole t ht x hx).append le_rfl more (by rw [length_append]; omega)⟩

theorem imports_append {log : Log} {c : Command} (hi : Imports C maxSlots source log) (hc : Fair C maxSlots source log c)
    (id : String) : Imports C maxSlots source (log ++ [(c, id)]) := by
  have entry : ∀ {k : Nat} {e : Command × String}, (log ++ [(c, id)])[k]? = some e →
      log[k]? = some e ∨ k = log.length ∧ e = (c, id) := by
    intro k e he
    by_cases hk : k < log.length
    · rw [getElem?_append_left hk] at he
      exact .inl he
    · rw [getElem?_append_right (by omega)] at he
      obtain ⟨hlt, he⟩ := List.getElem?_eq_some_iff.1 he
      rw [length_singleton] at hlt
      refine .inr ⟨by omega, ?_⟩
      rw [← he]
      simp
  refine ⟨fun k t heads i hk => ?_, fun k t i hk => ?_⟩
  · rcases entry hk with hk | ⟨-, hk⟩
    · exact hi.own k t heads i hk
    · exact hc.own t heads (congrArg Prod.fst hk).symm
  · rcases entry hk with hk' | ⟨rfl, hk'⟩
    · intro x hx
      have hlt := (List.getElem?_eq_some_iff.1 hk').1
      obtain ⟨j, hj, hget⟩ := hi.whole k t i hk' x hx
      exact ⟨j, hj, by rwa [stateAt_append (by omega)]⟩
    · exact fun x hx => (hc.whole t (congrArg Prod.fst hk').symm x hx).append le_rfl _ le_rfl

theorem Sound.append (hs : m.Sound C maxSlots source) {c : Command} (hc : Fair C maxSlots source m.log c) (id : String) :
    Sound C maxSlots source { m with log := m.log ++ [(c, id)] } where
  imports := imports_append hs.imports hc id
  proposed := fun x hx => (hs.proposed x hx).append _
  runs := fun r hr => ⟨(hs.runs r hr).1, (hs.runs r hr).2.append _⟩

theorem Sound.replace (hs : m.Sound C maxSlots source) {before after : List (List Head × Import)}
    (hm : m.runs = before ++ (order, run) :: after) (run' : Import) (proposed : List Command)
    (hp : ∀ c ∈ proposed, Fair C maxSlots source m.log c) (hr : Ahead C maxSlots m.log order run') :
    Sound C maxSlots source { m with proposed := m.proposed ++ proposed, runs := before ++ (order, run') :: after } where
  imports := hs.imports
  proposed := fun c hc => (mem_append.1 hc).elim (hs.proposed c) (hp c)
  runs := fun r hr' => by
    have hold : ∀ r ∈ before ++ (order, run) :: after, r.1.Perm source ∧ Ahead C maxSlots m.log r.1 r.2 := by
      rw [← hm]
      exact hs.runs
    rcases mem_append.1 hr' with hb | ha
    · exact hold r (mem_append_left _ hb)
    · rcases mem_cons.1 ha with rfl | ha
      · exact ⟨(hold (order, run) (mem_append_right _ mem_cons_self)).1, hr⟩
      · exact hold r (mem_append_right _ (mem_cons_of_mem _ ha))

theorem migrationBatch_eq_some {order heads : List Head} {offset : Nat} {last : Bool}
    (h : migrationBatch order offset = some (heads, last)) :
    order.take (offset + heads.length) = order.take offset ++ heads ∧ (∀ x ∈ heads, x ∈ order) ∧
      (last = true → order.length ≤ offset + heads.length) := by
  unfold migrationBatch at h
  split at h
  · cases h
  · cases h
    have hlen : ((order.take (min (offset + 4) order.length)).drop offset).length
        = min (offset + 4) order.length - offset := by
      rw [length_drop, length_take]
      omega
    have hsum : offset + (min (offset + 4) order.length - offset) = min (offset + 4) order.length := by omega
    rw [hlen, hsum]
    refine ⟨?_, fun x hx => mem_of_mem_take (mem_of_mem_drop hx), fun he => ?_⟩
    · have htake : order.take offset = (order.take (min (offset + 4) order.length)).take offset := by
        rw [take_take]
        congr 1
        omega
      rw [htake, take_append_drop]
    · rw [beq_iff_eq] at he
      omega

variable (quota) in
theorem look_ahead {log : Log} (hperm : order.Perm source)
    (h : Ahead C maxSlots log order run) (hk : k ≤ log.length) (ticket : String) :
    Ahead C maxSlots log order (run.look quota order (stateAt C maxSlots log k) ticket).1 ∧
      ∀ c, (run.look quota order (stateAt C maxSlots log k) ticket).2 = some c → Fair C maxSlots source log c := by
  cases run with
  | start =>
    rw [Import.look]
    split
    · exact ⟨fun x hx => by simp at hx, nofun⟩
    · refine ⟨trivial, fun c hc => ?_⟩
      cases hc
      exact ⟨nofun, nofun⟩
  | asking offset =>
    rw [Import.look]
    cases hb : migrationBatch order offset with
    | none => exact ⟨trivial, nofun⟩
    | some b =>
      obtain ⟨htake, hmem, hlast⟩ := migrationBatch_eq_some hb
      dsimp only
      split
      · exact ⟨trivial, nofun⟩
      · split
        · exact ⟨trivial, nofun⟩
        · refine ⟨⟨fun x hx => ?_, hmem, hlast⟩, nofun⟩
          rw [htake] at hx
          rcases mem_append.1 hx with hx | hx
          · exact .inr (h x hx)
          · exact .inl hx
  | importing next last rest =>
    obtain ⟨hbehind, hrest, hlast⟩ := h
    cases rest with
    | nil =>
      have hseen : ∀ x ∈ order.take next, Seen C maxSlots log log.length x := fun x hx => (hbehind x hx).resolve_left not_mem_nil
      rw [Import.look]
      split
      · exact ⟨trivial, nofun⟩
      · cases last with
        | false => exact ⟨hseen, nofun⟩
        | true =>
          refine ⟨trivial, fun c hc => ?_⟩
          cases hc
          refine ⟨nofun, fun t _ x hx => hseen x ?_⟩
          rw [take_of_length_le (hlast rfl)]
          exact hperm.mem_iff.2 hx
    | cons head rest =>
      rw [Import.look]
      cases hget : (stateAt C maxSlots log k).heads.get head.slot with
      | none =>
        refine ⟨⟨hbehind, hrest, hlast⟩, fun c hc => ?_⟩
        cases hc
        refine ⟨fun t heads he x hx => ?_, nofun⟩
        cases he
        rw [mem_singleton.1 hx]
        exact hperm.mem_iff.1 (hrest head mem_cons_self)
      | some old =>
        dsimp only
        split
        · rename_i he
          refine ⟨⟨fun x hx => ?_, fun x hx => hrest x (mem_cons_of_mem _ hx), hlast⟩, nofun⟩
          rcases hbehind x hx with hx | hx
          · rcases mem_cons.1 hx with rfl | hx
            · exact .inr ⟨k, hk, by rw [hget, he]⟩
            · exact .inl hx
          · exact .inr hx
        · exact ⟨trivial, nofun⟩
  | _ => exact ⟨h, nofun⟩

/-- **A run that hears of its proposal** keeps what it has behind it: a head that was imported was live. -/
theorem answer_ahead {log : Log} (h : Ahead C maxSlots log order run)
    {c : Command} {id : String} (hc : run.awaits = some c) (hk : log[k]? = some (c, id)) :
    Ahead C maxSlots log order (run.answer (replyAt C maxSlots log k (c, id))) := by
  cases run with
  | beginning ticket =>
    rw [Import.answer]
    split
    · exact fun x hx => by simp at hx
    · trivial
  | bootstrapping next last rest head ticket =>
    cases hc
    obtain ⟨hbehind, hrest, hlast⟩ := h
    rw [Import.answer]
    split
    · rename_i haccepted
      refine ⟨fun x hx => ?_, fun x hx => hrest x (mem_cons_of_mem _ hx), hlast⟩
      rcases hbehind x hx with hx | hx
      · rcases mem_cons.1 hx with rfl | hx
        · refine .inr ⟨k + 1, (List.getElem?_eq_some_iff.1 hk).1, ?_⟩
          unfold replyAt at haccepted
          rw [stateAt_succ hk]
          rcases apply_bootstrap C maxSlots (stateAt C maxSlots log k) id ticket [x]
            with ⟨e, he⟩ | ⟨-, -, he⟩
          · rw [he] at haccepted
            cases haccepted
          · rw [he]
            exact get_insert_self _ _ _
        · exact .inl hx
      · exact .inr hx
    · trivial
  | completing ticket =>
    rw [Import.answer]
    split <;> trivial
  | _ => cases hc

theorem Sound.step (hs : m.Sound C maxSlots source) (h : Step C maxSlots quota source m m') : m'.Sound C maxSlots source := by
  cases h with
  | client command id hc =>
    refine hs.append ⟨fun t heads he => ?_, fun t he => ?_⟩ id
    · rw [he] at hc
      cases hc
    · rw [he] at hc
      cases hc
  | commit command id hc => exact hs.append (hs.proposed command hc) id
  | start order hperm =>
    refine ⟨hs.imports, hs.proposed, fun r hr => ?_⟩
    rcases mem_append.1 hr with hr | hr
    · exact hs.runs r hr
    · rw [mem_singleton.1 hr]
      exact ⟨hperm, trivial⟩
  | look before after order run k ticket hm hk =>
    obtain ⟨hperm, hahead⟩ := hs.runs (order, run) (by rw [hm]; exact mem_append_right _ mem_cons_self)
    obtain ⟨hnext, hfair⟩ := look_ahead quota hperm hahead hk ticket
    exact hs.replace hm _ _ (fun c hc => hfair c (mem_toList.1 hc)) hnext
  | answer before after order run k command id hm hc hk =>
    obtain ⟨-, hahead⟩ := hs.runs (order, run) (by rw [hm]; exact mem_append_right _ mem_cons_self)
    have h := hs.replace hm _ [] nofun (answer_ahead hahead hc hk)
    rwa [append_nil] at h
  | giveUp before after order run hm =>
    have h := hs.replace hm .failed [] nofun trivial
    rwa [append_nil] at h

theorem Reachable.sound (h : Reachable C maxSlots quota source m) : m.Sound C maxSlots source := by
  induction h with
  | refl =>
    refine ⟨⟨fun k t heads id hk => ?_, fun k t id hk => ?_⟩, nofun, nofun⟩
    · cases hk
    · cases hk
  | tail _ hstep ih => exact ih.step hstep

/-- **A migration is exact.**  However runs of the import start, overlap, fail and repeat, and whatever clients commit
between: after the first completion the live heads are those of the source, no client has changed the state before it,
and no command of the migration changes it after. -/
theorem migration_exact (C : Crates) (maxSlots quota : Nat) (source : List Head) (m : Migration)
    (hm : Reachable C maxSlots quota source m) (n : Nat) (hn : Completes C maxSlots m.log n)
    (hfirst : ∀ k < n, ¬ Completes C maxSlots m.log k) :
    (∀ slot h, (stateAt C maxSlots m.log (n + 1)).heads.get slot = some h ↔ h ∈ source ∧ h.slot = slot) ∧
    (∀ k < n, ∀ c, m.log[k]? = some c → c.1.isClient = true → stateAt C maxSlots m.log (k + 1) = stateAt C maxSlots m.log k ∧
        ∀ ticket head, c.1 = .put ticket head → replyType (replyAt C maxSlots m.log k c) = some "escrow_error") ∧
    (∀ k > n, ∀ c, m.log[k]? = some c → c.1.isClient = false → stateAt C maxSlots m.log (k + 1) = stateAt C maxSlots m.log k) := by
  have hs := hm.sound
  obtain ⟨hmigrating, hnext⟩ := hn.spec (unfinished_at hfirst)
  refine ⟨fun slot h => ?_, fun k hk c hc hclient => client_before hk hmigrating hc hclient, fun k hk c hc hclient => ?_⟩
  · rw [hnext]
    constructor
    · intro hget
      exact ⟨hs.imports.heads_mem n hmigrating hget, ((stateAt_linear m.log n).heads slot h hget).1⟩
    · rintro ⟨hmem, rfl⟩
      obtain ⟨ticket, id, hentry, -⟩ := hn
      obtain ⟨j, hj, hget⟩ := hs.imports.whole n ticket id hentry h hmem
      have hrun := stateAt_run C maxSlots m.log hj
      rw [hrun] at hmigrating ⊢
      exact kept_run _ (stateAt_linear m.log j) hmigrating hget
  · have hfinished : (stateAt C maxSlots m.log k).migrationFinished = true := by
      rw [stateAt_run _ _ _ (show n + 1 ≤ k from hk), hnext]
      exact finished_run _ rfl
    rw [stateAt_succ hc]
    exact apply_after hfinished hclient

/-! ## A run -/

def noteImport : Log :=
  [(.bootstrapBegin "begin", "migration"), (.put "client" noteHead, "put"), (.bootstrap "head" [noteHead], "migration"),
    (.bootstrapComplete "complete", "migration")]

theorem step_look {log : Log} {proposed : List Command} 
    (hk : k ≤ log.length) (ticket : String) (run' : Import) (command : Option Command)
    (h : run.look quota order (stateAt C maxSlots log k) ticket = (run', command)) :
    Step C maxSlots quota source ⟨log, proposed, [(order, run)]⟩
      ⟨log, proposed ++ command.toList, [(order, run')]⟩ := by
  have hstep : Step C maxSlots quota source ⟨log, proposed, [(order, run)]⟩ _ := .look [] [] order run k ticket rfl hk
  rw [h] at hstep
  exact hstep

theorem step_answer {log : Log} {proposed : List Command} {command : Command}
    {id : String} (k : Nat) (run' : Import) (hc : run.awaits = some command) (hk : log[k]? = some (command, id))
    (h : run.answer (replyAt C maxSlots log k (command, id)) = run') :
    Step C maxSlots quota source ⟨log, proposed, [(order, run)]⟩ ⟨log, proposed, [(order, run')]⟩ := by
  rw [← h]
  exact Step.answer [] [] order run k command id rfl hc hk

theorem noteImport_reachable : Reachable noteCrates applySlots 64 [noteHead]
    ⟨noteImport, [.bootstrapBegin "begin", .bootstrap "head" [noteHead], .bootstrapComplete "complete"],
      [([noteHead], .completing "complete")]⟩ := by
  have h1 : Reachable noteCrates applySlots 64 [noteHead] ⟨[], [], [([noteHead], .start)]⟩ :=
    .tail .refl (.start [noteHead] (List.Perm.refl _))
  have h2 := h1.tail (step_look (le_refl 0) "begin" (.beginning "begin") (some (.bootstrapBegin "begin"))
    (by decide))
  have h3 := h2.tail (.commit (.bootstrapBegin "begin") "migration" mem_cons_self)
  have h4 := h3.tail (.client (.put "client" noteHead) "put" rfl)
  have h5 := h4.tail (step_answer 0 (.asking 0) rfl rfl (by decide))
  have h6 := h5.tail (step_look (show 2 ≤ _ by decide) "" (.importing 1 true [noteHead]) none
    (by decide))
  have h7 := h6.tail (step_look (show 2 ≤ _ by decide) "head" (.bootstrapping 1 true [] noteHead "head")
    (some (.bootstrap "head" [noteHead])) (by decide))
  have h8 := h7.tail (.commit (.bootstrap "head" [noteHead]) "migration" (by simp))
  have h9 := h8.tail (step_answer 2 (.importing 1 true []) rfl rfl (by decide +kernel))
  have h10 := h9.tail (step_look (show 3 ≤ _ by decide) "complete" (.completing "complete") (some (.bootstrapComplete "complete"))
    (by decide))
  exact h10.tail (.commit (.bootstrapComplete "complete") "migration" (by simp))

theorem migration_exact_note : Completes noteCrates applySlots noteImport 3 ∧
    (stateAt noteCrates applySlots noteImport 4).heads.get noteHead.slot = some noteHead ∧
    stateAt noteCrates applySlots noteImport 2 = stateAt noteCrates applySlots noteImport 1 := by
  have hn : Completes noteCrates applySlots noteImport 3 := ⟨"complete", "migration", rfl, by decide +kernel⟩
  have hfirst : ∀ k < 3, ¬ Completes noteCrates applySlots noteImport k := by
    rintro k hk ⟨ticket, id, hentry, -⟩
    interval_cases k <;> cases hentry
  obtain ⟨hheads, hclient, -⟩ := migration_exact noteCrates applySlots 64 [noteHead] _ noteImport_reachable 3 hn hfirst
  exact ⟨hn, (hheads noteHead.slot noteHead).2 ⟨mem_singleton_self _, rfl⟩,
    (hclient 1 (by omega) (.put "client" noteHead, "put") rfl rfl).1⟩

end Migration

end Mistl.Escrow
