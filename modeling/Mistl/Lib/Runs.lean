/-!
# Runs — a partial step function and its runs

A step may be impossible in a state.  What is said of a run is said of every state it passes, since the beginning of a run is
a run; what each step of a kind preserves, a run of such steps preserves.
-/
namespace Mistl.Runs

variable {σ α : Type} (step : σ → α → Option σ)

def run : σ → List α → Option σ
  | s, [] => some s
  | s, act :: acts => (step s act).bind fun s => run s acts

def along (ok : σ → α → Bool) : σ → List α → Bool
  | _, [] => true
  | s, act :: acts => ok s act && (step s act).all fun s => along ok s acts

variable {step}

@[simp] theorem run_nil {s : σ} : run step s [] = some s := rfl

theorem run_cons {s s' : σ} {act : α} {acts : List α} : run step s (act :: acts) = some s' ↔
    ∃ s₁, step s act = some s₁ ∧ run step s₁ acts = some s' := Option.bind_eq_some_iff

theorem run_append : ∀ {acts acts' : List α} {s : σ}, run step s (acts ++ acts') = (run step s acts).bind (fun s => run step s acts')
  | [], _, _ => rfl
  | act :: acts, acts', s => by
    rw [List.cons_append, run, run, Option.bind_assoc]
    exact congrArg _ (funext (fun s₁ => run_append))

theorem along_cons {ok : σ → α → Bool} {s s₁ : σ} {act : α} {acts : List α} (hstep : step s act = some s₁) :
    along step ok s (act :: acts) = true ↔ ok s act = true ∧ along step ok s₁ acts = true := by
  rw [along, hstep, Option.all_some, Bool.and_eq_true]

theorem along_of_forall {ok : α → Bool} : ∀ {acts : List α}, (∀ act ∈ acts, ok act = true) → ∀ s : σ,
    along step (fun _ act => ok act) s acts = true
  | [], _, _ => rfl
  | act :: acts, h, s => by
    rw [along, h act List.mem_cons_self]
    cases step s act with
    | none => rfl
    | some s₁ => exact along_of_forall (fun act hact => h act (List.mem_cons_of_mem _ hact)) s₁

theorem along_true (s : σ) (acts : List α) : along step (fun _ _ => true) s acts = true :=
  @along_of_forall σ α step (fun _ => true) acts (fun _ _ => rfl) s

theorem invariant {ok : σ → α → Bool} {Inv : σ → Prop}
    (hstep : ∀ s s' act, Inv s → ok s act = true → step s act = some s' → Inv s') :
    ∀ {acts : List α} {s s' : σ}, Inv s → along step ok s acts = true → run step s acts = some s' → Inv s'
  | [], _, _, h, _, hrun => by
    cases hrun
    exact h
  | act :: acts, s, s', h, halong, hrun => by
    obtain ⟨s₁, hs₁, hrun⟩ := run_cons.1 hrun
    obtain ⟨hok, halong⟩ := (along_cons hs₁).1 halong
    exact invariant hstep (hstep s s₁ act h hok hs₁) halong hrun

end Mistl.Runs
