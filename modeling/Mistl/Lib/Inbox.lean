import Mathlib.Data.List.Basic
/-!
# Inbox — a bounded queue between a sender that never waits and a task that does

A message that is not valid, or finds the queue full, closes the inbox; the task takes one message a poll, and ends with a
result of its own or at a closed and empty inbox.  `drained_iff_fits` says when it gets every message.
-/
open List

namespace Mistl

/-- What a task does with a message: go on, or end with a result; and what it ends with when nothing will come. -/
structure Reader (σ μ ρ : Type) where
  take : σ → μ → σ ⊕ ρ
  closed : ρ

structure Exchange (σ μ ρ : Type) where
  queue : List μ
  listed : Bool
  task : σ ⊕ ρ

/-- One step of an exchange: a message is offered, valid or not; the task is polled; the inbox is closed from outside; the
task is ended from outside. -/
inductive Exchange.Step (μ ρ : Type) where
  | offer (valid : Bool) (m : μ)
  | poll
  | close
  | expire (r : ρ)

namespace Exchange

variable {σ μ ρ : Type} (R : Reader σ μ ρ) (cap : Nat)

def offer (x : Exchange σ μ ρ) (valid : Bool) (m : μ) : Exchange σ μ ρ :=
  if x.listed = false then x
  else if valid ∧ x.queue.length < cap then { x with queue := x.queue ++ [m] }
  else { x with listed := false }

def poll (x : Exchange σ μ ρ) : Exchange σ μ ρ :=
  match x.task with
  | .inr _ => x
  | .inl s =>
    match x.queue with
    | m :: queue =>
      match R.take s m with
      | .inl s => { x with queue := queue, task := .inl s }
      | .inr r => ⟨queue, false, .inr r⟩
    | [] => if x.listed then x else { x with task := .inr R.closed }

def expire (x : Exchange σ μ ρ) (r : ρ) : Exchange σ μ ρ :=
  match x.task with
  | .inr _ => x
  | .inl _ => ⟨x.queue, false, .inr r⟩

def step (x : Exchange σ μ ρ) : Step μ ρ → Exchange σ μ ρ
  | .offer valid m => x.offer cap valid m
  | .poll => x.poll R
  | .close => { x with listed := false }
  | .expire r => x.expire r

def run (x : Exchange σ μ ρ) (steps : List (Step μ ρ)) : Exchange σ μ ρ := steps.foldl (step R cap) x

def start (s : σ) : Exchange σ μ ρ := ⟨[], true, .inl s⟩

theorem run_append (x : Exchange σ μ ρ) (steps steps' : List (Step μ ρ)) :
    run R cap x (steps ++ steps') = run R cap (run R cap x steps) steps' := foldl_append

theorem run_cons (x : Exchange σ μ ρ) (e : Step μ ρ) (steps : List (Step μ ρ)) :
    run R cap x (e :: steps) = run R cap (step R cap x e) steps := rfl

/-! ## What the task has taken -/

/-- The task ends with `r` on the last of the messages, and goes on at every one before. -/
def Ends : σ → List μ → ρ → Prop
  | _, [], _ => False
  | s, [m], r => R.take s m = .inr r
  | s, m :: m' :: ms, r => ∃ s', R.take s m = .inl s' ∧ Ends s' (m' :: ms) r

theorem Ends.ne_nil {s : σ} {ms : List μ} {r : ρ} (h : Ends R s ms r) : ms ≠ [] := by
  rintro rfl
  exact h

theorem Ends.take_cons {s : σ} {m : μ} {ms : List μ} {r : ρ} (h : Ends R s (m :: ms) r) :
    (ms = [] ∧ R.take s m = .inr r) ∨ ∃ s', R.take s m = .inl s' ∧ Ends R s' ms r := by
  cases ms with
  | nil => exact .inl ⟨rfl, h⟩
  | cons m' ms => exact .inr h

theorem run_done {r : ρ} : ∀ {steps : List (Step μ ρ)} {x : Exchange σ μ ρ}, x.task = .inr r → (run R cap x steps).task = .inr r
  | [], _, h => h
  | e :: steps, x, h => by
    refine @run_done _ steps (step R cap x e) ?_
    cases e with
    | offer valid m =>
      show (x.offer cap valid m).task = _
      unfold offer
      split_ifs <;> exact h
    | poll =>
      show (x.poll R).task = _
      unfold poll
      rw [h]
      exact h
    | close => exact h
    | expire r' =>
      show (x.expire r').task = _
      unfold expire
      rw [h]
      exact h

/-! ## A queue that is never found full -/

def offered : List (Step μ ρ) → List μ
  | [] => []
  | .offer _ m :: steps => m :: offered steps
  | _ :: steps => offered steps

def Plain (steps : List (Step μ ρ)) : Prop := ∀ e ∈ steps, e = .poll ∨ ∃ valid m, e = .offer valid m

/-- No message finds `cap` others waiting, when `n` wait at the start. -/
def fits : Nat → List (Step μ ρ) → Bool
  | _, [] => true
  | n, .offer _ _ :: steps => decide (n < cap) && fits (n + 1) steps
  | n, .poll :: steps => fits (n - 1) steps
  | n, _ :: steps => fits n steps

def allValid : List (Step μ ρ) → Bool
  | [] => true
  | .offer valid _ :: steps => valid && allValid steps
  | _ :: steps => allValid steps

theorem fits_of_offered_nil : ∀ {steps : List (Step μ ρ)} {n : Nat}, offered steps = [] →
    fits cap n steps = true ∧ allValid steps = true
  | [], _, _ => ⟨rfl, rfl⟩
  | .offer _ _ :: _, _, h => by cases h
  | .poll :: steps, _, h | .close :: steps, _, h | .expire _ :: steps, _, h => @fits_of_offered_nil steps _ h

theorem offered_polls (steps : List (Step μ ρ)) : ∀ k, offered (List.replicate k .poll ++ steps) = offered steps
  | 0 => rfl
  | k + 1 => offered_polls steps k

theorem allValid_polls (steps : List (Step μ ρ)) : ∀ k, allValid (List.replicate k .poll ++ steps) = allValid steps
  | 0 => rfl
  | k + 1 => allValid_polls steps k

theorem fits_polls (steps : List (Step μ ρ)) : ∀ k n, fits cap n (List.replicate k .poll ++ steps) = fits cap (n - k) steps
  | 0, _ => rfl
  | k + 1, n => by
    rw [replicate_succ, cons_append, fits, fits_polls steps k, Nat.sub_sub, Nat.add_comm]

theorem run_polls : ∀ {k : Nat} {queue : List μ} {listed : Bool} {s : σ} {r : ρ}, Ends R s queue r → queue.length ≤ k →
    (run R cap ⟨queue, listed, .inl s⟩ (List.replicate k .poll)).task = .inr r
  | 0, queue, _, _, _, h, hk => absurd (length_eq_zero_iff.1 (Nat.le_zero.1 hk)) (h.ne_nil R)
  | k + 1, [], _, _, _, h, _ => absurd rfl (h.ne_nil R)
  | k + 1, m :: queue, listed, s, r, h, hk => by
    show (run R cap (poll R ⟨m :: queue, listed, .inl s⟩) _).task = _
    rcases h.take_cons R with ⟨rfl, ht⟩ | ⟨s', ht, h'⟩
    · refine run_done R cap ?_
      simp only [poll, ht]
    · simp only [poll, ht]
      exact run_polls h' (by simpa using hk)

theorem run_idle (s : σ) : ∀ k, run R cap (start s) (List.replicate k .poll) = start s
  | 0 => rfl
  | k + 1 => run_idle s k

def Unfinished (s : σ) (queue : List μ) : Prop := ∃ rest r, rest ≠ [] ∧ Ends R s (queue ++ rest) r

theorem run_starved {r : ρ} (hr : R.closed ≠ r) : ∀ {steps : List (Step μ ρ)} {queue : List μ} {s : σ}, Plain steps →
    Unfinished R s queue → (run R cap ⟨queue, false, .inl s⟩ steps).task ≠ .inr r
  | [], _, _, _, _ => nofun
  | .poll :: steps, [], s, hp, _ => by
    show (run R cap (poll R ⟨[], false, .inl s⟩) steps).task ≠ _
    have hdone : (poll R (⟨[], false, .inl s⟩ : Exchange σ μ ρ)).task = .inr R.closed := rfl
    rw [run_done R cap hdone]
    exact fun h => hr (Sum.inr.inj h)
  | .poll :: steps, m :: queue, s, hp, ⟨rest, r', hrest, hends⟩ => by
    show (run R cap (poll R ⟨m :: queue, false, .inl s⟩) steps).task ≠ _
    rcases hends.take_cons R with ⟨hnil, -⟩ | ⟨s', ht, h'⟩
    · exact absurd (append_eq_nil_iff.1 hnil).2 hrest
    · simp only [poll, ht]
      exact run_starved hr (fun e he => hp e (mem_cons_of_mem _ he)) ⟨rest, r', hrest, h'⟩
  | .offer valid m :: steps, queue, s, hp, h => by
    rw [run_cons]
    exact run_starved hr (fun e he => hp e (mem_cons_of_mem _ he)) h
  | .close :: steps, _, _, hp, _ | .expire r' :: steps, _, _, hp, _ => by
    rcases hp _ mem_cons_self with h | ⟨v, m, h⟩ <;> cases h

theorem drained_iff {r : ρ} (hr : R.closed ≠ r) : ∀ {steps : List (Step μ ρ)} {queue : List μ} {s : σ} {k : Nat},
    Plain steps → Ends R s (queue ++ offered steps) r → (queue ++ offered steps).length ≤ k →
    ((run R cap ⟨queue, true, .inl s⟩ (steps ++ List.replicate k .poll)).task = .inr r ↔
      fits cap queue.length steps = true ∧ allValid steps = true)
  | [], queue, s, k, _, hends, hk => by
    rw [offered, append_nil] at hends hk
    exact iff_of_true (run_polls R cap hends hk) ⟨rfl, rfl⟩
  | .offer valid m :: steps, queue, s, k, hp, hends, hk => by
    have hplain : Plain steps := fun e he => hp e (mem_cons_of_mem _ he)
    show (run R cap (offer cap ⟨queue, true, .inl s⟩ valid m) _).task = _ ↔
      (decide (queue.length < cap) && _) = true ∧ (valid && _) = true
    by_cases hq : valid = true ∧ queue.length < cap
    · obtain ⟨rfl, hq⟩ := hq
      have hoffer : offer cap (⟨queue, true, .inl s⟩ : Exchange σ μ ρ) true m = ⟨queue ++ [m], true, .inl s⟩ := by
        simp only [offer, Bool.true_eq_false, if_false, true_and, if_pos hq]
      rw [hoffer, decide_eq_true hq]
      have h := @drained_iff r hr steps (queue ++ [m]) s k hplain
        (by rwa [append_assoc]) (by rwa [append_assoc])
      rwa [length_append] at h
    · have hoffer : offer cap (⟨queue, true, .inl s⟩ : Exchange σ μ ρ) valid m = ⟨queue, false, .inl s⟩ := by
        simp only [offer, Bool.true_eq_false, if_false, if_neg hq]
      rw [hoffer]
      refine iff_of_false (run_starved R cap hr ?_ ⟨m :: offered steps, r, cons_ne_nil _ _, hends⟩) ?_
      · intro e he
        rcases mem_append.1 he with he | he
        · exact hplain e he
        · exact .inl (eq_of_mem_replicate he)
      · rw [Bool.and_eq_true, Bool.and_eq_true, decide_eq_true_eq]
        exact fun h => hq ⟨h.2.1, h.1.1⟩
  | .poll :: steps, [], s, k, hp, hends, hk => by
    have hplain : Plain steps := fun e he => hp e (mem_cons_of_mem _ he)
    rw [cons_append]
    exact drained_iff hr hplain hends hk
  | .poll :: steps, m :: queue, s, k, hp, hends, hk => by
    have hplain : Plain steps := fun e he => hp e (mem_cons_of_mem _ he)
    have hk : (m :: (queue ++ offered steps)).length ≤ k := hk
    show (run R cap (poll R ⟨m :: queue, true, .inl s⟩) _).task = _ ↔ fits cap queue.length steps = true ∧ allValid steps = true
    rcases Ends.take_cons R (show Ends R s (m :: (queue ++ offered steps)) r from hends) with ⟨hnil, ht⟩ | ⟨s', ht, h'⟩
    · obtain ⟨-, hnone⟩ := append_eq_nil_iff.1 hnil
      refine iff_of_true (run_done R cap ?_) (fits_of_offered_nil cap hnone)
      simp only [poll, ht]
    · simp only [poll, ht]
      rw [length_cons] at hk
      exact drained_iff hr hplain h' (by omega)
  | .close :: steps, _, _, _, hp, _, _ | .expire r' :: steps, _, _, _, hp, _, _ => by
    rcases hp _ mem_cons_self with h | ⟨v, m, h⟩ <;> cases h

variable {steps : List (Step μ ρ)}

/-- **A task that needs every message offered gets its result exactly when each is valid and none finds the queue full**,
however the polls fall between the offers, once it is polled often enough. -/
theorem drained_iff_fits {r : ρ} (hr : R.closed ≠ r) {s : σ} (hplain : Plain steps)
    (hends : Ends R s (offered steps) r) :
    (run R cap (start s) (steps ++ List.replicate (offered steps).length .poll)).task = .inr r ↔
      fits cap 0 steps = true ∧ allValid steps = true := drained_iff R cap hr hplain hends (Nat.le_refl _)

/-! ## What a task ends with -/

/-- The task ends with `r` at a poll, on the message `m`. -/
def EndsOn (x : Exchange σ μ ρ) (steps : List (Step μ ρ)) (m : μ) (r : ρ) : Prop :=
  ∃ pre post s queue listed, steps = pre ++ .poll :: post ∧ run R cap x pre = ⟨m :: queue, listed, .inl s⟩ ∧ R.take s m = .inr r

theorem EndsOn.task {x : Exchange σ μ ρ} {m : μ} {r : ρ} (h : EndsOn R cap x steps m r) : (run R cap x steps).task = .inr r := by
  obtain ⟨pre, post, s, queue, listed, rfl, hpre, ht⟩ := h
  rw [run_append, run_cons, hpre]
  refine run_done R cap ?_
  show (poll R ⟨m :: queue, listed, .inl s⟩).task = _
  simp only [poll, ht]

theorem EndsOn.later {x : Exchange σ μ ρ} {e : Step μ ρ} {m : μ} {r : ρ}
    (h : EndsOn R cap (step R cap x e) steps m r) : EndsOn R cap x (e :: steps) m r := by
  obtain ⟨pre, post, s, queue, listed, rfl, hpre, ht⟩ := h
  exact ⟨e :: pre, post, s, queue, listed, rfl, hpre, ht⟩

theorem poll_cases (x : Exchange σ μ ρ) {s : σ} (h : x.task = .inl s) : (∃ s', (x.poll R).task = .inl s') ∨
    (x.poll R).task = .inr R.closed ∨
    ∃ m queue r, x = ⟨m :: queue, x.listed, .inl s⟩ ∧ R.take s m = .inr r ∧ (x.poll R).task = .inr r := by
  obtain ⟨queue, listed, task⟩ := x
  cases h
  cases queue with
  | nil =>
    cases listed
    · exact .inr (.inl rfl)
    · exact .inl ⟨s, rfl⟩
  | cons m queue =>
    cases ht : R.take s m with
    | inl s' => exact .inl ⟨s', by simp only [poll, ht]⟩
    | inr r => exact .inr (.inr ⟨m, queue, r, rfl, ht, by simp only [poll, ht]⟩)

/-- **A task ends with the result of a closed inbox, with one it is ended with from outside, or on a message.** -/
theorem run_endsOn {r : ρ} : ∀ {steps : List (Step μ ρ)} {x : Exchange σ μ ρ} {s : σ}, x.task = .inl s →
    (run R cap x steps).task = .inr r → r = R.closed ∨ .expire r ∈ steps ∨ ∃ m, EndsOn R cap x steps m r
  | [], x, s, hx, h => by
    rw [show run R cap x [] = x from rfl, hx] at h
    cases h
  | e :: steps, x, s, hx, h => by
    rw [run_cons] at h
    have hnext : ∀ s', (step R cap x e).task = .inl s' →
        r = R.closed ∨ .expire r ∈ e :: steps ∨ ∃ m, EndsOn R cap x (e :: steps) m r := by
      intro s' hs'
      rcases run_endsOn hs' h with h | h | ⟨m, h⟩
      · exact .inl h
      · exact .inr (.inl (mem_cons_of_mem _ h))
      · exact .inr (.inr ⟨m, h.later R cap⟩)
    cases e with
    | offer valid m =>
      refine hnext s ?_
      show (x.offer cap valid m).task = _
      unfold offer
      split_ifs <;> exact hx
    | close => exact hnext s hx
    | poll =>
      rcases poll_cases R x hx with ⟨s', hs'⟩ | hclosed | ⟨m, queue, r', hx', ht, hr⟩
      · exact hnext s' hs'
      · rw [run_done R cap (x := step R cap x .poll) hclosed] at h
        cases h
        exact .inl rfl
      · rw [run_done R cap (x := step R cap x .poll) hr] at h
        cases h
        exact .inr (.inr ⟨m, [], steps, s, queue, x.listed, rfl, hx', ht⟩)
    | expire r' =>
      have hexpired : (step R cap x (.expire r')).task = .inr r' := by
        show (x.expire r').task = _
        unfold expire
        rw [hx]
      rw [run_done R cap hexpired] at h
      cases h
      exact .inr (.inl mem_cons_self)

end Exchange
end Mistl
