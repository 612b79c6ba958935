import Mathlib.Data.List.Basic
/-!
# Journal — programs whose effects last one by one

A program reads a durable state and has effects on it, each atomic.  Where it may be cut off after any of them, what is said
of it is said of each effect at the state it happens in: a rule; a triple says that a program keeps to one.
-/
namespace Mistl.Journal

/-- How an effect changes the durable state. -/
class Durable (δ ε : Type) where
  apply : δ → ε → δ

/-- The effects of a program in their order, and its result. -/
structure Ran (ε α : Type) where
  events : List ε
  result : Except String α

def Work (δ ε α : Type) : Type := δ → Ran ε α

variable {δ ε α β : Type} [Durable δ ε]

def after (d : δ) (es : List ε) : δ := es.foldl Durable.apply d

@[simp] theorem after_nil (d : δ) : after d ([] : List ε) = d := rfl

@[simp] theorem after_cons (d : δ) (e : ε) (es : List ε) : after d (e :: es) = after (Durable.apply d e) es := rfl

theorem after_append (d : δ) (es es' : List ε) : after d (es ++ es') = after (after d es) es' := List.foldl_append

namespace Work

def bind (x : Work δ ε α) (f : α → Work δ ε β) : Work δ ε β := fun d =>
  match (x d).result with
  | .error e => ⟨(x d).events, .error e⟩
  | .ok a => ⟨(x d).events ++ (f a (after d (x d).events)).events, (f a (after d (x d).events)).result⟩

instance : Monad (Work δ ε) where
  pure a := fun _ => ⟨[], .ok a⟩
  bind := bind

def emit (e : ε) : Work δ ε Unit := fun _ => ⟨[e], .ok ()⟩

def fail (message : String) : Work δ ε α := fun _ => ⟨[], .error message⟩

def read : Work δ ε δ := fun d => ⟨[], .ok d⟩

def lift (x : Except String α) : Work δ ε α := fun _ => ⟨[], x⟩

end Work

/-! ## What a program does first -/

theorem read_bind (f : δ → Work δ ε β) (d : δ) : (Work.read >>= f) d = f d d := rfl

theorem emit_bind (e : ε) (f : Unit → Work δ ε β) (d : δ) :
    (Work.emit e >>= f) d = ⟨e :: (f () (Durable.apply d e)).events, (f () (Durable.apply d e)).result⟩ := rfl

theorem lift_ok_bind (a : α) (f : α → Work δ ε β) (d : δ) : (Work.lift (.ok a) >>= f) d = f a d := rfl

variable {x : Work δ ε α}

variable {es : List ε}

theorem bind_of_ok {d : δ} {a : α} (h : x d = ⟨es, .ok a⟩) (f : α → Work δ ε β) :
    (x >>= f) d = ⟨es ++ (f a (after d es)).events, (f a (after d es)).result⟩ := by
  change Work.bind x f d = _
  unfold Work.bind
  rw [h]

theorem bind_of_error {d : δ} {message : String} (h : x d = ⟨es, .error message⟩)
    (f : α → Work δ ε β) : (x >>= f) d = ⟨es, .error message⟩ := by
  change Work.bind x f d = _
  unfold Work.bind
  rw [h]

/-! ## Rules -/

def Allows (R : δ → ε → Prop) : δ → List ε → Prop
  | _, [] => True
  | d, e :: es => R d e ∧ Allows R (Durable.apply d e) es

variable {R : δ → ε → Prop}

theorem allows_append : ∀ {d : δ} {es es' : List ε}, Allows R d (es ++ es') ↔ Allows R d es ∧ Allows R (after d es) es'
  | d, [], es' => by simp [Allows]
  | d, e :: es, es' => by
    rw [List.cons_append, Allows, Allows, allows_append, after_cons, and_assoc]

theorem Allows.take {d : δ} (h : Allows R d es) (n : Nat) : Allows R d (es.take n) := by
  rw [← List.take_append_drop n es] at h
  exact (allows_append.1 h).1

theorem Allows.invariant {Inv : δ → Prop} (hstep : ∀ d e, Inv d → R d e → Inv (Durable.apply d e)) :
    ∀ {es : List ε} {d : δ}, Inv d → Allows R d es → Inv (after d es)
  | [], _, h, _ => h
  | e :: es, d, h, hes => by
    have hrest : Inv (after (Durable.apply d e) es) := Allows.invariant hstep (hstep d e h hes.1) hes.2
    exact hrest

/-! ## Triples -/

/-- From a state of `P` the program keeps to the rule, and returns in a state of `Q`. -/
def Triple (R : δ → ε → Prop) (P : δ → Prop) (x : Work δ ε α) (Q : α → δ → Prop) : Prop :=
  ∀ d, P d → Allows R d (x d).events ∧ ∀ a, (x d).result = .ok a → Q a (after d (x d).events)

variable {P : δ → Prop} {Q : α → δ → Prop}

theorem Triple.pure {a : α} (h : ∀ d, P d → Q a d) : Triple R P (pure a : Work δ ε α) Q :=
  fun d hd => ⟨trivial, fun _ ha => by cases ha; exact h d hd⟩

theorem Triple.fail {message : String} : Triple R P (Work.fail message : Work δ ε α) Q := fun _ _ => ⟨trivial, nofun⟩

theorem Triple.lift {x : Except String α} (h : ∀ a d, x = .ok a → P d → Q a d) : Triple R P (Work.lift x : Work δ ε α) Q :=
  fun d hd => ⟨trivial, fun a ha => h a d ha hd⟩

theorem Triple.emit {e : ε} {Q : Unit → δ → Prop} (hrule : ∀ d, P d → R d e) (h : ∀ d, P d → Q () (Durable.apply d e)) :
    Triple R P (Work.emit e : Work δ ε Unit) Q :=
  fun d hd => ⟨⟨hrule d hd, trivial⟩, fun _ _ => h d hd⟩

theorem Triple.read {Q : δ → δ → Prop} (h : ∀ d, P d → Q d d) : Triple R P (Work.read : Work δ ε δ) Q :=
  fun d hd => ⟨trivial, fun _ ha => by cases ha; exact h d hd⟩

theorem Triple.bind {f : α → Work δ ε β} {Q' : β → δ → Prop} (hx : Triple R P x Q)
    (hf : ∀ a, Triple R (Q a) (f a) Q') : Triple R P (x >>= f) Q' := by
  intro d hd
  obtain ⟨hallows, hresult⟩ := hx d hd
  show Allows R d (Work.bind x f d).events ∧ ∀ b, (Work.bind x f d).result = .ok b → Q' b (after d (Work.bind x f d).events)
  unfold Work.bind
  cases hr : (x d).result with
  | error e => exact ⟨hallows, nofun⟩
  | ok a =>
    obtain ⟨hallows', hresult'⟩ := hf a _ (hresult a hr)
    refine ⟨allows_append.2 ⟨hallows, hallows'⟩, fun b hb => ?_⟩
    rw [after_append]
    exact hresult' b hb

theorem Triple.mono {P' : δ → Prop} {Q' : α → δ → Prop} (h : Triple R P x Q) (hP : ∀ d, P' d → P d)
    (hQ : ∀ a d, Q a d → Q' a d) : Triple R P' x Q' :=
  fun d hd => ⟨(h d (hP d hd)).1, fun a ha => hQ a _ ((h d (hP d hd)).2 a ha)⟩

theorem Triple.of_forall (h : ∀ d, P d → Triple R (fun d' => d' = d) x Q) : Triple R P x Q := fun d hd => h d hd d rfl

theorem Triple.assume {p : Prop} (h : p → Triple R P x Q) : Triple R (fun d => p ∧ P d) x Q := fun d hd => h hd.1 d hd.2

end Mistl.Journal
