import Mathlib.Data.List.Basic
/-!
# Checks — sequences of checks, and text split at a character

A function that refuses at the first check that fails is a chain of `ensure` and `okOr`; the lemmas read what has been
checked off its success.
-/
namespace Mistl

variable {ε α β : Type}

def ensure (condition : Bool) (e : ε) : Except ε Unit := if condition then .ok () else .error e

def okOr (value : Option α) (e : ε) : Except ε α :=
  match value with
  | some a => .ok a
  | none => .error e

variable {condition : Bool}

theorem ensure_eq_ok {e : ε} {u : Unit} : ensure condition e = .ok u ↔ condition = true := by
  cases condition <;> simp [ensure]

theorem bind_eq_ok {x : Except ε α} {next : α → Except ε β} {b : β} : (x >>= next) = .ok b ↔ ∃ a, x = .ok a ∧ next a = .ok b := by
  cases x <;> simp [bind, Except.bind]

theorem ensure_bind_eq_ok {e : ε} {next : Unit → Except ε β} {b : β} :
    (ensure condition e >>= next) = .ok b ↔ condition = true ∧ next () = .ok b := by
  cases condition <;> simp [ensure, bind, Except.bind]

theorem okOr_bind_eq_ok {value : Option α} {e : ε} {next : α → Except ε β} {b : β} :
    (okOr value e >>= next) = .ok b ↔ ∃ a, value = some a ∧ next a = .ok b := by
  cases value <;> simp [okOr, bind, Except.bind]

theorem ensure_bind_congr {e : ε} {next next' : Unit → Except ε β}
    (h : condition = true → next () = next' ()) : (ensure condition e >>= next) = (ensure condition e >>= next') := by
  cases condition with
  | false => rfl
  | true => exact h rfl

/-! ## Splitting -/

/-- What stands before and after the last `c`. -/
def splitLast [DecidableEq α] (c : α) : List α → Option (List α × List α)
  | [] => none
  | x :: l =>
    match splitLast c l with
    | some (a, b) => some (x :: a, b)
    | none => if x = c then some ([], l) else none

theorem splitLast_eq_none [DecidableEq α] {c : α} : ∀ {l : List α}, splitLast c l = none ↔ c ∉ l
  | [] => by simp [splitLast]
  | x :: l => by
    have ih := @splitLast_eq_none _ c l
    rw [splitLast, List.mem_cons]
    cases h : splitLast c l with
    | some p =>
      have : c ∈ l := by
        by_contra hc
        rw [ih.2 hc] at h
        cases h
      simp [this]
    | none =>
      by_cases hx : x = c
      · simp [hx]
      · simp [hx, ih.1 h, Ne.symm hx]

theorem splitLast_append [DecidableEq α] {c : α} {b : List α} (hb : c ∉ b) : ∀ a : List α, splitLast c (a ++ c :: b) = some (a, b)
  | [] => by rw [List.nil_append, splitLast, splitLast_eq_none.2 hb]; simp
  | x :: a => by rw [List.cons_append, splitLast, splitLast_append hb a]

theorem of_splitLast [DecidableEq α] {c : α} : ∀ {l a b : List α}, splitLast c l = some (a, b) → l = a ++ c :: b ∧ c ∉ b
  | [], _, _, h => by cases h
  | x :: l, a, b, h => by
    rw [splitLast] at h
    split at h
    · rename_i hl
      cases h
      obtain ⟨rfl, hb⟩ := of_splitLast hl
      exact ⟨rfl, hb⟩
    · rename_i hl
      split at h
      · rename_i hx
        cases h
        exact ⟨by rw [hx, List.nil_append], splitLast_eq_none.1 hl⟩
      · cases h

theorem splitLast_eq_some [DecidableEq α] {c : α} {l a b : List α} : splitLast c l = some (a, b) ↔ l = a ++ c :: b ∧ c ∉ b := by
  constructor
  · exact of_splitLast
  · rintro ⟨rfl, hb⟩
    exact splitLast_append hb a

theorem splitLast_text {c : Char} {sep text a b : String} (hsep : sep.toList = [c]) :
    (splitLast c text.toList).map (fun p => (String.ofList p.1, String.ofList p.2)) = some (a, b) ↔
      text = a ++ sep ++ b ∧ c ∉ b.toList := by
  rw [Option.map_eq_some_iff]
  constructor
  · rintro ⟨⟨x, y⟩, hp, he⟩
    obtain ⟨rfl, rfl⟩ := Prod.mk.inj he
    obtain ⟨hl, hb⟩ := splitLast_eq_some.1 hp
    refine ⟨String.toList_inj.1 ?_, by rwa [String.toList_ofList]⟩
    simp [hl, hsep]
  · rintro ⟨rfl, hb⟩
    exact ⟨(a.toList, b.toList), splitLast_eq_some.2 ⟨by simp [hsep], hb⟩, by simp⟩

def stripSuffix [DecidableEq α] (suffix text : List α) : Option (List α) :=
  if suffix <:+ text then some (text.take (text.length - suffix.length)) else none

theorem stripSuffix_eq_some [DecidableEq α] {suffix text rest : List α} :
    stripSuffix suffix text = some rest ↔ text = rest ++ suffix := by
  unfold stripSuffix
  constructor
  · intro h
    split at h
    · rename_i hs
      obtain ⟨pre, rfl⟩ := hs
      cases h
      simp
    · cases h
  · rintro rfl
    simp

end Mistl
