import Mathlib.Algebra.Group.Nat.Defs
import Mathlib.Order.Basic
/-!
# Machine — unsigned 64-bit arithmetic on naturals

A machine word is the natural it denotes; an operation that would leave the range says what it does instead.
-/
namespace Mistl

def u64Max : Nat := 2 ^ 64 - 1

def satAdd (a b : Nat) : Nat := min (a + b) u64Max

def checkedAdd (a b : Nat) : Option Nat := if a + b ≤ u64Max then some (a + b) else none

theorem satAdd_of_le {a b : Nat} (h : a + b ≤ u64Max) : satAdd a b = a + b := Nat.min_eq_left h

theorem checkedAdd_eq_some {a b c : Nat} : checkedAdd a b = some c ↔ a + b = c ∧ c ≤ u64Max := by
  unfold checkedAdd
  split
  · constructor
    · intro h; cases h; exact ⟨rfl, by assumption⟩
    · rintro ⟨rfl, -⟩; rfl
  · constructor
    · intro h; cases h
    · rintro ⟨rfl, h⟩; contradiction

end Mistl
