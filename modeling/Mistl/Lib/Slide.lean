import Mathlib.Order.Basic
/-!
# Slide — a sliding window over sequence numbers

The bitmap of an IPsec-style anti-replay window: the largest number seen, and which of the 64 numbers up to it were seen.
Whatever is accepted is refused ever after, and a number below the window is refused unseen.
-/
namespace Mistl

structure Slide where
  maxSeq : Nat
  bitmap : BitVec 64

namespace Slide

def width : Nat := 64

def new (seq : Nat) : Slide := ⟨seq, 1⟩

def accept (w : Slide) (seq : Nat) : Option Slide := if w.maxSeq < seq then
    let shift := seq - w.maxSeq
    some ⟨seq, if width ≤ shift then 1 else (w.bitmap <<< shift) ||| 1⟩
  else
    let offset := w.maxSeq - seq
    if width ≤ offset ∨ w.bitmap &&& ((1 : BitVec 64) <<< offset) ≠ 0 then none
    else some ⟨w.maxSeq, w.bitmap ||| ((1 : BitVec 64) <<< offset)⟩

theorem and_bit_ne_zero (b : BitVec 64) {n : Nat} (hn : n < width) : b &&& ((1 : BitVec 64) <<< n) ≠ 0 ↔ b.getLsbD n = true := by
  have hbit : (1 : BitVec 64) <<< n = BitVec.twoPow 64 n := (BitVec.twoPow_eq 64 n).symm
  have hne : BitVec.twoPow 64 n ≠ 0 := by
    intro h
    have := congrArg (fun x => BitVec.getLsbD x n) h
    simp only [BitVec.getLsbD_twoPow] at this
    rw [decide_eq_true (show n < 64 from hn)] at this
    simp at this
  rw [hbit, BitVec.and_twoPow]
  split
  · rename_i h
    exact ⟨fun _ => h, fun _ => hne⟩
  · rename_i h
    exact ⟨fun h' => absurd rfl h', fun h' => absurd h' h⟩

theorem accept_eq_none {w : Slide} {seq : Nat} :
    w.accept seq = none ↔ seq ≤ w.maxSeq ∧ (width ≤ w.maxSeq - seq ∨ w.bitmap.getLsbD (w.maxSeq - seq) = true) := by
  unfold accept
  split
  · constructor
    · intro h'; cases h'
    · rintro ⟨hle, -⟩; omega
  · rename_i h
    dsimp only
    split
    · rename_i hor
      refine ⟨fun _ => ⟨Nat.not_lt.1 h, ?_⟩, fun _ => rfl⟩
      rcases hor with hw | hbit
      · exact .inl hw
      · by_cases hw : width ≤ w.maxSeq - seq
        · exact .inl hw
        · exact .inr ((and_bit_ne_zero _ (Nat.not_le.1 hw)).1 hbit)
    · rename_i hor
      rw [not_or] at hor
      constructor
      · intro h'; cases h'
      · rintro ⟨-, hw | hbit⟩
        · exact absurd hw hor.1
        · exact absurd ((and_bit_ne_zero _ (Nat.not_le.1 hor.1)).2 hbit) hor.2

theorem new_refuses (seq : Nat) : (new seq).accept seq = none := by
  rw [accept_eq_none]
  refine ⟨Nat.le_refl _, .inr ?_⟩
  simp [new]

theorem accept_refuses {w w' : Slide} {seq : Nat} (h : w.accept seq = some w') : w'.accept seq = none := by
  rw [accept_eq_none]
  unfold accept at h
  split at h
  · cases h
    refine ⟨Nat.le_refl _, .inr ?_⟩
    split <;> simp
  · rename_i hle
    dsimp only at h
    split at h
    · cases h
    · rename_i hor
      rw [not_or] at hor
      have hlt : w.maxSeq - seq < 64 := Nat.not_le.1 hor.1
      cases h
      refine ⟨Nat.not_lt.1 hle, .inr ?_⟩
      simp [hlt]

theorem refuses_mono {w w' : Slide} {seq x : Nat} (h : w.accept seq = some w') (hx : w.accept x = none) : w'.accept x = none := by
  rw [accept_eq_none] at hx ⊢
  obtain ⟨hle, hx⟩ := hx
  unfold accept at h
  split at h
  · rename_i hlt
    cases h
    refine ⟨Nat.le_trans hle (Nat.le_of_lt hlt), ?_⟩
    by_cases hw : width ≤ seq - x
    · exact .inl hw
    · have hshift : ¬width ≤ seq - w.maxSeq := by omega
      rw [if_neg hshift, BitVec.getLsbD_or]
      have hbit : w.bitmap.getLsbD (w.maxSeq - x) = true := by
        rcases hx with h1 | h1
        · omega
        · exact h1
      have hsub : seq - x - (seq - w.maxSeq) = w.maxSeq - x := by omega
      have h1 : seq - x < 64 := Nat.not_le.1 hw
      have h2 : ¬seq - x < seq - w.maxSeq := by omega
      simp [hsub, hbit, h1, h2]
  · dsimp only at h
    split at h
    · cases h
    · cases h
      refine ⟨hle, hx.imp id (fun hbit => ?_)⟩
      simp [hbit]

end Slide
end Mistl
