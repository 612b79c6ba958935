import Mistl.ConsensusMembership
import Mistl.EscrowReplay
/-!
# ReplayWindows — the two replay windows accept the same numbers

`ReplayWindow` of `consensus/membership.rs` and `Window` of `escrow/replication/wire.rs`, within one boot.
-/
open List

namespace Mistl
namespace Slide

variable {accepted : List Nat}

/-- The window holds what was accepted: its largest number, and the bit of each number less than the width below it. -/
structure Holds (w : Slide) (accepted : List Nat) : Prop where
  mem : w.maxSeq ∈ accepted
  le : ∀ x ∈ accepted, x ≤ w.maxSeq
  bit : ∀ k < width, k ≤ w.maxSeq → (w.bitmap.getLsbD k = true ↔ w.maxSeq - k ∈ accepted)

theorem getLsbD_one (k : Nat) : (1 : BitVec 64).getLsbD k = true ↔ k = 0 := by simp

theorem Holds.new (seq : Nat) : (new seq).Holds [seq] where
  mem := mem_singleton_self _
  le x hx := (mem_singleton.1 hx).le
  bit k _ hle := by
    dsimp only [Slide.new] at hle ⊢
    rw [getLsbD_one, mem_singleton]
    omega

/-- A number is refused at once when it is accepted already, or as far below the largest as the window is wide. -/
theorem Holds.accept_eq_none {w : Slide} (h : w.Holds accepted) (seq : Nat) :
    w.accept seq = none ↔ seq ≤ w.maxSeq ∧ (width ≤ w.maxSeq - seq ∨ seq ∈ accepted) := by
  rw [Slide.accept_eq_none]
  refine and_congr_right fun hle => or_congr_right' fun hw => ?_
  rw [h.bit _ (Nat.not_le.1 hw) (Nat.sub_le _ _), Nat.sub_sub_self hle]

theorem Holds.accept {w w' : Slide} {seq : Nat} (h : w.Holds accepted) (hs : w.accept seq = some w') : w'.Holds (seq :: accepted) := by
  unfold Slide.accept at hs
  split at hs
  · rename_i hlt
    cases hs
    refine ⟨mem_cons_self, forall_mem_cons.2 ⟨Nat.le_refl _, fun x hx => (h.le x hx).trans hlt.le⟩, fun k hk hle => ?_⟩
    dsimp only at hle ⊢
    have habove : k < seq - w.maxSeq → seq - k ∉ accepted := fun hlow hmem => by
      have := h.le _ hmem
      omega
    have heq : seq - k = seq ↔ k = 0 := by omega
    rw [mem_cons, heq]
    unfold width at *
    split
    · rw [getLsbD_one]
      exact (or_iff_left (habove (by omega))).symm
    · rw [BitVec.getLsbD_or, BitVec.getLsbD_shiftLeft, Bool.or_eq_true, or_comm]
      by_cases hlow : k < seq - w.maxSeq
      · simp [hlow, habove hlow]
      · have hbit := h.bit (k - (seq - w.maxSeq)) (by unfold width; omega) (by omega)
        rw [show w.maxSeq - (k - (seq - w.maxSeq)) = seq - k by omega] at hbit
        simp [hlow, hk, ← hbit]
  · rename_i hle
    dsimp only at hs
    split at hs
    · cases hs
    · rename_i hor
      rw [not_or] at hor
      cases hs
      refine ⟨mem_cons_of_mem _ h.mem, forall_mem_cons.2 ⟨Nat.not_lt.1 hle, h.le⟩, fun k hk hkle => ?_⟩
      have heq : w.maxSeq - k = seq ↔ w.maxSeq - seq = k := by
        have : k ≤ w.maxSeq := hkle
        omega
      unfold width at *
      rw [mem_cons, heq, ← h.bit k hk hkle]
      rw [BitVec.getLsbD_or, show (1 : BitVec 64) <<< (w.maxSeq - seq) = .twoPow 64 (w.maxSeq - seq) from
        (BitVec.twoPow_eq 64 _).symm, BitVec.getLsbD_twoPow, or_comm]
      simp [Nat.not_le.1 hor.1]

end Slide

/-- What is decided about each of a sequence of messages -/
def decisions {σ α : Type} (accept : σ → α → Option σ) : σ → List α → List Bool
  | _, [] => []
  | w, m :: ms => match accept w m with
    | some w' => true :: decisions accept w' ms
    | none => false :: decisions accept w ms

/-- A number greater than all accepted, or one not accepted that is less than 64 below the greatest -/
def admits (accepted : List Nat) (seq : Nat) : Bool :=
  accepted.all (fun x => decide (x < seq)) || (!accepted.contains seq && accepted.all (fun x => decide (x < seq + 64)))

def admitted : List Nat → List Nat → List Bool
  | _, [] => []
  | accepted, seq :: seqs => admits accepted seq :: admitted (if admits accepted seq then seq :: accepted else accepted) seqs

theorem admits_eq {w : Slide} (h : w.Holds accepted) (seq : Nat) : admits accepted seq = (w.accept seq).isSome := by
  have hmax : ∀ n, accepted.all (fun x => decide (x < n)) = true ↔ w.maxSeq < n := fun n => by
    rw [List.all_eq_true]
    exact ⟨fun hall => of_decide_eq_true (hall _ h.mem), fun hlt x hx => decide_eq_true ((h.le x hx).trans_lt hlt)⟩
  rw [Bool.eq_iff_iff, admits, Bool.or_eq_true, Bool.and_eq_true, hmax, hmax, Option.isSome_iff_ne_none, ne_eq, h.accept_eq_none]
  have hmem : seq ∈ accepted → seq ≤ w.maxSeq := h.le seq
  simp only [Bool.not_eq_true', contains_eq_mem, decide_eq_false_iff_not, Slide.width]
  by_cases hs : seq ∈ accepted
  · simp only [hs, not_true_eq_false, false_and, or_false, or_true, and_true]
    omega
  · simp only [hs, not_false_eq_true, true_and, or_false]
    omega

theorem decisions_eq {σ : Type} {accept : σ → Nat × Nat → Option σ} (slide : σ → Slide) {inv : σ → Prop}
    (haccept : ∀ {w} m, inv w → (accept w m).map slide = (slide w).accept m.1 ∧ ∀ w' ∈ accept w m, inv w') :
    ∀ (ms : List (Nat × Nat)) {w : σ} {accepted : List Nat}, inv w → (slide w).Holds accepted →
      decisions accept w ms = admitted accepted (ms.map Prod.fst)
  | [], _, _, _, _ => rfl
  | m :: ms, w, accepted, hw, h => by
    obtain ⟨hm, hinv⟩ := haccept m hw
    rw [map_cons, admitted, admits_eq h, ← hm, decisions]
    cases hs : accept w m with
    | none =>
      rw [decisions_eq slide haccept ms hw h]
      rfl
    | some w' =>
      rw [hs] at hm
      dsimp only
      rw [decisions_eq slide haccept ms (hinv w' hs) (h.accept hm.symm)]
      rfl

/-- Both windows, from the first message of a boot, accept the numbers that the same rule admits. -/
theorem windows_agree (boot seq tsMs : Nat) (ms : List (Nat × Nat)) :
    decisions (fun (w : Consensus.ReplayWindow) m => w.accept boot m.1 m.2) (.new boot seq tsMs) ms = admitted [seq] (ms.map Prod.fst) ∧
      decisions (fun (w : Escrow.ReplayWindow) m => w.accept m.1 m.2) ⟨.new seq, tsMs⟩ ms = admitted [seq] (ms.map Prod.fst) := by
  constructor
  · refine @decisions_eq _ _ Consensus.ReplayWindow.slide (fun w => w.boot = boot) (fun {w} m hw => ?_) ms _ _ rfl (.new seq)
    rw [Consensus.ReplayWindow.accept, if_neg (not_not.2 hw.symm), Option.map_map]
    refine ⟨Option.map_id', fun w' hs => ?_⟩
    obtain ⟨slide, -, rfl⟩ := Option.mem_map.1 hs
    exact hw
  · refine @decisions_eq _ _ Escrow.ReplayWindow.slide (fun _ => True) (fun m _ => ⟨?_, fun _ _ => trivial⟩) ms _ _ trivial (.new seq)
    rw [Escrow.ReplayWindow.accept, Option.map_map]
    exact Option.map_id'

end Mistl
