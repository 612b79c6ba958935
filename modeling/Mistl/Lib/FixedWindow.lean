import Mathlib.Data.List.Basic
import Mathlib.Data.Nat.Basic
import Mathlib.Tactic.Common
/-!
# FixedWindow — how fast a fixed-window limiter lets events through

A window has a start and a count, and is replaced by a fresh one once it is `width` old.  The times of the events that were
charged to it and to the windows before it are `Paced`: from any of them on there are at most `limit` for each window that started
since, and those of the last one.
-/
open List

namespace Mistl

structure Window where
  start : Nat
  count : Nat

namespace Window

def fresh (now : Nat) : Window := ⟨now, 0⟩

def expired (width : Nat) (w : Window) (now : Nat) : Bool := decide (width ≤ now - w.start)

def refresh (width : Nat) (w : Window) (now : Nat) : Window := if w.expired width now then fresh now else w

def charge (w : Window) : Window := { w with count := w.count + 1 }

variable {limit width now n t : Nat} {w : Window} {times : List Nat}

theorem refresh_start_le (hnow : w.start ≤ now) : (w.refresh width now).start ≤ now := by
  unfold refresh
  split
  · exact Nat.le_refl _
  · exact hnow

theorem refresh_expired (hwidth : 0 < width) : (w.refresh width now).expired width now = false := by
  unfold refresh
  split
  · exact decide_eq_false (by show ¬width ≤ now - now; omega)
  · rename_i hfresh
    exact Bool.eq_false_iff.2 hfresh

/-- **The events charged to a window and to those before it.** -/
structure Paced (limit width : Nat) (w : Window) (times : List Nat) : Prop where
  count : w.count ≤ limit
  before : ∀ t ∈ times, t < w.start + width
  since : ∀ pre t post, times = pre ++ t :: post →
    post.length + 1 ≤ w.count + if t < w.start then limit * ((w.start - t) / width + 1) else 0

theorem Paced.fresh (limit width now : Nat) : Paced limit width (fresh now) [] :=
  ⟨Nat.zero_le _, nofun, fun _ _ _ hs => absurd hs.symm (by simp)⟩

theorem Paced.tail (h : Paced limit width w (t :: times)) : Paced limit width w times :=
  ⟨h.count, fun x hx => h.before x (mem_cons_of_mem _ hx), fun pre x post hs => h.since (t :: pre) x post (by rw [hs, cons_append])⟩

theorem Paced.refresh (hwidth : 0 < width) (h : Paced limit width w times) : Paced limit width (w.refresh width now) times := by
  unfold Window.refresh
  split
  · rename_i hexpired
    have hold : width ≤ now - w.start := of_decide_eq_true hexpired
    refine ⟨Nat.zero_le _, fun t ht => ?_, fun pre t post hs => ?_⟩
    · have := h.before t ht
      show t < now + width
      omega
    · have hcount := h.count
      have hbefore := h.before t (hs ▸ mem_append_right _ mem_cons_self)
      have hsince := h.since pre t post hs
      show post.length + 1 ≤ 0 + if t < now then limit * ((now - t) / width + 1) else 0
      rw [if_pos (by omega)]
      split at hsince
      · -- one window more than the last one had behind it
        have hstep : (w.start - t) / width + 1 ≤ (now - t) / width := by
          rw [← Nat.add_div_right _ hwidth]
          exact Nat.div_le_div_right (by omega)
        have hmul := Nat.mul_le_mul_left limit hstep
        rw [Nat.mul_add]
        omega
      · have : limit ≤ limit * ((now - t) / width + 1) := Nat.le_mul_of_pos_right _ (Nat.succ_pos _)
        omega
  · exact h

theorem Paced.charge_other (h : Paced limit width w times) (hcount : w.count < limit) : Paced limit width w.charge times :=
  ⟨hcount, h.before, fun pre t post hs => Nat.le_trans (h.since pre t post hs) (Nat.add_le_add_right (Nat.le_succ _) _)⟩

theorem Paced.charge (h : Paced limit width w times) (hcount : w.count < limit) (hfresh : w.expired width now = false) :
    Paced limit width w.charge (times ++ [now]) := by
  have hnow : now < w.start + width := by
    have := of_decide_eq_false hfresh
    omega
  refine ⟨hcount, fun t ht => ?_, fun pre t post hs => ?_⟩
  · rcases mem_append.1 ht with ht | ht
    · exact h.before t ht
    · rw [mem_singleton.1 ht]
      exact hnow
  · rcases eq_nil_or_concat post with rfl | ⟨post, x, rfl⟩
    · exact Nat.le_trans (Nat.succ_le_succ (Nat.zero_le _)) (Nat.le_add_right _ _)
    · rw [concat_eq_append, ← cons_append, ← append_assoc] at hs
      have hsince := h.since pre t post (append_inj_left' hs rfl)
      rw [concat_eq_append, length_append]
      show post.length + 1 + 1 ≤ w.count + 1 + if t < w.start then limit * ((w.start - t) / width + 1) else 0
      omega

theorem Paced.old (h : Paced limit width w (t :: times)) (hmany : limit * (n + 1) < times.length + 1) : t + n * width ≤ w.start := by
  have hcount := h.count
  have hsince := h.since [] t times rfl
  split at hsince
  · have hle : limit * (n + 1) < limit * ((w.start - t) / width + 2) := by
      rw [Nat.mul_succ limit (_ + 1)]
      omega
    have hq : n ≤ (w.start - t) / width := by
      have := Nat.lt_of_mul_lt_mul_left hle
      omega
    have := Nat.le_trans (Nat.mul_le_mul_right width hq) (Nat.div_mul_le_self _ _)
    omega
  · have : limit ≤ limit * (n + 1) := Nat.le_mul_of_pos_right _ (Nat.succ_pos _)
    omega

end Window
end Mistl
