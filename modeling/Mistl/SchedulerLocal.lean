import Mistl.Scheduler
/-!
# SchedulerLocal — the local time of a fire

A schedule with a time of day finds its first candidate on the date that the time put off is on, by the clock, and goes on from there
by days of 24 hours.  What it fires at has the time of day wherever it does not go on, or the clock shows as much less by then as the
candidate was late.
-/
namespace Mistl.Scheduler

variable {κ : Type}

def Proper : Schedule κ → Prop
  | .weeklyOnDow _ dow hour minute => 0 ≤ dow ∧ dow < 7 ∧ hour ≤ 23 ∧ minute ≤ 59
  | .intervalAtTime _ hour minute => hour ≤ 23 ∧ minute ≤ 59
  | _ => True

/-- The local weekday and time of day are those asked for. -/
def Shows (Z : Zone) (t : Int) : Schedule κ → Prop
  | .weeklyOnDow _ dow hour minute => weekday (Z.date t) = dow ∧ (t + Z.offset t) % day = timeOfDay hour minute
  | .intervalAtTime _ hour minute => (t + Z.offset t) % day = timeOfDay hour minute
  | _ => True

namespace Clock

/-- **The condition**: where the clock has the time of day on the date aimed at, that is the date of the time put off itself, or the
offset at the first candidate and the one as many days of 24 hours later differ by the minutes that the candidate was late. -/
def Steady (k : Clock) (Z : Zone) (t : Int) : Prop :=
  ∀ bump c date, k.Chooses Z t bump c date → Z.Has (date * day + k.time) → date = k.base Z t ∨
    k.period * day ∣ Z.offset (c + (date - k.base Z t) * day) - Z.offset c + bump * minuteNs

end Clock

variable {Z : Zone} {t t' : Int} {hour minute : Nat}

/-! ## What is asked for -/

theorem parseDow_lt {s : List Char} {dow : Int} (h : parseDow s = some dow) : 0 ≤ dow ∧ dow < 7 := by
  obtain ⟨i, hi, rfl⟩ := Option.map_eq_some_iff.1 h
  obtain ⟨hlt, -⟩ := List.findIdx?_eq_some_iff_getElem.1 hi
  exact ⟨Int.natCast_nonneg i, Int.ofNat_lt.2 hlt⟩

theorem parseHhmm_le {s : List Char} (h : parseHhmm s = some (hour, minute)) : hour ≤ 23 ∧ minute ≤ 59 := by
  obtain ⟨⟨hh, mm⟩, -, h⟩ := Option.bind_eq_some_iff.1 h
  obtain ⟨⟨-, -, -, h1, h2⟩, heq⟩ := Option.ite_none_right_eq_some.1 h
  obtain ⟨rfl, rfl⟩ := Prod.mk.inj (Option.some.inj heq)
  exact ⟨h1, h2⟩

/-- **A schedule that was read asks for a weekday and a time of day.** -/
theorem parse_proper (C : Cron) {expr : String} {schedule : Schedule C.Expr} (h : parse C expr = .ok schedule) : Proper schedule := by
  unfold parse at h
  dsimp only at h
  split at h
  · cases h
  split at h
  · unfold parseEvery at h
    split at h
    · obtain ⟨weeks, -, h⟩ := okOr_bind_eq_ok.1 h
      obtain ⟨dow, hdow, h⟩ := okOr_bind_eq_ok.1 h
      obtain ⟨⟨hour, minute⟩, hhm, h⟩ := okOr_bind_eq_ok.1 h
      cases h
      exact ⟨(parseDow_lt hdow).1, (parseDow_lt hdow).2, parseHhmm_le hhm⟩
    · obtain ⟨_, -, h⟩ := okOr_bind_eq_ok.1 h
      obtain ⟨⟨hour, minute⟩, hhm, h⟩ := okOr_bind_eq_ok.1 h
      obtain ⟨_, -, h⟩ := bind_eq_ok.1 h
      cases h
      exact parseHhmm_le hhm
    · split at h
      · obtain ⟨_, -, h⟩ := bind_eq_ok.1 h
        cases h
        trivial
      · obtain ⟨_, -, h⟩ := okOr_bind_eq_ok.1 h
        obtain ⟨_, -, h⟩ := bind_eq_ok.1 h
        obtain ⟨_, -, h⟩ := bind_eq_ok.1 h
        obtain ⟨_, -, h⟩ := bind_eq_ok.1 h
        obtain ⟨_, -, h⟩ := bind_eq_ok.1 h
        obtain ⟨_, -, h⟩ := bind_eq_ok.1 h
        split at h
        · cases h
        · cases h
          trivial
    · cases h
  · obtain ⟨_, -, h⟩ := okOr_bind_eq_ok.1 h
    cases h
    trivial

/-! ## The time of day, after some days of 24 hours -/

variable {k : Clock} {bump : Nat} {c date : Int}

/-- A candidate on the date aimed at is not late, where the clock has the time of day there. -/
theorem Clock.Chooses.bump_eq (h : k.Chooses Z t bump c (k.base Z t)) (hhas : Z.Has (k.base Z t * day + k.time)) : bump = 0 := by
  by_contra hne
  refine h.reaches.skipped 0 (Nat.pos_of_ne_zero hne) ?_
  rw [Int.natCast_zero, Int.zero_mul, Int.add_zero]
  exact hhas

theorem Clock.Chooses.level (h : k.Chooses Z t bump c (k.base Z t)) (hhas : Z.Has (k.base Z t * day + k.time)) :
    Z.offset (c + (k.base Z t - k.base Z t) * day) - Z.offset c + bump * minuteNs = 0 := by
  rw [h.bump_eq hhas, Int.sub_self, Int.zero_mul, Int.add_zero]
  omega

end Mistl.Scheduler
