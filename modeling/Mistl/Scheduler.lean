import Mistl.FolderPaths
import Mistl.NostrStore
import Mathlib.Data.Int.LeastGreatest
import Mathlib.Tactic.Linarith
/-!
# Scheduler — what a schedule expression means, and when it fires next

`scheduler/schedule.rs`.  Instants are nanoseconds, those of a `DateTime` between two dates.  The zone gives each instant its
offset from UTC, and `atLocal` the first instant of a local time; the `cron` crate reads and follows the expressions that are its
own.  Sums of 64 bits wrap, as in the release profile.
-/
open List

namespace Mistl.Scheduler

open Authz (isWhitespace splitWhitespace)
open Folder (trim)

def second : Int := 1000000000

def minuteNs : Int := 60 * second

def day : Int := 1440 * minuteNs

/-! ## The environment -/

/-- `NaiveDate::MIN` and `NaiveDate::MAX`, in days from 1970 -/
def firstDate : Int := -96465292

def lastDate : Int := 95026236

def InCalendar (date : Int) : Prop := firstDate ≤ date ∧ date ≤ lastDate

/-- The instants of a `DateTime` -/
def InRange (t : Int) : Prop := firstDate * day ≤ t ∧ t < (lastDate + 1) * day

instance (date : Int) : Decidable (InCalendar date) := by
  unfold InCalendar
  infer_instance

instance (t : Int) : Decidable (InRange t) := by
  unfold InRange
  infer_instance

/-- `t` is the first instant at which a clock with these offsets shows `l`, and each of them is one of a `DateTime`. -/
def FirstAt (offset : Int → Int) (l t : Int) : Prop := t + offset t = l ∧ ∀ u, u + offset u = l → t ≤ u ∧ InRange u

structure Zone where
  offset : Int → Int
  atLocal : Int → Option Int
  offset_lt : ∀ t, -day < offset t ∧ offset t < day
  atLocal_iff : ∀ {l t}, atLocal l = some t ↔ FirstAt offset l t

structure Cron where
  Expr : Type
  fromStr : List Char → Option Expr
  after : Expr → Int → Option Int
  lt_of_after : ∀ {e t t'}, after e t = some t' → t < t'

/-- **Every function of offsets is a zone's.** -/
theorem exists_zone {offset : Int → Int} (h : ∀ t, -day < offset t ∧ offset t < day) : ∃ Z : Zone, Z.offset = offset := by
  classical
  refine ⟨⟨offset, fun l => if hl : ∃ t, FirstAt offset l t then some hl.choose else none, h, fun {l t} => ?_⟩, rfl⟩
  constructor
  · intro heq
    split at heq
    · rename_i hl
      exact Option.some.inj heq ▸ hl.choose_spec
    · cases heq
  · intro ht
    have hl : ∃ t, FirstAt offset l t := ⟨t, ht⟩
    rw [dif_pos hl]
    have hchosen := hl.choose_spec
    exact congrArg some (Int.le_antisymm (hchosen.2 t ht.1).1 (ht.2 _ hchosen.1).1)

/-! ## Parsing -/

inductive Fault where
  | refused | panicked
  deriving DecidableEq

inductive Schedule (κ : Type) where
  | weeklyOnDow (weeks : Int) (dow : Int) (hour minute : Nat)
  | intervalAtTime (interval : Int) (hour minute : Nat)
  | interval (interval : Int)
  | cron (schedule : κ)

/-- What 64 bits hold of a number -/
def i64 (n : Int) : Int := n.bmod (2 ^ 64)

/-- `Duration::days` and its like: the range of a duration is that of 64 bits of milliseconds. -/
def duration (unit n : Int) : Except Fault Int :=
  if -(2 ^ 63 - 1) * 1000000 ≤ n * unit ∧ n * unit ≤ (2 ^ 63 - 1) * 1000000 then .ok (n * unit) else .error .panicked

/-- The loop of `parse_unit_pairs` -/
def unitPairs : Nat → List Char → Option (List (Nat × Char))
  | _, [] => some []
  | 0, _ => none
  | fuel + 1, cs =>
    let digits := cs.takeWhile Char.isDigit
    match cs.dropWhile Char.isDigit with
    | [] => none
    | unit :: rest =>
      let number := digits.foldl (fun n c => 10 * n + (c.toNat - 48)) 0
      if digits = [] ∨ 2 ^ 63 ≤ number then none else (unitPairs fuel rest).map ((number, unit.toLower) :: ·)

def parseUnitPairs (s : List Char) : Option (List (Nat × Char)) := if trim s = [] then none else unitPairs (trim s).length (trim s)

def parseWeeksOnly (s : List Char) : Option Nat :=
  match parseUnitPairs s with
  | some [(n, 'w')] => some n
  | _ => none

/-- The loop of `parse_week_day` and `parse_hms`: each unit at most once, no other -/
def units : List Char → List (Nat × Char) → Option (Char → Nat)
  | _, [] => some (fun _ => 0)
  | allowed, (n, unit) :: pairs =>
    if unit ∈ allowed then (units (allowed.erase unit) pairs).map (fun f c => if c = unit then n else f c) else none

def parseWeekDay (s : List Char) : Option (Nat × Nat) :=
  (parseUnitPairs s).bind fun pairs => (units ['w', 'd'] pairs).map fun f => (f 'w', f 'd')

def parseHms (s : List Char) : Option (Nat × Nat × Nat) :=
  (parseUnitPairs s).bind fun pairs => (units ['h', 'm', 's'] pairs).map fun f => (f 'h', f 'm', f 's')

/-- The days from Monday -/
def parseDow (s : List Char) : Option Int :=
  (["mon", "tue", "wed", "thu", "fri", "sat", "sun"].findIdx? (fun name => name.toList == s.map Char.toLower)).map Int.ofNat

def parseHhmm (s : List Char) : Option (Nat × Nat) := (Nostr.splitOnce ':' s).bind fun (h, m) =>
    let number := List.foldl (fun n c => 10 * n + (c.toNat - 48)) 0
    if h ≠ [] ∧ m.length = 2 ∧ (h ++ m).all Char.isDigit ∧ number h ≤ 23 ∧ number m ≤ 59 then some (number h, number m) else none

def parseEvery {κ : Type} (rest : List Char) : Except Fault (Schedule κ) :=
  match splitWhitespace rest with
  | [a, b, c] => do
    let weeks ← okOr (parseWeeksOnly a) .refused
    let dow ← okOr (parseDow b) .refused
    let (hour, minute) ← okOr (parseHhmm c) .refused
    .ok (.weeklyOnDow weeks dow hour minute)
  | [a, b] => do
    let (weeks, days) ← okOr (parseWeekDay a) .refused
    let (hour, minute) ← okOr (parseHhmm b) .refused
    .ok (.intervalAtTime (← duration day (i64 (i64 (weeks * 7) + days))) hour minute)
  | [a] =>
    match parseWeekDay a with
    | some (weeks, days) => do
      .ok (.interval (← duration day (i64 (i64 (weeks * 7) + days))))
    | none => do
      let (h, m, s) ← okOr (parseHms a) .refused
      let h ← duration (60 * minuteNs) h
      let m ← duration minuteNs m
      let hm ← duration 1 (h + m)
      let interval ← duration 1 (hm + (← duration second s))
      if interval ≤ 0 then .error .refused else .ok (.interval interval)
  | _ => .error .refused

/-- `parse::<u8>()` -/
def parseU8 (tok : List Char) : Option Nat :=
  let digits := if tok.head? = some '+' then tok.tail else tok
  let n := digits.foldl (fun n c => 10 * n + (c.toNat - 48)) 0
  if digits ≠ [] ∧ digits.all Char.isDigit ∧ n ≤ 255 then some n else none

def mapNum (tok : List Char) : List Char :=
  match parseU8 tok with
  | some n => if n ≤ 7 then Nat.toDigits 10 (n % 7 + 1) else tok
  | none => tok

def mapRange (range : List Char) : List Char := ['-'].intercalate ((range.splitOn '-').map mapNum)

def rewritePart (part : List Char) : List Char :=
  match Nostr.splitOnce '/' part with
  | some (range, step) => mapRange range ++ '/' :: step
  | none => mapRange part

def rewriteDowField (field : List Char) : List Char := [','].intercalate ((field.splitOn ',').map rewritePart)

def parseCron (C : Cron) (expr : List Char) : Except Fault (Schedule C.Expr) := do
  let fields := splitWhitespace expr
  let fields := if fields.length = 5 then ['0'] :: fields else fields
  let fields := if fields.length = 6 then fields.set 5 (rewriteDowField (fields.getD 5 [])) else fields
  .ok (.cron (← okOr (C.fromStr ([' '].intercalate fields)) .refused))

def stripEveryPrefix (expr : List Char) : Option (List Char) := if (expr.take 6).map Char.toLower = "@every".toList then
    match expr.drop 6 with
    | [] => some []
    | c :: rest => if isWhitespace c then some (trim (c :: rest)) else none
  else none

def descriptorCron (lower : String) : Option String :=
  match lower with
  | "@hourly" => some "0 0 * * * *"
  | "@daily" | "@midnight" => some "0 0 0 * * *"
  | "@weekly" => some "0 0 0 * * SUN"
  | "@monthly" => some "0 0 0 1 * *"
  | "@yearly" | "@annually" => some "0 0 0 1 1 *"
  | _ => none

def parse (C : Cron) (expr : String) : Except Fault (Schedule C.Expr) :=
  let trimmed := trim expr.toList
  if trimmed = [] then .error .refused
  else match stripEveryPrefix trimmed with
    | some rest => parseEvery rest
    | none => parseCron C (((descriptorCron (String.ofList (trimmed.map Char.toLower))).map String.toList).getD trimmed)

/-! ## The next time -/

/-- `DateTime + Duration` -/
def plus (t d : Int) : Except Fault Int := if InRange (t + d) then .ok (t + d) else .error .panicked

variable (Z : Zone)

def Zone.date (t : Int) : Int := (t + Z.offset t) / day

def dateNaive (t : Int) : Except Fault Int := if InCalendar (Z.date t) then .ok (Z.date t) else .error .panicked

/-- The days from Monday; the first day of all was a Thursday. -/
def weekday (date : Int) : Int := (date + 3) % 7

def localAt (date : Int) (hour minute : Nat) : Option Int :=
  (((List.range 180).map (fun bump => hour * 60 + minute + bump)).takeWhile (fun total => decide (total / 60 ≤ 23))).findSome?
    (fun total : Nat => Z.atLocal (date * day + total * minuteNs))

def nextAfterWeeklyOnDow (t weeks dow : Int) (hour minute : Nat) : Except Fault (Option Int) := do
  let minTime ← plus t (← duration day (i64 (weeks * 7)))
  match localAt Z (← dateNaive Z minTime) hour minute with
  | none => .ok none
  | some candidate =>
    let candidate ← plus candidate ((dow - weekday (Z.date candidate)) % 7 * day)
    let candidate ← (if candidate ≤ t then plus candidate (7 * day) else .ok candidate)
    .ok (some candidate)

def nextAfterIntervalAtTime (t interval : Int) (hour minute : Nat) : Except Fault (Option Int) := do
  let base ← plus t interval
  match localAt Z (← dateNaive Z base) hour minute with
  | none => .ok none
  | some next => do
    let next ← (if next ≤ t then plus next day else .ok next)
    .ok (some next)

def nextAfter (C : Cron) (t : Int) : Schedule C.Expr → Except Fault (Option Int)
  | .weeklyOnDow weeks dow hour minute => nextAfterWeeklyOnDow Z t weeks dow hour minute
  | .intervalAtTime interval hour minute => nextAfterIntervalAtTime Z t interval hour minute
  | .interval interval => do .ok (some (← plus t interval))
  | .cron schedule => .ok (C.after schedule t)

/-! ## What the clock shows -/

/-- The clock shows a local time, and only at instants of a `DateTime`. -/
def Zone.Has (l : Int) : Prop := (∃ u, u + Z.offset u = l) ∧ ∀ u, u + Z.offset u = l → InRange u

def timeOfDay (hour minute : Nat) : Int := (hour * 60 + minute : Nat) * minuteNs

/-- From a time of day of a date on, the clock comes to show a minute `bump` minutes later, within three hours and on the same
date; at `c` for the first time. -/
structure Reaches (date : Int) (hour minute bump : Nat) (c : Int) : Prop where
  soon : bump < 180
  sameDate : hour * 60 + minute + bump < 1440
  first : FirstAt Z.offset (date * day + timeOfDay hour minute + bump * minuteNs) c
  skipped : ∀ b : Nat, b < bump → ¬Z.Has (date * day + timeOfDay hour minute + b * minuteNs)

variable {Z} {t t' date : Int} {hour minute : Nat}

theorem Zone.date_le (Z : Zone) (t : Int) : Z.date t * day ≤ t + Z.offset t ∧ t + Z.offset t < Z.date t * day + day := by
  have hpos : (0 : Int) < day := by decide
  have h := Int.emod_add_mul_ediv (t + Z.offset t) day
  have hnn := Int.emod_nonneg (t + Z.offset t) hpos.ne'
  have hlt := Int.emod_lt_of_pos (t + Z.offset t) hpos
  rw [Zone.date, Int.mul_comm]
  omega

theorem Zone.has_iff {l : Int} : Z.Has l ↔ ∃ t, FirstAt Z.offset l t := by
  constructor
  · rintro ⟨⟨u, hu⟩, hrange⟩
    have hbelow : ∀ v, v + Z.offset v = l → l - day ≤ v := fun v hv => by
      have := (Z.offset_lt v).2
      omega
    obtain ⟨t, ht, hfirst⟩ := Int.exists_least_of_bdd ⟨l - day, hbelow⟩ ⟨u, hu⟩
    exact ⟨t, ht, fun v hv => ⟨hfirst v hv, hrange v hv⟩⟩
  · rintro ⟨t, ht, hfirst⟩
    exact ⟨⟨t, ht⟩, fun u hu => (hfirst u hu).2⟩

theorem atLocal_eq_none {l : Int} : Z.atLocal l = none ↔ ¬Z.Has l := by
  rw [Zone.has_iff, Option.eq_none_iff_forall_ne_some, not_exists]
  exact forall_congr' fun t => not_congr Z.atLocal_iff

theorem localTime_eq (date : Int) (hour minute b : Nat) : date * day + ((hour * 60 + minute + b : Nat) : Int) * minuteNs =
    date * day + timeOfDay hour minute + b * minuteNs := by
  rw [timeOfDay, Nat.cast_add (hour * 60 + minute) b, Int.add_mul, Int.add_assoc]

theorem takeWhile_range (k : Nat) : ∀ n, (List.range n).takeWhile (fun i => decide (i < k)) = List.range (min n k) := by
  intro n
  rcases Nat.lt_or_ge k n with hlt | hle
  swap
  · rw [Nat.min_eq_left hle, takeWhile_eq_self_iff]
    exact fun i hi => decide_eq_true ((List.mem_range.1 hi).trans_le hle)
  · obtain ⟨m, rfl⟩ := Nat.exists_eq_add_of_lt hlt
    rw [Nat.min_eq_right hlt.le, Nat.add_assoc, range_add, takeWhile_append_of_pos fun i hi =>
      decide_eq_true (List.mem_range.1 hi), range_succ_eq_map, map_cons, takeWhile_cons_of_neg (by simp),
      append_nil]

/-- **`local_at` finds the first minute that the clock comes to show.** -/
theorem localAt_iff : localAt Z date hour minute = some t ↔ ∃ bump, Reaches Z date hour minute bump t := by
  have hlist : ((List.range 180).map (fun bump => hour * 60 + minute + bump)).takeWhile (fun total => decide (total / 60 ≤ 23)) =
      (List.range (min 180 (1440 - (hour * 60 + minute)))).map (fun bump => hour * 60 + minute + bump) := by
    rw [takeWhile_map, ← takeWhile_range]
    refine congrArg _ (congrArg (fun p => List.takeWhile p _) (funext fun bump => decide_eq_decide.2 ?_))
    show (hour * 60 + minute + bump) / 60 ≤ 23 ↔ _
    omega
  unfold localAt
  rw [hlist, findSome?_map, findSome?_eq_some_iff]
  simp only [Function.comp_apply, localTime_eq, Z.atLocal_iff, atLocal_eq_none]
  constructor
  · rintro ⟨before, bump, after, heq, hfirst, hskipped⟩
    have hlt : before.length < min 180 (1440 - (hour * 60 + minute)) := by
      have := congrArg List.length heq
      rw [length_range, length_append, length_cons] at this
      omega
    have hbump : before.length = bump := by
      have := congrArg (fun l => l[before.length]?) heq
      simp only [getElem?_append_right (Nat.le_refl _), Nat.sub_self, getElem?_range hlt] at this
      exact Option.some.inj this
    have hbefore : before = List.range bump := by
      have := congrArg (List.take before.length) heq
      rwa [take_left, take_range, Nat.min_eq_left hlt.le, hbump, eq_comm] at this
    rw [hbefore] at hskipped
    exact ⟨bump, by omega, by omega, hfirst, fun b hb => hskipped b (List.mem_range.2 hb)⟩
  · rintro ⟨bump, hsoon, hdate, hfirst, hskipped⟩
    obtain ⟨m, hm⟩ := Nat.exists_eq_add_of_lt (show bump < min 180 (1440 - (hour * 60 + minute)) by omega)
    refine ⟨List.range bump, bump, (List.range m).map (fun i => bump + (i + 1)), ?_, hfirst, fun b hb => hskipped b (List.mem_range.1 hb)⟩
    rw [hm, Nat.add_assoc, range_add, range_succ_eq_map, map_cons, map_map]
    rfl

theorem Reaches.date_eq {bump : Nat} {c : Int} (h : Reaches Z date hour minute bump c) : Z.date c = date := by
  have hlocal := h.first.1
  have hday := h.sameDate
  rw [Zone.date, hlocal]
  unfold timeOfDay day minuteNs second
  omega

theorem Reaches.unique {bump bump' : Nat} {c c' : Int} (h : Reaches Z date hour minute bump c)
    (h' : Reaches Z date hour minute bump' c') : bump = bump' ∧ c = c' := by
  have hc : c = c' := by
    have := localAt_iff.2 ⟨bump, h⟩
    rw [localAt_iff.2 ⟨bump', h'⟩] at this
    exact (Option.some.inj this).symm
  refine ⟨?_, hc⟩
  have hlocal := h.first.1
  rw [hc, h'.first.1] at hlocal
  unfold minuteNs second at hlocal
  omega

/-! ## Schedules with a time of day -/

/-- What the two schedules with a time of day have in common: the time is put off, brought to the time of day on its date, moved by
the days to the weekday, and by a period where that is past. -/
structure Clock where
  putOff : Int
  hour : Nat
  minute : Nat
  moved : Int → Int
  period : Int
  moved_nonneg : ∀ date, 0 ≤ moved date
  period_pos : 0 < period

def Clock.time (k : Clock) : Int := timeOfDay k.hour k.minute

def weeklyClock (weeks dow : Int) (hour minute : Nat) : Clock where
  putOff := i64 (weeks * 7) * day
  hour := hour
  minute := minute
  moved date := (dow - weekday date) % 7
  period := 7
  moved_nonneg _ := Int.emod_nonneg _ (by decide)
  period_pos := by decide

def intervalClock (interval : Int) (hour minute : Nat) : Clock where
  putOff := interval
  hour := hour
  minute := minute
  moved _ := 0
  period := 1
  moved_nonneg _ := Int.le_refl 0
  period_pos := by decide

def clock {κ : Type} : Schedule κ → Option Clock
  | .weeklyOnDow weeks dow hour minute => some (weeklyClock weeks dow hour minute)
  | .intervalAtTime interval hour minute => some (intervalClock interval hour minute)
  | _ => none

namespace Clock

/-- The date of the time put off -/
def base (k : Clock) (Z : Zone) (t : Int) : Int := Z.date (t + k.putOff)

def days (k : Clock) (Z : Zone) (t c : Int) : Int :=
  if t < c + k.moved (k.base Z t) * day then k.moved (k.base Z t) else k.moved (k.base Z t) + k.period

/-- From the first candidate `c`, `bump` minutes late, the schedule goes on to a date, and no sum on the way is out of range. -/
structure Chooses (k : Clock) (Z : Zone) (t : Int) (bump : Nat) (c date : Int) : Prop where
  inRange : InRange (t + k.putOff)
  inCalendar : InCalendar (k.base Z t)
  reaches : Reaches Z (k.base Z t) k.hour k.minute bump c
  date_eq : date = k.base Z t + k.days Z t c
  fires : InRange (c + (date - k.base Z t) * day)

end Clock

theorem plus_eq_ok {t d t' : Int} : plus t d = .ok t' ↔ t' = t + d ∧ InRange (t + d) := by
  unfold plus
  split
  · rename_i h
    simp [h, eq_comm]
  · rename_i h
    simp [h]

theorem dateNaive_eq_ok {t date : Int} : dateNaive Z t = .ok date ↔ date = Z.date t ∧ InCalendar (Z.date t) := by
  unfold dateNaive
  split
  · rename_i h
    simp [h, eq_comm]
  · rename_i h
    simp [h]

theorem inRange_between {a b c : Int} (ha : InRange a) (hc : InRange c) (hab : a ≤ b) (hbc : b ≤ c) : InRange b :=
  ⟨ha.1.trans hab, hbc.trans_lt hc.2⟩

theorem duration_ok {unit n d : Int} (h : duration unit n = .ok d) : d = n * unit := by
  unfold duration at h
  split at h
  · cases h
    rfl
  · cases h

theorem duration_of_inRange {n : Int} (ht : InRange t) (hput : InRange (t + n * day)) : duration day n = .ok (n * day) := by
  have hbound : -(2 ^ 63 - 1) * 1000000 ≤ n * day ∧ n * day ≤ (2 ^ 63 - 1) * 1000000 := by
    unfold InRange firstDate lastDate at ht hput
    have : day = 86400000000000 := by decide
    omega
  exact if_pos hbound

/-- What is done with a candidate that is to be moved by some days, and by some more where it is past then. -/
theorem moved_eq_ok {c m p : Int} (hc : InRange c) (hm : 0 ≤ m) (hp : 0 < p) :
    (do let c ← plus c (m * day)
        let c ← (if c ≤ t then plus c (p * day) else .ok c)
        .ok (some c)) = (.ok (some t') : Except Fault (Option Int)) ↔
      t' = c + (if t < c + m * day then m else m + p) * day ∧ InRange t' := by
  have hday : (0 : Int) < day := by decide
  have hmove : 0 ≤ m * day := Int.mul_nonneg hm hday.le
  have hmore : 0 < p * day := Int.mul_pos hp hday
  simp only [bind_eq_ok, plus_eq_ok]
  constructor
  · rintro ⟨_, ⟨rfl, hfirst⟩, t'', h, heq⟩
    cases heq
    split at h
    · rename_i hle
      obtain ⟨rfl, hrange⟩ := plus_eq_ok.1 h
      rw [if_neg (Int.not_lt.2 hle), Int.add_mul, ← Int.add_assoc]
      exact ⟨rfl, hrange⟩
    · rename_i hlt
      cases h
      rw [if_pos (Int.not_le.1 hlt)]
      exact ⟨rfl, hfirst⟩
  · rintro ⟨rfl, hrange⟩
    by_cases hlt : t < c + m * day
    · rw [if_pos hlt] at hrange ⊢
      exact ⟨_, ⟨rfl, hrange⟩, _, if_neg (Int.not_le.2 hlt), rfl⟩
    · rw [if_neg hlt, Int.add_mul, ← Int.add_assoc] at hrange ⊢
      have hfirst : InRange (c + m * day) := inRange_between hc hrange (by omega) (by omega)
      refine ⟨_, ⟨rfl, hfirst⟩, _, ?_, rfl⟩
      rw [if_pos (Int.not_lt.1 hlt)]
      exact plus_eq_ok.2 ⟨rfl, hrange⟩

theorem reaches_inRange {bump : Nat} {c : Int} (h : Reaches Z date hour minute bump c) : InRange c := (h.first.2 c h.first.1).2

/-- **A schedule with a time of day fires on the date that it chooses**, the days on from its first candidate. -/
theorem nextAfter_clock (C : Cron) {schedule : Schedule C.Expr} {k : Clock} (hk : clock schedule = some k) (ht : InRange t) :
    nextAfter Z C t schedule = .ok (some t') ↔
      ∃ bump c date, k.Chooses Z t bump c date ∧ t' = c + (date - k.base Z t) * day := by
  -- the candidates of the two differ in how they are moved alone
  have hsame : ∀ next : Int → Except Fault (Option Int),
      (∀ bump c, Reaches Z (k.base Z t) k.hour k.minute bump c → InRange c → (next c = .ok (some t') ↔
        t' = c + k.days Z t c * day ∧ InRange t')) →
      ((do let base ← plus t k.putOff
           match localAt Z (← dateNaive Z base) k.hour k.minute with
           | none => .ok none
           | some c => next c) = (.ok (some t') : Except Fault (Option Int)) ↔
        ∃ bump c date, k.Chooses Z t bump c date ∧ t' = c + (date - k.base Z t) * day) := by
    intro next hnext
    simp only [bind_eq_ok, plus_eq_ok, dateNaive_eq_ok]
    constructor
    · rintro ⟨_, ⟨rfl, hrange⟩, _, ⟨rfl, hcalendar⟩, h⟩
      split at h
      · cases h
      · rename_i c hc
        obtain ⟨bump, hreach⟩ := localAt_iff.1 hc
        obtain ⟨heq, hfires⟩ := (hnext bump c hreach (reaches_inRange hreach)).1 h
        have hdays : k.base Z t + k.days Z t c - k.base Z t = k.days Z t c := by omega
        exact ⟨bump, c, _, ⟨hrange, hcalendar, hreach, rfl, by rw [hdays, ← heq]; exact hfires⟩, by rw [hdays, heq]⟩
    · rintro ⟨bump, c, date, h, heq⟩
      have hdays : date - k.base Z t = k.days Z t c := by
        have := h.date_eq
        omega
      refine ⟨_, ⟨rfl, h.inRange⟩, _, ⟨rfl, h.inCalendar⟩, ?_⟩
      rw [show localAt Z (Z.date (t + k.putOff)) k.hour k.minute = some c from localAt_iff.2 ⟨bump, h.reaches⟩]
      have hfires := h.fires
      rw [hdays] at heq hfires
      exact (hnext bump c h.reaches (reaches_inRange h.reaches)).2 ⟨heq, heq ▸ hfires⟩
  cases schedule with
  | weeklyOnDow weeks dow hour minute =>
    cases hk
    rw [← hsame fun c => do
      let c ← plus c ((dow - weekday (Z.date c)) % 7 * day)
      let c ← (if c ≤ t then plus c (7 * day) else .ok c)
      .ok (some c)]
    · by_cases hput : InRange (t + i64 (weeks * 7) * day)
      · rw [nextAfter, nextAfterWeeklyOnDow, duration_of_inRange ht hput]
        rfl
      · refine iff_of_false (fun h => ?_) (fun h => ?_)
        · obtain ⟨d, hd, h⟩ := bind_eq_ok.1 h
          obtain ⟨base, hbase, -⟩ := bind_eq_ok.1 h
          rw [duration_ok hd] at hbase
          exact hput (plus_eq_ok.1 hbase).2
        · obtain ⟨base, hbase, -⟩ := bind_eq_ok.1 h
          exact hput (plus_eq_ok.1 hbase).2
    · intro bump c hreach hc
      rw [hreach.date_eq]
      exact moved_eq_ok hc ((weeklyClock weeks dow hour minute).moved_nonneg _) (by decide)
  | intervalAtTime interval hour minute =>
    cases hk
    rw [← hsame fun c => do
      let c ← (if c ≤ t then plus c day else .ok c)
      .ok (some c)]
    · rfl
    · intro bump c hreach hc
      refine Iff.trans ?_ (moved_eq_ok (m := 0) (p := 1) hc (Int.le_refl 0) (by decide))
      have hstay : plus c (0 * day) = .ok c := plus_eq_ok.2 ⟨by omega, by rwa [Int.zero_mul, Int.add_zero]⟩
      rw [hstay]
      rfl
  | interval | cron => cases hk

/-! ## A schedule advances -/

/-- Put off and moved on, a time comes to lie after itself: its date is over less than so many days after its time of day. -/
def Clock.Ends (k : Clock) (Z : Zone) : Prop :=
  ∀ u bump c, InRange u → InRange (u - k.putOff) → InCalendar (Z.date u) → Reaches Z (Z.date u) k.hour k.minute bump c →
    InRange (c + (k.moved (Z.date u) + k.period) * day) → u < c + (k.moved (Z.date u) + k.period) * day + k.putOff

theorem clock_advances_iff (C : Cron) {schedule : Schedule C.Expr} {k : Clock} (hk : clock schedule = some k) :
    (∀ t t', InRange t → nextAfter Z C t schedule = .ok (some t') → t < t') ↔ k.Ends Z := by
  have hday : (0 : Int) < day := by decide
  constructor
  · intro h u bump c hu hback hcalendar hreach hrange
    have hbase : u - k.putOff + k.putOff = u := by omega
    by_cases hfirst : u - k.putOff < c + k.moved (Z.date u) * day
    · have := Int.mul_pos k.period_pos hday
      rw [Int.add_mul]
      omega
    · have hdays : k.days Z (u - k.putOff) c = k.moved (Z.date u) + k.period := by
        rw [Clock.days, Clock.base, hbase, if_neg hfirst]
      have hsub : ∀ date n : Int, date + n - date = n := fun date n => by omega
      have hfires := h (u - k.putOff) (c + (k.moved (Z.date u) + k.period) * day) hback ((nextAfter_clock C hk hback).2
        ⟨bump, c, _, ⟨by rwa [hbase], by rwa [Clock.base, hbase], by rwa [Clock.base, hbase], rfl, by rwa [hsub, hdays]⟩,
          by rw [hsub, hdays]⟩)
      omega
  · intro h t t' ht hnext
    obtain ⟨bump, c, date, hchooses, rfl⟩ := (nextAfter_clock C hk ht).1 hnext
    have hdays : date - k.base Z t = k.days Z t c := by
      have := hchooses.date_eq
      omega
    have hfires := hchooses.fires
    rw [hdays] at hfires ⊢
    unfold Clock.days at hfires ⊢
    split at hfires
    · rename_i hfirst
      rwa [if_pos hfirst]
    · rename_i hpast
      rw [if_neg hpast]
      have hback : t + k.putOff - k.putOff = t := by omega
      have := h (t + k.putOff) bump c hchooses.inRange (by rwa [hback]) hchooses.inCalendar hchooses.reaches hfires
      unfold Clock.base
      omega

/-- The first candidate is on the date of the time put off, so less than three days before it. -/
theorem Reaches.near {u c : Int} {bump : Nat} (h : Reaches Z (Z.date u) hour minute bump c) : u < c + 3 * day := by
  have hu := (Z.date_le u).2
  have hc := (Z.date_le c).1
  rw [h.date_eq] at hc
  have h1 := (Z.offset_lt u).1
  have h2 := (Z.offset_lt c).2
  omega

theorem ends_of_late {k : Clock} (hlate : 3 * day ≤ k.period * day + k.putOff) : k.Ends Z := by
  intro u bump c _ _ _ hreach _
  have hnear := hreach.near
  have hmoved := Int.mul_nonneg (k.moved_nonneg (Z.date u)) (show (0 : Int) ≤ day by decide)
  rw [Int.add_mul]
  omega

/-- The days from `NaiveDate::MIN` to `NaiveDate::MAX` -/
def calendarDays : Int := lastDate + 1 - firstDate

theorem plain_advances_iff {d : Int} : (∀ t t', InRange t → plus t d = .ok t' → t < t') ↔ 0 < d ∨ d ≤ -(calendarDays * day) := by
  have hspan : (lastDate + 1) * day = firstDate * day + calendarDays * day := by decide
  constructor
  · intro h
    by_contra hnot
    have ht : InRange (firstDate * day - d) := by
      unfold InRange
      omega
    have hback : firstDate * day - d + d = firstDate * day := by omega
    have := h (firstDate * day - d) (firstDate * day) ht (plus_eq_ok.2 ⟨hback.symm, by rw [hback]; decide⟩)
    omega
  · intro h t t' ht hplus
    obtain ⟨rfl, hrange⟩ := plus_eq_ok.1 hplus
    unfold InRange at ht hrange
    omega

/-- What follows `@every`, in words -/
def everyWords (expr : String) : Option (List (List Char)) :=
  if trim expr.toList = [] then none else (stripEveryPrefix (trim expr.toList)).map splitWhitespace

/-- The count of a word of weeks and days, in the 64 bits that it is counted in -/
def countOf (weeks days : Nat) : Int := i64 (i64 (weeks * 7) + days)

/-- No count of days of nothing, or back; and where a time of day follows a count of less than two days, or the weeks before a weekday
count back for more than four days, no local date that goes on for too long -/
def Moves (Z : Zone) (expr : String) : Prop :=
  match everyWords expr with
  | some [a] => ∀ weeks days, parseWeekDay a = some (weeks, days) → 0 < countOf weeks days ∨ countOf weeks days ≤ -calendarDays
  | some [a, b] => ∀ weeks days hour minute, parseWeekDay a = some (weeks, days) → parseHhmm b = some (hour, minute) →
      countOf weeks days < 2 → (intervalClock (countOf weeks days * day) hour minute).Ends Z
  | some [a, b, c] => ∀ weeks dow hour minute, parseWeeksOnly a = some weeks → parseDow b = some dow →
      parseHhmm c = some (hour, minute) → i64 (weeks * 7) < -4 → (weeklyClock weeks dow hour minute).Ends Z
  | _ => True

/-- **A schedule advances** unless it counts no days or counts back, or waits for a time of day that is long past. -/
theorem advances_iff (Z : Zone) (C : Cron) {expr : String} {schedule : Schedule C.Expr} (h : parse C expr = .ok schedule) :
    (∀ t t', InRange t → nextAfter Z C t schedule = .ok (some t') → t < t') ↔ Moves Z expr := by
  have hday : (0 : Int) < day := by decide
  have hplain : ∀ d : Int, (∀ t t', InRange t → nextAfter Z C t (.interval d) = .ok (some t') → t < t') ↔
      0 < d ∨ d ≤ -(calendarDays * day) := by
    intro d
    rw [← plain_advances_iff]
    refine forall_congr' fun t => forall_congr' fun t' => imp_congr_right fun _ => imp_congr_left ?_
    rw [nextAfter, bind_eq_ok]
    simp
  unfold parse at h
  dsimp only at h
  split at h
  · cases h
  rename_i hne
  unfold Moves
  split at h
  · rename_i rest hrest
    rw [show everyWords expr = some (splitWhitespace rest) by rw [everyWords, if_neg hne, hrest]; rfl]
    unfold parseEvery at h
    split at h
    · rename_i a b c heq
      obtain ⟨weeks, hw, h⟩ := okOr_bind_eq_ok.1 h
      obtain ⟨dow, hd, h⟩ := okOr_bind_eq_ok.1 h
      obtain ⟨⟨hour, minute⟩, hhm, h⟩ := okOr_bind_eq_ok.1 h
      cases h
      rw [heq]
      refine (clock_advances_iff C (k := weeklyClock weeks dow hour minute) rfl).trans
        ⟨fun hall weeks' dow' hour' minute' hw' hd' hhm' _ => ?_, fun hall => ?_⟩
      · rw [hw] at hw'
        rw [hd] at hd'
        rw [hhm] at hhm'
        cases hw'
        cases hd'
        cases hhm'
        exact hall
      · by_cases hback : i64 (weeks * 7) < -4
        · exact hall weeks dow hour minute hw hd hhm hback
        · have hlate : 3 * day ≤ 7 * day + i64 (weeks * 7) * day := by
            have := Int.mul_le_mul_of_nonneg_right (Int.not_lt.1 hback) hday.le
            omega
          exact @ends_of_late Z (weeklyClock weeks dow hour minute) hlate
    · rename_i a b heq
      obtain ⟨⟨weeks, days⟩, hwd, h⟩ := okOr_bind_eq_ok.1 h
      obtain ⟨⟨hour, minute⟩, hhm, h⟩ := okOr_bind_eq_ok.1 h
      obtain ⟨d, hd, h⟩ := bind_eq_ok.1 h
      cases h
      rw [duration_ok hd, heq]
      refine (clock_advances_iff C (k := intervalClock (countOf weeks days * day) hour minute) rfl).trans
        ⟨fun hall weeks' days' hour' minute' hwd' hhm' _ => ?_, fun hall => ?_⟩
      · rw [hwd] at hwd'
        rw [hhm] at hhm'
        cases hwd'
        cases hhm'
        exact hall
      · by_cases hshort : countOf weeks days < 2
        · exact hall weeks days hour minute hwd hhm hshort
        · have hlate : 3 * day ≤ 1 * day + countOf weeks days * day := by
            have := Int.mul_le_mul_of_nonneg_right (Int.not_lt.1 hshort) hday.le
            omega
          exact @ends_of_late Z (intervalClock (countOf weeks days * day) hour minute) hlate
    · rename_i a heq
      rw [heq]
      change _ ↔ ∀ weeks days, parseWeekDay a = some (weeks, days) → 0 < countOf weeks days ∨ countOf weeks days ≤ -calendarDays
      split at h
      · rename_i weeks days hwd
        obtain ⟨d, hd, h⟩ := bind_eq_ok.1 h
        cases h
        rw [duration_ok hd]
        have hscale : (0 < countOf weeks days * day ∨ countOf weeks days * day ≤ -(calendarDays * day)) ↔
            (0 < countOf weeks days ∨ countOf weeks days ≤ -calendarDays) := by
          rw [show day = 86400000000000 by decide]
          omega
        refine ((hplain _).trans hscale).trans ⟨fun hmoves weeks' days' hwd' => ?_, fun hall => hall weeks days hwd⟩
        rw [hwd] at hwd'
        cases hwd'
        exact hmoves
      · rename_i hwd
        obtain ⟨⟨h', m, s⟩, -, h⟩ := okOr_bind_eq_ok.1 h
        obtain ⟨h', -, h⟩ := bind_eq_ok.1 h
        obtain ⟨m, -, h⟩ := bind_eq_ok.1 h
        obtain ⟨hm, -, h⟩ := bind_eq_ok.1 h
        obtain ⟨s, -, h⟩ := bind_eq_ok.1 h
        obtain ⟨d, -, h⟩ := bind_eq_ok.1 h
        split at h
        · cases h
        · rename_i hpos
          cases h
          rw [hwd]
          exact iff_of_true ((hplain d).2 (.inl (not_le.1 hpos))) nofun
    · cases h
  · rename_i hnone
    rw [show everyWords expr = none by rw [everyWords, if_neg hne, hnone]; rfl]
    obtain ⟨e, -, he⟩ := bind_eq_ok.1 h
    cases he
    exact iff_of_true (fun t t' _ hnext => C.lt_of_after (Except.ok.inj hnext)) trivial

def utc : Zone where
  offset _ := 0
  atLocal l := if InRange l then some l else none
  offset_lt _ := by decide
  atLocal_iff {l t} := by
    unfold FirstAt
    simp only [Int.add_zero, Option.ite_none_right_eq_some, Option.some.injEq]
    constructor
    · rintro ⟨hrange, rfl⟩
      exact ⟨rfl, fun u hu => ⟨hu.ge, hu ▸ hrange⟩⟩
    · rintro ⟨rfl, h⟩
      exact ⟨(h t rfl).2, rfl⟩

def noCron : Cron := ⟨Unit, fun _ => none, fun _ _ => none, nofun⟩

theorem parse_still : parse noCron "@every 0d" = .ok (.interval 0) := by
  unfold parse
  rw [if_neg (by decide), show stripEveryPrefix (trim "@every 0d".toList) = some ['0', 'd'] by decide]
  dsimp only
  unfold parseEvery
  rw [show splitWhitespace ['0', 'd'] = [['0', 'd']] by decide]
  dsimp only
  rw [show parseWeekDay ['0', 'd'] = some (0, 0) by decide]
  rfl

theorem advances_iff_still : ¬Moves utc "@every 0d" := fun h =>
  absurd ((advances_iff utc noCron parse_still).2 h 0 0 (by decide) rfl) (by decide)

theorem stands_still : ¬∀ (Z : Zone) (C : Cron) (expr : String) (schedule : Schedule C.Expr), parse C expr = .ok schedule →
    ∀ t t', InRange t → nextAfter Z C t schedule = .ok (some t') → t < t' := fun h =>
  absurd (h utc noCron "@every 0d" (.interval 0) parse_still 0 0 (by decide) rfl) (by decide)

example : countOf 2635249153387078801 0 = -9 := by decide

end Mistl.Scheduler
