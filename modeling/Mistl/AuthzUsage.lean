import Mistl.Lib.Machine
import Mistl.Lib.Table
import Mathlib.Data.List.Chain
/-!
# AuthzUsage — metered accounts

`authz/usage.rs`: a meter for each account, cleared when its period is over.  It stores one period start and takes a call with
another one for a new period; `forgotten` are the calls it lost that way.
-/
open List

namespace Mistl.Authz

inductive Service where
  | ai | escrow
  deriving DecidableEq

inductive Period where
  | day | month | total
  deriving DecidableEq

structure Limits where
  period : Period
  maxRequests : Option Nat
  maxOutputChars : Option Nat
  maxStoredBytes : Option Nat
  deriving DecidableEq

structure Denied where
  code : String
  message : String
  deriving DecidableEq

def Denied.usageLimit : Denied := ⟨"usage_limit_exceeded", "Usage limit exceeded"⟩

/-! ## Periods -/

def dayNanos : Int := 86400 * 10 ^ 9

/-- The day of the month of a day of the proleptic Gregorian calendar, counted from the epoch. -/
def dayOfMonth (days : Int) : Int :=
  let z := days + 719468
  let dayOfEra := z % 146097
  let yearOfEra := (dayOfEra - dayOfEra / 1460 + dayOfEra / 36524 - dayOfEra / 146096) / 365
  let dayOfYear := dayOfEra - (365 * yearOfEra + yearOfEra / 4 - yearOfEra / 100)
  let month := (5 * dayOfYear + 2) / 153
  dayOfYear - (153 * month + 2) / 5 + 1

def periodStart (period : Period) (now : Int) : Int :=
  let today := now / dayNanos
  match period with
  | .day => today * dayNanos
  | .month => (today - (dayOfMonth today - 1)) * dayNanos
  | .total => 0

def Period.rank : Period → Nat
  | .day => 0
  | .month => 1
  | .total => 2

/-! ## Meters -/

structure Meter where
  periodStart : Int
  requests : Nat
  outputChars : Nat
  lastSeen : Int
  overflowPeriod : Option Period

def Meter.default : Meter := ⟨0, 0, 0, 0, none⟩

def Meter.rollover (m : Meter) (period : Period) (now : Int) : Meter :=
  let start := Authz.periodStart period now
  if m.periodStart ≠ start then { m with periodStart := start, requests := 0, outputChars := 0 } else m

/-- `Meter::rollover_account`: the accounts that share `*` keep the longest period. -/
def Meter.rolloverAccount (m : Meter) (account : String) (period : Period) (now : Int) : Meter :=
  if account ≠ "*" then m.rollover period now
  else match m.overflowPeriod with
    | some old =>
      if old.rank < period.rank then
        { m with overflowPeriod := some period, periodStart := Authz.periodStart period now }
      else m.rollover old now
    | none => { m with overflowPeriod := some period }.rollover period now

def maxAccounts : Nat := 4096

structure UsageBook where
  ai : Table String Meter
  escrow : Table String Meter

def UsageBook.default : UsageBook := ⟨∅, ∅⟩

namespace UsageBook

def meters (b : UsageBook) : Service → Table String Meter
  | .ai => b.ai
  | .escrow => b.escrow

def put (b : UsageBook) (service : Service) (account : String) (m : Meter) : UsageBook :=
  match service with
  | .ai => { b with ai := b.ai.insert account m }
  | .escrow => { b with escrow := b.escrow.insert account m }

def account (b : UsageBook) (service : Service) (requested : String) : String :=
  let meters := b.meters service
  if meters.contains requested ∨ meters.size - (if meters.contains "*" then 1 else 0) < maxAccounts then requested else "*"

def exceeded (max : Option Nat) (used : Nat) : Bool := max.any (fun max => decide (max ≤ used))

def check (b : UsageBook) (service : Service) (account : String) (limits : Limits) (now : Int) : UsageBook × Except Denied Unit :=
  let m := (((b.meters service).get account).getD .default).rolloverAccount account limits.period now
  let m := { m with lastSeen := now }
  (b.put service account m,
    if exceeded limits.maxRequests m.requests ∨ exceeded limits.maxOutputChars m.outputChars then .error .usageLimit
    else .ok ())

def record (b : UsageBook) (service : Service) (account : String) (limits : Limits) (requests outputChars : Nat)
    (now : Int) : UsageBook :=
  let account := b.account service account
  let m := (((b.meters service).get account).getD .default).rolloverAccount account limits.period now
  b.put service account
    { m with requests := satAdd m.requests requests, outputChars := satAdd m.outputChars outputChars, lastSeen := now }

end UsageBook

/-! ## Runs -/

inductive Call where
  | check (period : Period) (now : Int)
  | record (period : Period) (now : Int) (requests outputChars : Nat)

namespace Call

def period : Call → Period
  | .check p _ | .record p _ _ _ => p

def now : Call → Int
  | .check _ t | .record _ t _ _ => t

def requests : Call → Nat
  | .check _ _ => 0
  | .record _ _ n _ => n

end Call

def Meter.call (m : Meter) (account : String) (c : Call) : Meter :=
  let rolled := m.rolloverAccount account c.period c.now
  match c with
  | .check _ now => { rolled with lastSeen := now }
  | .record _ now requests outputChars =>
    { rolled with requests := satAdd rolled.requests requests, outputChars := satAdd rolled.outputChars outputChars, lastSeen := now }

def Meter.after (account : String) : List Call → Meter
  | [] => .default
  | c :: h => (Meter.after account h).call account c

inductive Op where
  | check (service : Service) (account : String) (limits : Limits) (now : Int)
  | record (service : Service) (account : String) (limits : Limits) (requests outputChars : Nat) (now : Int)

def Op.now : Op → Int
  | .check _ _ _ t | .record _ _ _ _ _ t => t

def Op.service : Op → Service
  | .check s .. | .record s .. => s

def Op.call : Op → Call
  | .check _ _ limits now => .check limits.period now
  | .record _ _ limits requests outputChars now => .record limits.period now requests outputChars

def Op.account (b : UsageBook) : Op → String
  | .check _ account _ _ => account
  | .record service account _ _ _ _ => b.account service account

def UsageBook.step (b : UsageBook) : Op → UsageBook
  | .check service account limits now => (b.check service account limits now).1
  | .record service account limits requests outputChars now => b.record service account limits requests outputChars now

def UsageBook.run : List Op → UsageBook
  | [] => .default
  | op :: ops => (UsageBook.run ops).step op

def history (service : Service) (account : String) : List Op → List Call
  | [] => []
  | op :: ops =>
    if op.service = service ∧ op.account (UsageBook.run ops) = account then op.call :: history service account ops
    else history service account ops

/-! ## What a meter remembers -/

def longest : List Call → Option Period
  | [] => none
  | c :: h => match longest h with
    | none => some c.period
    | some p => some (if p.rank < c.period.rank then c.period else p)

/-- The period start some calls leave: that of the last call, for `*` under the longest period. -/
def storedStart (account : String) : List Call → Int
  | [] => 0
  | c :: h => periodStart (if account = "*" then (longest (c :: h)).getD c.period else c.period) c.now

/-- Whether a call brings `*` a longer period than it had. -/
def lengthens (account : String) (c : Call) (h : List Call) : Bool :=
  account == "*" && (longest h).any (fun p => decide (p.rank < c.period.rank))

/-- Whether a call finds the account in another period than the calls before it left it. -/
def turns (account : String) (c : Call) (h : List Call) : Bool :=
  !lengthens account c h && decide (storedStart account (c :: h) ≠ storedStart account h)

def forgotten (account : String) : List Call → List Call
  | [] => []
  | c :: h => if turns account c h then h else forgotten account h

def remembered (account : String) : List Call → List Call
  | [] => []
  | c :: h => c :: if turns account c h then [] else remembered account h

def total (h : List Call) : Nat := (h.map Call.requests).sum

def recordedSince (start : Int) (h : List Call) : Nat := total (h.filter (fun c => decide (start ≤ c.now)))

theorem remembered_append (account : String) : ∀ h, remembered account h ++ forgotten account h = h
  | [] => rfl
  | c :: h => by
    rw [remembered, forgotten]
    split
    · rfl
    · rw [cons_append, remembered_append account h]

theorem total_append (h h' : List Call) : total (h ++ h') = total h + total h' := by
  unfold total
  rw [map_append, sum_append]

theorem recordedSince_append (start : Int) (h h' : List Call) :
    recordedSince start (h ++ h') = recordedSince start h + recordedSince start h' := by
  unfold recordedSince
  rw [filter_append, total_append]

theorem total_filter_le (p : Call → Bool) : ∀ h : List Call, total (h.filter p) ≤ total h
  | [] => le_refl _
  | c :: h => by
    have ih := total_filter_le p h
    rw [filter_cons]
    split
    · simp only [total, map_cons, List.sum_cons] at ih ⊢
      omega
    · simp only [total, map_cons, List.sum_cons] at ih ⊢
      omega

theorem recordedSince_eq_zero {start : Int} {h : List Call} : recordedSince start h = 0 ↔ ∀ c ∈ h, start ≤ c.now → c.requests = 0 := by
  unfold recordedSince total
  rw [sum_eq_zero_iff]
  simp only [mem_map, mem_filter, decide_eq_true_eq]
  constructor
  · intro hz c hc hs
    exact hz _ ⟨c, ⟨hc, hs⟩, rfl⟩
  · rintro hz n ⟨c, ⟨hc, hs⟩, rfl⟩
    exact hz c hc hs

/-! ## The meter and its calls -/

structure Counts (account : String) (h : List Call) (m : Meter) : Prop where
  start : m.periodStart = storedStart account h
  overflow : m.overflowPeriod = if account = "*" then longest h else none
  requests : m.requests = min (total (remembered account h)) u64Max

variable {account : String} {h : List Call} {m : Meter}

theorem Counts.default : Counts account [] .default where
  start := rfl
  overflow := by
    split <;> rfl
  requests := rfl

theorem rollover_spec (m : Meter) (period : Period) (now : Int) : (m.rollover period now).periodStart = periodStart period now ∧
    (m.rollover period now).overflowPeriod = m.overflowPeriod ∧
    (m.rollover period now).requests = if periodStart period now ≠ m.periodStart then 0 else m.requests := by
  unfold Meter.rollover
  dsimp only
  split
  · rename_i hs
    exact ⟨rfl, rfl, (if_pos hs.symm).symm⟩
  · rename_i hs
    refine ⟨not_not.1 hs, rfl, (if_neg ?_).symm⟩
    exact not_not.2 (not_not.1 hs).symm

/-- What the rollover of a call leaves: the requests, unless the call turns the period. -/
structure Rolled (account : String) (c : Call) (h : List Call) (m rolled : Meter) : Prop where
  start : rolled.periodStart = storedStart account (c :: h)
  overflow : rolled.overflowPeriod = if account = "*" then longest (c :: h) else none
  requests : rolled.requests = if turns account c h then 0 else m.requests

theorem Counts.rollover (hm : Counts account h m) {c : Call} {n : Meter} (period : Period)
    (hstart : n.periodStart = m.periodStart) (hrequests : n.requests = m.requests)
    (hoverflow : n.overflowPeriod = if account = "*" then longest (c :: h) else none)
    (hl : lengthens account c h = false) (hst : storedStart account (c :: h) = periodStart period c.now) :
    Rolled account c h m (n.rollover period c.now) := by
  obtain ⟨hs, ho, hr⟩ := rollover_spec n period c.now
  refine ⟨hs.trans hst.symm, ho.trans hoverflow, ?_⟩
  rw [hr, hrequests, hstart, hm.start]
  unfold turns
  rw [hl, hst]
  simp

theorem Counts.rolled (hm : Counts account h m) (c : Call) : Rolled account c h m (m.rolloverAccount account c.period c.now) := by
  unfold Meter.rolloverAccount
  by_cases ha : account = "*"
  · subst ha
    have hoverflow : m.overflowPeriod = longest h := hm.overflow
    rw [if_neg (not_not.2 rfl), hoverflow]
    cases hl : longest h with
    | none =>
      refine hm.rollover (n := { m with overflowPeriod := some c.period }) c.period rfl rfl ?_ ?_ ?_
      · simp [longest, hl]
      · simp [lengthens, hl]
      · simp [storedStart, longest, hl]
    | some old =>
      dsimp only
      split
      · rename_i hr
        refine ⟨?_, ?_, ?_⟩
        · simp [storedStart, longest, hl, hr]
        · simp [longest, hl, hr]
        · simp [turns, lengthens, hl, hr]
      · rename_i hr
        refine hm.rollover old rfl rfl ?_ ?_ ?_
        · simp [longest, hl, hr, hoverflow]
        · simp [lengthens, hl, hr]
        · simp [storedStart, longest, hl, hr]
  · rw [if_pos ha]
    refine hm.rollover c.period rfl rfl ?_ ?_ ?_
    · rw [hm.overflow, if_neg ha, if_neg ha]
    · simp [lengthens, ha]
    · simp [storedStart, ha]

theorem Counts.call (hm : Counts account h m) (c : Call) : Counts account (c :: h) (m.call account c) := by
  have hrolled := hm.rolled c
  have hbound : (if turns account c h then 0 else m.requests)
      = min (total (if turns account c h then [] else remembered account h)) u64Max := by
    split
    · rfl
    · exact hm.requests
  cases c with
  | check period now =>
    refine ⟨hrolled.start, hrolled.overflow, hrolled.requests.trans ?_⟩
    rw [remembered, hbound]
    simp only [total, map_cons, List.sum_cons, Call.requests, Nat.zero_add]
  | record period now requests outputChars =>
    refine ⟨hrolled.start, hrolled.overflow, ?_⟩
    have hr : (m.rolloverAccount account period now).requests = _ := hrolled.requests.trans hbound
    show satAdd (m.rolloverAccount account period now).requests requests = _
    rw [hr, remembered]
    simp only [total, map_cons, List.sum_cons, Call.requests, satAdd]
    omega

theorem after_counts (account : String) : ∀ h, Counts account h (Meter.after account h)
  | [] => .default
  | c :: h => (after_counts account h).call c

/-! ## The book and its meters -/

theorem get_put (b : UsageBook) (service service' : Service) (account account' : String) (m : Meter) :
    ((b.put service account m).meters service').get account' =
      if service = service' ∧ account = account' then some m else (b.meters service').get account' := by
  cases service <;> cases service' <;>
    simp [UsageBook.put, UsageBook.meters, Table.get_insert, eq_comm]

theorem step_get (b : UsageBook) (op : Op) (service : Service) (account : String) : ((b.step op).meters service).get account =
      if op.service = service ∧ op.account b = account then
        some ((((b.meters service).get account).getD .default).call account op.call)
      else (b.meters service).get account := by
  cases op with
  | check s a limits now =>
    show ((b.put s a _).meters service).get account = _
    rw [get_put]
    split
    · rename_i hc
      obtain ⟨rfl, rfl⟩ := hc
      rw [if_pos ⟨rfl, rfl⟩]
      rfl
    · rename_i hc
      exact (if_neg hc).symm
  | record s a limits requests outputChars now =>
    show ((b.put s (b.account s a) _).meters service).get account = _
    rw [get_put]
    split
    · rename_i hc
      obtain ⟨rfl, rfl⟩ := hc
      rw [if_pos ⟨rfl, rfl⟩]
      rfl
    · rename_i hc
      exact (if_neg hc).symm

theorem run_get (service : Service) (account : String) : ∀ ops,
    (((UsageBook.run ops).meters service).get account).getD .default = Meter.after account (history service account ops)
  | [] => by cases service <;> rfl
  | op :: ops => by
    rw [UsageBook.run, step_get, history]
    split
    · rw [run_get service account ops]
      rfl
    · exact run_get service account ops

theorem mem_history {service : Service} {account : String} {c : Call} : ∀ {ops : List Op},
    c ∈ history service account ops → ∃ op ∈ ops, op.now = c.now
  | op :: ops, hc => by
    rw [history] at hc
    split at hc
    · rcases mem_cons.1 hc with rfl | hc
      · exact ⟨op, mem_cons_self, by cases op <;> rfl⟩
      · obtain ⟨o, ho, hn⟩ := mem_history hc
        exact ⟨o, mem_cons_of_mem _ ho, hn⟩
    · obtain ⟨o, ho, hn⟩ := mem_history hc
      exact ⟨o, mem_cons_of_mem _ ho, hn⟩

theorem history_pairwise (service : Service) (account : String) : ∀ {ops : List Op},
    ops.Pairwise (fun a b => b.now ≤ a.now) → (history service account ops).Pairwise (fun a b => b.now ≤ a.now)
  | [], _ => List.Pairwise.nil
  | op :: ops, hp => by
    obtain ⟨hop, hp⟩ := pairwise_cons.1 hp
    rw [history]
    split
    · refine pairwise_cons.2 ⟨fun c hc => ?_, history_pairwise service account hp⟩
      obtain ⟨o, ho, hn⟩ := mem_history hc
      have hop' : op.call.now = op.now := by cases op <;> rfl
      rw [hop', ← hn]
      exact hop o ho
    · exact history_pairwise service account hp

/-! ## What a check sees -/

/-- **A count misses nothing since a time exactly when nothing since then was forgotten** and the sum fits a word: what is
remembered is younger than what is forgotten. -/
theorem recordedSince_le_iff {start : Int} (hp : h.Pairwise (fun a b => b.now ≤ a.now)) :
    recordedSince start h ≤ min (total (remembered account h)) u64Max ↔
      (∀ r ∈ forgotten account h, start ≤ r.now → r.requests = 0) ∧ recordedSince start h ≤ u64Max := by
  have hsplit : recordedSince start h
      = recordedSince start (remembered account h) + recordedSince start (forgotten account h) := by
    rw [← recordedSince_append, remembered_append]
  have hle : recordedSince start (remembered account h) ≤ total (remembered account h) := total_filter_le _ _
  rw [← recordedSince_eq_zero]
  constructor
  · intro hmin
    refine ⟨?_, by omega⟩
    by_contra hne
    -- a request that was forgotten is older than all that are remembered
    obtain ⟨r, hr, hs, -⟩ : ∃ r ∈ forgotten account h, start ≤ r.now ∧ r.requests ≠ 0 := by
      by_contra hall
      refine hne (recordedSince_eq_zero.2 (fun c hc hs => ?_))
      by_contra hz
      exact hall ⟨c, hc, hs, hz⟩
    have hyoung : ∀ c ∈ remembered account h, start ≤ c.now := by
      intro c hc
      rw [← remembered_append account h] at hp
      exact hs.trans ((pairwise_append.1 hp).2.2 c hc r hr)
    have hall : recordedSince start (remembered account h) = total (remembered account h) := by
      unfold recordedSince
      rw [filter_eq_self.2 (fun c hc => decide_eq_true (hyoung c hc))]
    omega
  · rintro ⟨hz, hmax⟩
    omega

/-- **A check sees all that was recorded in its period exactly when nothing of the period was forgotten**: no request
recorded since its start lies before the account's last turn, and they fit a word. -/
theorem check_sees_recorded_iff (ops : List Op) (hops : ops.Pairwise (fun a b => b.now ≤ a.now)) (service : Service)
    (account : String) (limits : Limits) (now : Int) (hnow : ∀ op ∈ ops, op.now ≤ now) :
    ∃ m, (((UsageBook.run ops).check service account limits now).1.meters service).get account = some m ∧
      (recordedSince (periodStart limits.period now) (history service account ops) ≤ m.requests ↔
        (∀ r ∈ forgotten account (.check limits.period now :: history service account ops),
          periodStart limits.period now ≤ r.now → r.requests = 0) ∧
        recordedSince (periodStart limits.period now) (history service account ops) ≤ u64Max) ∧
      (recordedSince (periodStart limits.period now) (history service account ops) ≤ m.requests → ∀ max, limits.maxRequests = some max →
          ((UsageBook.run ops).check service account limits now).2 = .ok () →
          recordedSince (periodStart limits.period now) (history service account ops) < max) := by
  have hget := step_get (UsageBook.run ops) (.check service account limits now) service account
  rw [if_pos ⟨rfl, rfl⟩, run_get] at hget
  have hcounts := (after_counts account (history service account ops)).call (.check limits.period now)
  have hzero : recordedSince (periodStart limits.period now) (.check limits.period now :: history service account ops)
      = recordedSince (periodStart limits.period now) (history service account ops) := by
    unfold recordedSince
    rw [filter_cons]
    split
    · simp [total, Call.requests]
    · rfl
  refine ⟨_, hget, ?_, fun hle max hmax hok => ?_⟩
  · show _ ≤ (Meter.call _ account (.check limits.period now)).requests ↔ _
    rw [hcounts.requests, ← hzero]
    refine recordedSince_le_iff (pairwise_cons.2 ⟨fun c hc => ?_, history_pairwise service account hops⟩)
    obtain ⟨op, ho, hn⟩ := mem_history hc
    rw [← hn]
    exact hnow op ho
  · refine lt_of_le_of_lt hle ?_
    unfold UsageBook.check at hok
    rw [run_get] at hok
    dsimp only at hok
    split at hok
    · cases hok
    · rename_i hex
      rw [hmax] at hex
      simp only [UsageBook.exceeded, Option.any_some, decide_eq_true_eq, not_or, not_le] at hex
      exact hex.1

def unlimited (period : Period) : Limits := ⟨period, none, none, none⟩

def mixedOps : List Op := [.check .ai "node:0123456789abcdef" (unlimited .day) (1000 * dayNanos + 2),
    .record .ai "node:0123456789abcdef" (unlimited .total) 5 0 (1000 * dayNanos + 1)]

/-- **A check under another period clears the meter**: the five requests of the period are gone. -/
theorem mixed_periods_forget :
    recordedSince (periodStart .total (1000 * dayNanos + 3)) (history .ai "node:0123456789abcdef" mixedOps) = 5 ∧
    ((((UsageBook.run mixedOps).check .ai "node:0123456789abcdef" (unlimited .total) (1000 * dayNanos + 3)).1.meters
      .ai).get "node:0123456789abcdef").map Meter.requests = some 0 := by
  decide

theorem check_sees_recorded_iff_mixed : mixedOps.Pairwise (fun a b => b.now ≤ a.now) ∧ (∀ op ∈ mixedOps, op.now ≤ 1000 * dayNanos + 3) ∧
    ∃ m, (((UsageBook.run mixedOps).check .ai "node:0123456789abcdef" (unlimited .day) (1000 * dayNanos + 3)).1.meters
      .ai).get "node:0123456789abcdef" = some m := by
  have hp : mixedOps.Pairwise (fun a b => b.now ≤ a.now) := by decide
  have hn : ∀ op ∈ mixedOps, op.now ≤ 1000 * dayNanos + 3 := by decide
  obtain ⟨m, hm, -⟩ := check_sees_recorded_iff mixedOps hp .ai "node:0123456789abcdef" (unlimited .day) _ hn
  exact ⟨hp, hn, m, hm⟩

end Mistl.Authz
