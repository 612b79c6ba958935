import Mistl.FolderJail
import Mistl.Scheduler
import Mistl.TunnelRuleForms
/-!
# SchedulerDow — the days of the week of a crontab

`rewrite_dow_field` of `scheduler/schedule.rs`: the field in the numbering of the `cron` crate, and the days each stands for.
-/
open List Option

namespace Mistl.Scheduler

open Nostr (splitOnce)
open ProposalRules (splitOnce_append splitOnce_notMem mem_of_splitOnce)
open Folder (notMem_of_mem_splitOn)

/-! ## Readings -/

def numeral (tok : List Char) : Option Nat :=
  if tok ≠ [] ∧ tok.all Char.isDigit then some (tok.foldl (fun n c => 10 * n + (c.toNat - 48)) 0) else none

def dayNames : List (List Char) := ["sun", "mon", "tue", "wed", "thu", "fri", "sat"].map String.toList

/-- The days from Sunday -/
def dayName (tok : List Char) : Option Nat := dayNames.findIdx? fun name => name == tok.map Char.toLower

def crontabDay (tok : List Char) : Option Nat :=
  match numeral tok with
  | some n => if n ≤ 7 then some n else none
  | none => dayName tok

def crateDay (tok : List Char) : Option Nat :=
  match numeral tok with
  | some n => if 1 ≤ n ∧ n ≤ 7 then some n else none
  | none => (dayName tok).map (· + 1)

variable (day : List Char → Option Nat) (whole : Nat × Nat)

def readRange (range : List Char) : Option (Nat × Nat) :=
  match range.splitOn '-' with
  | [tok] => if tok = ['*'] then some whole else none
  | [first, last] => (day first).bind fun a => (day last).map fun b => (a, b)
  | _ => none

/-- The first and the last day of a part, and its step; a single day has none. -/
def readPart (part : List Char) : Option (Nat × Nat × Nat) :=
  match splitOnce '/' part with
  | some (range, step) => (readRange day whole range).bind fun r => (numeral step).map fun s => (r.1, r.2, s)
  | none => (readRange day whole part <|> (day part).map fun n => (n, n)).map fun r => (r.1, r.2, 1)

def Reads (field : List Char) (parts : List (Nat × Nat × Nat)) : Prop := (field.splitOn ',').mapM (readPart day whole) = some parts

instance {day : List Char → Option Nat} {whole : Nat × Nat} {field : List Char} {parts : List (Nat × Nat × Nat)} :
    Decidable (Reads day whole field parts) := inferInstanceAs (Decidable (_ = _))

def Run (p : Nat × Nat × Nat) : Set Nat := {d | d ≤ p.2.1 ∧ ∃ k, d = p.1 + k * p.2.2}

def daysOf (parts : List (Nat × Nat × Nat)) : Set Nat := {d | ∃ p ∈ parts, d ∈ Run p}

/-- What the crate documents of a field of days: it refuses a range that ends before it starts, and steps of its choice. -/
structure CronDays where
  read : List Char → Option (Set Nat)
  accepts : Nat → Prop
  read_iff : ∀ {field parts}, Reads crateDay (1, 7) field parts →
    ∀ days, read field = some days ↔ (∀ p ∈ parts, p.1 ≤ p.2.1 ∧ accepts p.2.2) ∧ days = daysOf parts

/-! ## What the rewriting does to a part -/

def rewritten (p : Nat × Nat × Nat) : Nat × Nat × Nat := (p.1 % 7 + 1, p.2.1 % 7 + 1, p.2.2)

def signs : List Char := [',', '/', '-', '*', '+']

def bare (tok : List Char) : Bool := signs.all fun c => !tok.elem c

variable {tok range part field : List Char} {n : Nat} {r : Nat × Nat} {p : Nat × Nat × Nat} {parts : List (Nat × Nat × Nat)}

theorem toLower_of_isDigit {c : Char} (h : c.isDigit = true) : c.toLower = c := by
  unfold Char.toLower
  rw [dif_neg]
  intro hu
  simp only [Char.isDigit, Bool.and_eq_true, decide_eq_true_eq] at h
  exact absurd (UInt32.le_trans hu.1 h.2) (by decide)

theorem bare_iff : bare tok = true ↔ ∀ c ∈ signs, c ∉ tok := by
  simp [bare]

theorem dayName_spec (h : dayName tok = some n) : n ≤ 6 ∧ numeral tok = none ∧ mapNum tok = tok ∧ ∀ c ∈ signs, c ∉ tok := by
  obtain ⟨hn, hname, -⟩ := findIdx?_eq_some_iff_getElem.1 h
  have hmem : tok.map Char.toLower ∈ dayNames := by
    rw [← eq_of_beq hname]
    exact getElem_mem hn
  have hall : (dayNames.all fun name => !name.all Char.isDigit && bare name) = true := by decide
  have hletters := List.all_eq_true.1 hall _ hmem
  rw [Bool.and_eq_true, Bool.not_eq_true', bare_iff] at hletters
  have hsigns : ∀ c ∈ signs, c ∉ tok := by
    intro c hc hin
    have hlower : ∀ c ∈ signs, c.toLower = c := by simp [signs]
    exact hletters.2 c hc (hlower c hc ▸ List.mem_map_of_mem hin)
  have hdigits : tok.all Char.isDigit = false := by
    by_contra hdigits
    have hsame : tok.map Char.toLower = tok := by
      conv_rhs => rw [← List.map_id tok]
      exact map_congr_left fun c hc => toLower_of_isDigit (List.all_eq_true.1 (Bool.eq_true_of_not_eq_false hdigits) c hc)
    exact hdigits (hsame ▸ hletters.1)
  have hplus : tok.head? ≠ some '+' := fun h => hsigns '+' (by decide) (mem_of_head? h)
  refine ⟨Nat.le_of_lt_succ hn, ?_, ?_, hsigns⟩
  · rw [numeral, if_neg (by simp [hdigits])]
  · simp only [mapNum, parseU8, if_neg hplus, hdigits, Bool.false_eq_true, false_and, and_false, if_false]

theorem numeral_spec (h : numeral tok = some n) (hn : n ≤ 7) : mapNum tok = Nat.toDigits 10 (n % 7 + 1) := by
  unfold numeral at h
  split at h
  · rename_i hdigits
    cases h
    have hplus : tok.head? ≠ some '+' := fun h => absurd (List.all_eq_true.1 hdigits.2 '+' (mem_of_head? h)) (by decide)
    simp only [mapNum, parseU8, if_neg hplus]
    rw [if_pos ⟨hdigits.1, hdigits.2, by omega⟩]
    exact if_pos hn
  · cases h

/-- **A day keeps its meaning**, in the numbering of the crate. -/
theorem day_mapNum (h : crontabDay tok = some n) :
    n ≤ 7 ∧ crateDay (mapNum tok) = some (n % 7 + 1) ∧ '-' ∉ tok ∧ ∀ c ∈ signs, c ∉ mapNum tok := by
  unfold crontabDay at h
  split at h
  · rename_i m hm
    split at h
    · rename_i hle
      cases h
      have hall : ∀ k < 7, crateDay (Nat.toDigits 10 (k + 1)) = some (k + 1) ∧ bare (Nat.toDigits 10 (k + 1)) = true := by decide
      obtain ⟨hread, hbare⟩ := hall (n % 7) (Nat.mod_lt n (by decide))
      rw [numeral_spec hm hle]
      refine ⟨hle, hread, fun hin => ?_, bare_iff.1 hbare⟩
      unfold numeral at hm
      split at hm
      · rename_i hdigits
        exact absurd (List.all_eq_true.1 hdigits.2 '-' hin) (by decide)
      · cases hm
    · cases h
  · obtain ⟨hle, hnum, hmap, hsigns⟩ := dayName_spec h
    rw [hmap, crateDay, hnum]
    refine ⟨by omega, ?_, hsigns '-' (by decide), hsigns⟩
    rw [h, Nat.mod_eq_of_lt (by omega)]
    rfl

theorem readRange_mapRange (h : readRange crontabDay (0, 6) range = some r) :
    r.2 ≤ 7 ∧ readRange crateDay (1, 7) (mapRange range) = some (r.1 % 7 + 1, r.2 % 7 + 1) ∧
      ',' ∉ mapRange range ∧ '/' ∉ mapRange range := by
  unfold readRange at h
  rw [mapRange]
  split at h
  · rename_i tok hsplit
    split at h
    · rename_i hstar
      cases h
      rw [hsplit, hstar]
      decide
    · cases h
  · rename_i first last hsplit
    obtain ⟨a, ha, h⟩ := bind_eq_some_iff.1 h
    obtain ⟨b, hb, rfl⟩ := map_eq_some_iff.1 h
    obtain ⟨-, hreadA, -, hsignsA⟩ := day_mapNum ha
    obtain ⟨hleB, hreadB, -, hsignsB⟩ := day_mapNum hb
    have hjoin : ['-'].intercalate [mapNum first, mapNum last] = mapNum first ++ '-' :: mapNum last := by
      simp [List.intercalate]
    have hback : (mapNum first ++ '-' :: mapNum last).splitOn '-' = [mapNum first, mapNum last] := by
      refine hjoin ▸ splitOn_intercalate '-' ?_ (cons_ne_nil _ _)
      rintro l (_ | ⟨_, _ | ⟨_, ⟨⟩⟩⟩)
      · exact hsignsA '-' (by decide)
      · exact hsignsB '-' (by decide)
    rw [hsplit, map_cons, map_cons, map_nil, hjoin]
    refine ⟨hleB, ?_, ?_⟩
    · simp only [readRange, hback, hreadA, hreadB, bind_some, map_some]
    · simp [hsignsA ',' (by decide), hsignsB ',' (by decide), hsignsA '/' (by decide), hsignsB '/' (by decide)]
  · cases h

theorem splitOnce_spec {sep : Char} {cs a b : List Char} (h : splitOnce sep cs = some (a, b)) : sep ∉ a ∧ cs = a ++ sep :: b := by
  obtain ⟨before, after, rfl, hnot⟩ := eq_append_cons_of_mem (mem_of_splitOnce h)
  rw [splitOnce_append hnot] at h
  cases h
  exact ⟨hnot, rfl⟩

theorem notMem_of_splitOnce {sep : Char} {cs : List Char} (h : splitOnce sep cs = none) : sep ∉ cs := by
  intro hin
  obtain ⟨before, after, rfl, hnot⟩ := eq_append_cons_of_mem hin
  rw [splitOnce_append hnot] at h
  cases h

/-- **A part is read by the crate as the days it stands for**, in the crate's numbering. -/
theorem readPart_rewritePart (h : readPart crontabDay (0, 6) part = some p) (hcomma : ',' ∉ part) :
    p.2.1 ≤ 7 ∧ readPart crateDay (1, 7) (rewritePart part) = some (rewritten p) ∧ ',' ∉ rewritePart part := by
  rw [readPart] at h
  rw [rewritePart]
  cases hsplit : splitOnce '/' part with
  | some split =>
    rw [hsplit] at h
    obtain ⟨r, hr, h⟩ := bind_eq_some_iff.1 h
    obtain ⟨s, hs, rfl⟩ := map_eq_some_iff.1 h
    obtain ⟨hslash, rfl⟩ := splitOnce_spec hsplit
    have hmem := not_or.1 (mt mem_append.2 hcomma)
    obtain ⟨hle, hread, hcomma', hslash'⟩ := readRange_mapRange hr
    refine ⟨hle, ?_, ?_⟩
    · simp only [readPart, splitOnce_append hslash', hread, hs, bind_some, map_some, rewritten]
    · exact mt mem_append.1 (not_or.2 ⟨hcomma', hmem.2⟩)
  | none =>
    rw [hsplit] at h
    obtain ⟨r, hr, rfl⟩ := map_eq_some_iff.1 h
    cases hrange : readRange crontabDay (0, 6) part with
    | some r' =>
      rw [hrange] at hr
      cases hr
      obtain ⟨hle, hread, hcomma', hslash'⟩ := readRange_mapRange hrange
      refine ⟨hle, ?_, hcomma'⟩
      simp only [readPart, splitOnce_notMem hslash', hread]
      rfl
    | none =>
      rw [hrange] at hr
      obtain ⟨n, hn, rfl⟩ := map_eq_some_iff.1 (show (crontabDay part).map (fun n => (n, n)) = some r from hr)
      obtain ⟨hle, hread, hdash, hsigns⟩ := day_mapNum hn
      have hmap : mapRange part = mapNum part := by
        rw [mapRange, splitOn_eq_singleton hdash]
        exact append_nil _
      have hnot : readRange crateDay (1, 7) (mapNum part) = none := by
        rw [readRange, splitOn_eq_singleton (hsigns '-' (by decide))]
        exact if_neg (fun heq : mapNum part = ['*'] => hsigns '*' (by decide) (heq ▸ mem_singleton_self _))
      rw [hmap]
      refine ⟨hle, ?_, hsigns ',' (by decide)⟩
      simp only [readPart, splitOnce_notMem (hsigns '/' (by decide)), hnot, hread]
      rfl

/-- **The field is read by the crate part by part.** -/
theorem reads_rewriteDowField (h : Reads crontabDay (0, 6) field parts) :
    (∀ p ∈ parts, p.2.1 ≤ 7) ∧ Reads crateDay (1, 7) (rewriteDowField field) (parts.map rewritten) := by
  have hread : ∀ (texts : List (List Char)) (ps : List (Nat × Nat × Nat)), (∀ text ∈ texts, ',' ∉ text) →
      texts.mapM (readPart crontabDay (0, 6)) = some ps → (∀ p ∈ ps, p.2.1 ≤ 7) ∧ (∀ text ∈ texts.map rewritePart, ',' ∉ text) ∧
        (texts.map rewritePart).mapM (readPart crateDay (1, 7)) = some (ps.map rewritten) := by
    intro texts
    induction texts with
    | nil =>
      rintro ps - hps
      cases hps
      exact ⟨nofun, nofun, rfl⟩
    | cons text texts ih =>
      intro ps hcommas hps
      rw [mapM_cons] at hps
      obtain ⟨p, hp, hps⟩ := bind_eq_some_iff.1 hps
      obtain ⟨ps, hall, hps⟩ := bind_eq_some_iff.1 hps
      cases hps
      obtain ⟨hle, hread, hcomma⟩ := readPart_rewritePart hp (hcommas _ mem_cons_self)
      obtain ⟨ih0, ih1, ih2⟩ := ih ps (fun text ht => hcommas text (mem_cons_of_mem _ ht)) hall
      refine ⟨forall_mem_cons.2 ⟨hle, ih0⟩, forall_mem_cons.2 ⟨hcomma, ih1⟩, ?_⟩
      rw [map_cons, mapM_cons, hread, ih2]
      rfl
  obtain ⟨hle, hcommas, hall⟩ := hread _ _ (fun text => notMem_of_mem_splitOn) h
  refine ⟨hle, ?_⟩
  rw [Reads, rewriteDowField, splitOn_intercalate ',' hcommas (by simp [splitOn_ne_nil])]
  exact hall

/-! ## Days kept -/

/-- No range goes from a day other than Sunday to the number 7, and a range from Sunday to 7 adds no other day to the field. -/
def Kept (parts : List (Nat × Nat × Nat)) : Prop := ∀ p ∈ parts, p.2.1 = 7 → p.1 ≠ 7 →
    p.1 = 0 ∧ ∀ d ∈ Run p, d % 7 = 0 ∨ ∃ q ∈ parts, q.2.1 ≠ 7 ∧ ∃ e ∈ Run q, e % 7 = d % 7

/-- **The days of a field are kept**, and the field accepted, exactly when `Kept` and the crate accepts the steps. -/
theorem weekdays_kept_iff (K : CronDays) (h : Reads crontabDay (0, 6) field parts) (hvalid : ∀ p ∈ parts, p.1 ≤ p.2.1 ∧ 0 < p.2.2) :
    (∃ days, K.read (rewriteDowField field) = some days ∧ (fun d => (d + 6) % 7) '' days = (· % 7) '' daysOf parts) ↔
      (∀ p ∈ parts, K.accepts p.2.2) ∧ Kept parts := by
  obtain ⟨hle, hreads⟩ := reads_rewriteDowField h
  have hafter : ∀ p ∈ parts, p.2.1 ≠ 7 → ∀ d, d + 1 ∈ Run (rewritten p) ↔ d ∈ Run p := by
    intro p hp hne d
    have := hle p hp
    have := (hvalid p hp).1
    simp only [Run, rewritten]
    exact and_congr (by omega) (exists_congr fun k => by omega)
  have hseven : ∀ p : Nat × Nat × Nat, p.2.1 = 7 → ∀ d ∈ Run (rewritten p), d = 1 := by
    rintro p h7 d ⟨hd, k, rfl⟩
    simp only [rewritten] at hd ⊢
    omega
  have hone : ∀ p : Nat × Nat × Nat, p.2.1 = 7 → p.1 % 7 = 0 → 1 ∈ Run (rewritten p) := by
    intro p h7 h0
    refine ⟨?_, 0, ?_⟩ <;> simp [rewritten, h0]
  constructor
  · rintro ⟨days, hread, himage⟩
    obtain ⟨hall, rfl⟩ := (K.read_iff hreads days).1 hread
    rw [List.forall_mem_map] at hall
    refine ⟨fun p hp => (hall p hp).2, fun p hp h7 hne => ?_⟩
    have hzero : p.1 = 0 := by
      have hord : p.1 % 7 + 1 ≤ p.2.1 % 7 + 1 := (hall p hp).1
      have := (hvalid p hp).1
      omega
    refine ⟨hzero, fun d hd => ?_⟩
    have hin : d % 7 ∈ (· % 7) '' daysOf parts := ⟨d, ⟨p, hp, hd⟩, rfl⟩
    rw [← himage] at hin
    obtain ⟨e, ⟨_, hq', he⟩, heq⟩ := hin
    obtain ⟨q, hq, rfl⟩ := List.mem_map.1 hq'
    by_cases hq7 : q.2.1 = 7
    · rw [hseven q hq7 e he] at heq
      exact .inl heq.symm
    · obtain ⟨e, rfl⟩ : ∃ e', e = e' + 1 := by
        obtain ⟨-, k, rfl⟩ := he
        exact ⟨q.1 % 7 + k * q.2.2, by simp only [rewritten]; omega⟩
      have heq' : (e + 1 + 6) % 7 = d % 7 := heq
      exact .inr ⟨q, hq, hq7, e, (hafter q hq hq7 e).1 he, by omega⟩
  · rintro ⟨haccepts, hkept⟩
    refine ⟨daysOf (parts.map rewritten), (K.read_iff hreads _).2 ⟨?_, rfl⟩, Set.ext fun w => ⟨?_, ?_⟩⟩
    · rw [List.forall_mem_map]
      refine fun p hp => ⟨?_, haccepts p hp⟩
      have := (hvalid p hp).1
      have := hle p hp
      have := fun h7 hne => (hkept p hp h7 hne).1
      simp only [rewritten]
      omega
    · rintro ⟨e, ⟨_, hq', he⟩, rfl⟩
      obtain ⟨q, hq, rfl⟩ := List.mem_map.1 hq'
      by_cases hq7 : q.2.1 = 7
      · have hsunday : q.1 % 7 = 0 := by
          by_cases hne : q.1 = 7
          · rw [hne]
          · rw [(hkept q hq hq7 hne).1]
        rw [hseven q hq7 e he]
        exact ⟨q.1, ⟨q, hq, (hvalid q hq).1, 0, by omega⟩, hsunday⟩
      · obtain ⟨e, rfl⟩ : ∃ e', e = e' + 1 := by
          obtain ⟨-, k, rfl⟩ := he
          exact ⟨q.1 % 7 + k * q.2.2, by simp only [rewritten]; omega⟩
        exact ⟨e, ⟨q, hq, (hafter q hq hq7 e).1 he⟩, show e % 7 = (e + 1 + 6) % 7 by omega⟩
    · rintro ⟨d, ⟨p, hp, hd⟩, rfl⟩
      by_cases h7 : p.2.1 = 7
      · by_cases hne : p.1 = 7
        · have hd7 : d = 7 := by
            obtain ⟨hd, k, rfl⟩ := hd
            omega
          exact ⟨1, ⟨_, List.mem_map_of_mem hp, hone p h7 (by rw [hne])⟩, by rw [hd7]⟩
        · obtain ⟨h0, hcover⟩ := hkept p hp h7 hne
          rcases hcover d hd with hsunday | ⟨q, hq, hq7, e, he, heq⟩
          · exact ⟨1, ⟨_, List.mem_map_of_mem hp, hone p h7 (by rw [h0])⟩, hsunday.symm⟩
          · exact ⟨e + 1, ⟨_, List.mem_map_of_mem hq, (hafter q hq hq7 e).2 he⟩, show (e + 1 + 6) % 7 = d % 7 by omega⟩
      · exact ⟨d + 1, ⟨_, List.mem_map_of_mem hp, (hafter p hp h7 d).2 hd⟩, show (d + 1 + 6) % 7 = d % 7 by omega⟩

/-- The crate as documented, for steps of any length -/
def documented : CronDays where
  read field := ((field.splitOn ',').mapM (readPart crateDay (1, 7))).bind fun parts =>
    if ∀ p ∈ parts, p.1 ≤ p.2.1 then some (daysOf parts) else none
  accepts _ := True
  read_iff {field parts} h days := by
    rw [show _ = some parts from h, bind_some]
    split
    · rename_i hord
      exact ⟨fun h => ⟨fun p hp => ⟨hord p hp, trivial⟩, (Option.some.inj h).symm⟩, fun h => by rw [h.2]⟩
    · rename_i hord
      exact ⟨nofun, fun h => absurd (fun p hp => (h.1 p hp).1) hord⟩

theorem weekdays_kept_iff_workdays : ∃ days, documented.read (rewriteDowField "1-5".toList) = some days ∧
    (fun d => (d + 6) % 7) '' days = (· % 7) '' daysOf [(1, 5, 1)] :=
  (weekdays_kept_iff documented (show Reads _ _ _ _ by decide) (by decide)).2 ⟨fun _ _ => trivial, by simp [Kept]⟩

theorem reads_friday_to_sunday : Reads crontabDay (0, 6) "5-7".toList [(5, 7, 1)] := by decide

/-- Friday to Sunday, which becomes a range that ends before it starts -/
theorem friday_to_sunday : ¬∀ (K : CronDays) (field : List Char) (parts : List (Nat × Nat × Nat)), Reads crontabDay (0, 6) field parts →
    (∀ p ∈ parts, p.1 ≤ p.2.1 ∧ 0 < p.2.2) → (∀ p ∈ parts, K.accepts p.2.2) →
    ∃ days, K.read (rewriteDowField field) = some days ∧ (fun d => (d + 6) % 7) '' days = (· % 7) '' daysOf parts := by
  intro h
  obtain ⟨days, hread, -⟩ := h documented _ _ reads_friday_to_sunday (by decide) (fun _ _ => trivial)
  have hall := ((documented.read_iff (reads_rewriteDowField reads_friday_to_sunday).2 days).1 hread).1
  exact absurd (hall (6, 1, 1) (by decide)).1 (by decide)

end Mistl.Scheduler
