import Mathlib.Data.List.Infix
import Mathlib.Tactic.Common
/-!
# StreamSplitter — an Annex-B stream cut into NAL units

`AnnexBSplitter` of `stream/ingest.rs`: what is pushed is kept from the last start code on.
-/
open List

namespace Mistl.Stream

/-! ## The code -/

/-- The length of the start code a buffer begins with, 0 without one -/
def codeAt (buf : List UInt8) : Nat := if buf[0]? = some 0 ∧ buf[1]? = some 0 then
    if buf[2]? = some 1 then 3 else if buf[2]? = some 0 ∧ buf[3]? = some 1 then 4 else 0
  else 0

/-- The loop of `find_start_codes` from a position on -/
def startCodes (i : Nat) : List UInt8 → List (Nat × Nat)
  | [] => []
  | b :: buf =>
    let n := codeAt (b :: buf)
    if n = 0 then startCodes (i + 1) buf else (i, n) :: startCodes (i + n) (buf.drop (n - 1))
  termination_by buf => buf.length
  decreasing_by all_goals (simp only [length_drop, length_cons]; omega)

def findStartCodes (buf : List UInt8) : List (Nat × Nat) := startCodes 0 buf

/-- The loop over `windows(2)` -/
def between (buf : List UInt8) : List (Nat × Nat) → List (List UInt8)
  | (pos0, len0) :: (pos1, len1) :: starts =>
    (if pos0 + len0 < pos1 then [(buf.take pos1).drop (pos0 + len0)] else []) ++ between buf ((pos1, len1) :: starts)
  | _ => []

/-- `drain_nals`: the units, and the buffer after it -/
def drainNals (buf : List UInt8) : List (List UInt8) × List UInt8 :=
  let starts := findStartCodes buf
  if starts.length < 2 then ([], buf) else (between buf starts, buf.drop ((starts.getLast?.map Prod.fst).getD 0))

inductive Call where
  | push (data : List UInt8)
  | drain
  deriving DecidableEq

/-- What the calls drain, and the buffer after them -/
def run : List UInt8 → List Call → List (List UInt8) × List UInt8
  | buf, [] => ([], buf)
  | buf, .push data :: calls => run (buf ++ data) calls
  | buf, .drain :: calls => ((drainNals buf).1 ++ (run (drainNals buf).2 calls).1, (run (drainNals buf).2 calls).2)

def pushed : List Call → List UInt8
  | [] => []
  | .push data :: calls => data ++ pushed calls
  | .drain :: calls => pushed calls

/-! ## What a start code is -/

/-- Four bytes `00 00 00 01`, or three `00 00 01` with no zero before them -/
def StartCode (total : List UInt8) (p n : Nat) : Prop :=
  n = 4 ∧ [0, 0, 0, 1] <+: total.drop p ∨ n = 3 ∧ [0, 0, 1] <+: total.drop p ∧ ∀ q, p = q + 1 → total[q]? ≠ some 0

/-- All start codes of a stream, from left to right -/
structure StartCodes (total : List UInt8) (starts : List (Nat × Nat)) : Prop where
  mem : ∀ p n, (p, n) ∈ starts ↔ StartCode total p n
  apart : starts.Pairwise fun s s' => s.1 + s.2 ≤ s'.1

/-- The run between each start code and the next -/
def runsBetween (total : List UInt8) (starts : List (Nat × Nat)) : List (List UInt8) :=
  (starts.zip starts.tail).map (fun s => (total.take s.2.1).drop (s.1.1 + s.1.2))

/-! ## The scan -/

variable {a : List UInt8} {i : Nat}

theorem codeAt_le (a : List UInt8) : codeAt a ≤ a.length := by
  unfold codeAt
  split
  · split
    · rename_i h
      exact (List.getElem?_eq_some_iff.1 h).1
    · split
      · rename_i h
        exact (List.getElem?_eq_some_iff.1 h.2).1
      · exact Nat.zero_le _
  · exact Nat.zero_le _

theorem codeAt_append (b : List UInt8) (h : codeAt a ≠ 0 ∨ 3 < a.length) : codeAt (a ++ b) = codeAt a := by
  have hlen : codeAt a = 3 ∨ 3 < a.length := by
    refine h.elim (fun h => ?_) .inr
    have hle := codeAt_le a
    unfold codeAt at h hle ⊢
    grind
  have hget : ∀ k < a.length, (a ++ b)[k]? = a[k]? := fun k hk => getElem?_append_left hk
  have h3 : 3 ≤ a.length := hlen.elim (fun h => h ▸ codeAt_le a) Nat.le_of_lt
  rcases hlen with hlen | hlen
  · unfold codeAt at hlen ⊢
    grind
  · unfold codeAt
    rw [hget 0 (by omega), hget 1 (by omega), hget 2 (by omega), hget 3 hlen]

theorem startCodes_short (h : a.length < 3) : startCodes i a = [] := by
  induction a generalizing i with
  | nil => rw [startCodes]
  | cons b buf ih =>
    have hcode : codeAt (b :: buf) = 0 := by
      unfold codeAt
      grind
    rw [startCodes, if_pos hcode, ih (by rw [length_cons] at h; omega)]

theorem startCodes_prefix (b : List UInt8) (i : Nat) (a : List UInt8) : startCodes i a <+: startCodes i (a ++ b) := by
  fun_induction startCodes i a with
  | case1 => exact nil_prefix
  | case2 i c buf n hn ih =>
    by_cases hlen : 3 < (c :: buf).length
    · rw [cons_append, startCodes, ← cons_append, codeAt_append b (.inr hlen), if_pos hn]
      exact ih
    · rw [startCodes_short (by rw [length_cons] at hlen; omega)]
      exact nil_prefix
  | case3 i c buf n hn ih =>
    have hle := codeAt_le (c :: buf)
    rw [cons_append, startCodes, ← cons_append, codeAt_append b (.inl hn), if_neg hn,
      drop_append_of_le_length (by rw [length_cons] at hle; omega)]
    exact prefix_cons_inj _ |>.2 ih

theorem startCodes_add (k i : Nat) (a : List UInt8) : startCodes (i + k) a = (startCodes i a).map (fun s => (s.1 + k, s.2)) := by
  fun_induction startCodes i a with
  | case1 => rw [startCodes]; rfl
  | case2 i c buf n hn ih => rw [startCodes, if_pos hn, Nat.add_right_comm, ih]
  | case3 i c buf n hn ih =>
    rw [startCodes, if_neg hn, Nat.add_right_comm, ih]
    rfl

/-- From each start code on, the scan goes as it would go from there. -/
theorem startCodes_at {p n : Nat} {r : List (Nat × Nat)} (i : Nat) (a : List UInt8) : ∀ {l : List (Nat × Nat)},
    startCodes i a = l ++ (p, n) :: r → i ≤ p ∧ p + n ≤ i + a.length ∧ startCodes p (a.drop (p - i)) = (p, n) :: r ∧
      startCodes (p + n) (a.drop (p - i + n)) = r := by
  fun_induction startCodes i a with
  | case1 =>
    intro l h
    cases l <;> cases h
  | @case2 i b buf m hm ih =>
    intro l h
    obtain ⟨hle, hlen, hfrom, hafter⟩ := ih h
    have hdrop : ∀ k, (b :: buf).drop (p - i + k) = buf.drop (p - (i + 1) + k) := fun k => by
      rw [show p - i + k = p - (i + 1) + k + 1 by omega]
      rfl
    refine ⟨by omega, by rw [length_cons]; omega, ?_, by rw [hdrop]; exact hafter⟩
    rw [← Nat.add_zero (p - i), hdrop]
    exact hfrom
  | @case3 i b buf m hm ih =>
    intro l h
    have hle := codeAt_le (b :: buf)
    cases l with
    | nil =>
      obtain ⟨hfirst, rfl⟩ := cons.inj h
      obtain ⟨rfl, rfl⟩ := Prod.mk.inj hfirst
      obtain ⟨k, hk⟩ := Nat.exists_eq_succ_of_ne_zero hm
      refine ⟨le_rfl, Nat.add_le_add_left hle _, ?_, ?_⟩
      · rw [Nat.sub_self, drop_zero, startCodes, if_neg hm]
      · rw [Nat.sub_self, Nat.zero_add]
        change startCodes _ ((b :: buf).drop (codeAt (b :: buf))) = startCodes _ (buf.drop (codeAt (b :: buf) - 1))
        rw [show codeAt (b :: buf) = k + 1 from hk]
        rfl
    | cons s l =>
      obtain ⟨-, htail⟩ := cons.inj h
      obtain ⟨hle', hlen, hfrom, hafter⟩ := ih htail
      have hdrop : ∀ j, (b :: buf).drop (p - i + j) = (buf.drop (m - 1)).drop (p - (i + m) + j) := fun j => by
        rw [drop_drop, show p - i + j = m - 1 + (p - (i + m) + j) + 1 by omega]
        rfl
      rw [length_drop] at hlen
      rw [length_cons] at hle ⊢
      refine ⟨by omega, ?_, ?_, by rw [hdrop]; exact hafter⟩
      · omega
      · rw [← Nat.add_zero (p - i), hdrop]
        exact hfrom

/-- Between two start codes there is none. -/
theorem startCodes_free (i : Nat) (a : List UInt8) {q m : Nat} {r : List (Nat × Nat)} (h : startCodes i a = (q, m) :: r) :
    ¬[0, 0, 1] <:+: a.take (q - i) := by
  fun_induction startCodes i a with
  | case1 => cases h
  | case2 i b buf n hn ih =>
    have hle := (@startCodes_at _ _ _ _ _ [] h).1
    rw [show q - i = q - (i + 1) + 1 by omega, take_succ_cons, infix_cons_iff]
    rintro (hhead | htail)
    · obtain ⟨t, ht⟩ := hhead
      have hcode : b :: buf = 0 :: 0 :: 1 :: (t ++ buf.drop (q - (i + 1))) := by
        rw [← take_append_drop (q - (i + 1)) buf, ← cons_append, ← ht, take_append_drop]
        rfl
      have hzero : codeAt (b :: buf) = 0 := hn
      rw [hcode] at hzero
      cases hzero
    · exact ih h htail
  | case3 i b buf n hn ih =>
    obtain ⟨hfirst, -⟩ := cons.inj h
    rw [← (Prod.mk.inj hfirst).1, Nat.sub_self]
    simp

theorem codeAt_eq_three : codeAt a = 3 ↔ [0, 0, 1] <+: a := by
  match a with
  | [] | [_] | [_, _] => simp [codeAt, cons_prefix_cons]
  | x :: y :: z :: t =>
    simp only [codeAt, getElem?_cons_zero, getElem?_cons_succ, cons_prefix_cons, nil_prefix, and_true, Option.some.injEq]
    grind

theorem codeAt_eq_four : codeAt a = 4 ↔ [0, 0, 0, 1] <+: a := by
  match a with
  | [] | [_] | [_, _] => simp [codeAt, cons_prefix_cons]
  | [_, _, _] =>
    simp [codeAt, cons_prefix_cons]
    grind
  | x :: y :: z :: w :: t =>
    simp only [codeAt, getElem?_cons_zero, getElem?_cons_succ, cons_prefix_cons, nil_prefix, and_true, Option.some.injEq]
    grind

theorem codeAt_cases (a : List UInt8) : codeAt a = 0 ∨ codeAt a = 3 ∨ codeAt a = 4 := by
  unfold codeAt
  grind

theorem startCode_iff {total : List UInt8} {p n : Nat} : StartCode total p n ↔
    n ≠ 0 ∧ codeAt (total.drop p) = n ∧ (n = 3 → ∀ q, p = q + 1 → total[q]? ≠ some 0) := by
  unfold StartCode
  rw [← codeAt_eq_three, ← codeAt_eq_four]
  have := codeAt_cases (total.drop p)
  grind

/-- The bytes of a start code after its first are no start code's first. -/
theorem not_startCode_within {total : List UInt8} {p n k m : Nat} (h : codeAt (total.drop p) = n) (hk : 0 < k) (hlt : k < n) :
    ¬StartCode total (p + k) m := by
  have hget : ∀ j, (total.drop p)[k + j]? = (total.drop (p + k))[j]? := fun j => by
    rw [getElem?_drop, getElem?_drop, Nat.add_assoc]
  rw [startCode_iff]
  rintro ⟨hm, hcode, hzero⟩
  have hlast := fun hm3 => hzero hm3 (p + k - 1) (by omega)
  have hbefore : total[p + k - 1]? = (total.drop p)[k - 1]? := by
    rw [getElem?_drop, show p + (k - 1) = p + k - 1 by omega]
  generalize total.drop (p + k) = b at *
  unfold codeAt at h hcode
  have hn : k = 1 ∨ k = 2 ∨ k = 3 := by grind
  grind

/-- **The scan finds the start codes from its position on**, where a `00 00 01` right there has no zero before it. -/
theorem mem_startCodes {total : List UInt8} (i : Nat) (a : List UInt8) (ha : a = total.drop i)
    (hfirst : codeAt a = 3 → ∀ q, i = q + 1 → total[q]? ≠ some 0) : ∀ p n, (p, n) ∈ startCodes i a ↔ i ≤ p ∧ StartCode total p n := by
  fun_induction startCodes i a with
  | case1 i =>
    intro p n
    rw [startCode_iff]
    refine iff_of_false not_mem_nil ?_
    rintro ⟨hle, hn, hcode, -⟩
    rw [drop_eq_nil_of_le ((drop_eq_nil_iff.1 ha.symm).trans hle)] at hcode
    exact hn hcode.symm
  | case2 i b buf n hn ih =>
    have hnext : buf = total.drop (i + 1) := by rw [← tail_drop, ← ha, tail_cons]
    have hget : total[i]? = some b := by rw [← head?_drop, ← ha, head?_cons]
    intro p m
    rw [ih hnext (fun hcode q hq => ?_) p m]
    · refine ⟨fun h => ⟨by omega, h.2⟩, fun h => ⟨?_, h.2⟩⟩
      rcases Nat.lt_or_eq_of_le h.1 with hlt | rfl
      · exact hlt
      · obtain ⟨hm, hcode, -⟩ := startCode_iff.1 h.2
        rw [← ha] at hcode
        exact absurd (hcode.symm.trans hn) hm
    -- a zero before `00 00 01` makes it a start code of four bytes
    · obtain rfl : i = q := by omega
      rw [hget]
      rintro ⟨⟩
      obtain ⟨t, rfl⟩ := codeAt_eq_three.1 hcode
      exact absurd hn (by rw [show n = 4 from rfl]; decide)
  | case3 i b buf n hn ih =>
    have hcode : codeAt (total.drop i) = n := by rw [← ha]
    have hnext : buf.drop (n - 1) = total.drop (i + n) := by
      rw [← drop_drop, ← ha, show n = n - 1 + 1 by omega]
      rfl
    intro p m
    rw [mem_cons, ih hnext (fun _ q hq => ?_) p m]
    · constructor
      · rintro (heq | ⟨hle, hp⟩)
        · obtain ⟨rfl, rfl⟩ := Prod.mk.inj heq
          refine ⟨Nat.le_refl _, startCode_iff.2 ⟨hn, hcode, fun h3 => hfirst ?_⟩⟩
          exact h3
        · exact ⟨by omega, hp⟩
      · rintro ⟨hle, hp⟩
        rcases Nat.lt_or_ge p (i + n) with hlt | hge
        · rcases Nat.eq_or_lt_of_le hle with rfl | hgt
          · exact .inl (by rw [← (startCode_iff.1 hp).2.1, hcode])
          · exact absurd hp (by
              rw [show p = i + (p - i) by omega]
              exact not_startCode_within hcode (by omega) (by omega))
        · exact .inr ⟨hge, hp⟩
    -- a start code ends in one
    · have hlast : (total.drop i)[n - 1]? = some 1 := by
        rcases codeAt_cases (total.drop i) with h | h | h
        · exact absurd (hcode.symm.trans h) hn
        · obtain ⟨t, ht⟩ := codeAt_eq_three.1 h
          rw [← hcode, ← ht]
          rfl
        · obtain ⟨t, ht⟩ := codeAt_eq_four.1 h
          rw [← hcode, ← ht]
          rfl
      rw [getElem?_drop, show i + (n - 1) = q by omega] at hlast
      rw [hlast]
      decide

theorem startCodes_apart (i : Nat) (a : List UInt8) : (∀ s ∈ startCodes i a, i ≤ s.1) ∧
    (startCodes i a).Pairwise (fun s s' => s.1 + s.2 ≤ s'.1) := by
  fun_induction startCodes i a with
  | case1 => exact ⟨nofun, .nil⟩
  | case2 i b buf n hn ih => exact ⟨fun s hs => Nat.le_of_succ_le (ih.1 s hs), ih.2⟩
  | case3 i b buf n hn ih =>
    refine ⟨fun s hs => ?_, .cons ih.1 ih.2⟩
    rcases mem_cons.1 hs with rfl | hs
    · exact Nat.le_refl _
    · exact (Nat.le_add_right i n).trans (ih.1 s hs)

theorem findStartCodes_spec (total : List UInt8) : StartCodes total (findStartCodes total) where
  mem p n := (mem_startCodes 0 total rfl (fun _ q hq => absurd hq.symm (Nat.succ_ne_zero q)) p n).trans
    (and_iff_right (Nat.zero_le p))
  apart := (startCodes_apart 0 total).2

/-! ## What is drained -/

theorem between_eq (total : List UInt8) : ∀ starts : List (Nat × Nat), (∀ s ∈ starts, s.1 ≤ total.length) →
    between total starts = (runsBetween total starts).filter (fun run => run ≠ [])
  | [], _ | [_], _ => rfl
  | s :: s' :: starts, h => by
    have hs' := h s' (mem_cons_of_mem _ mem_cons_self)
    have hlength : ((total.take s'.1).drop (s.1 + s.2)).length = s'.1 - (s.1 + s.2) := by
      rw [length_drop, length_take, Nat.min_eq_left hs']
    have hrest := between_eq total (s' :: starts) (fun x hx => h x (mem_cons_of_mem _ hx))
    have hruns : runsBetween total (s :: s' :: starts) = (total.take s'.1).drop (s.1 + s.2) :: runsBetween total (s' :: starts) := rfl
    rw [between, hruns, hrest]
    split
    · rw [filter_cons_of_pos, singleton_append]
      refine decide_eq_true (fun hnil => ?_)
      rw [hnil, length_nil] at hlength
      omega
    · rw [filter_cons_of_neg, nil_append]
      rw [eq_nil_of_length_eq_zero (hlength.trans (by omega))]
      decide

theorem between_append (buf : List UInt8) (s : Nat × Nat) (r : List (Nat × Nat)) : ∀ l : List (Nat × Nat),
    between buf (l ++ s :: r) = between buf (l ++ [s]) ++ between buf (s :: r)
  | [] => rfl
  | [s'] => by
    change _ ++ between buf (s :: r) = (_ ++ between buf [s]) ++ between buf (s :: r)
    rw [show between buf [s] = [] from rfl, append_nil]
  | s' :: s'' :: l => by
    change _ ++ between buf (s'' :: l ++ s :: r) = (_ ++ between buf (s'' :: l ++ [s])) ++ between buf (s :: r)
    rw [between_append buf s r (s'' :: l), append_assoc]

theorem between_push {buf : List UInt8} (data : List UInt8) : ∀ {starts : List (Nat × Nat)},
    (∀ s ∈ starts, s.1 ≤ buf.length) → between (buf ++ data) starts = between buf starts
  | [], _ | [_], _ => rfl
  | s :: s' :: starts, h => by
    have hs' := h s' (mem_cons_of_mem _ mem_cons_self)
    rw [between, between, between_push data (fun x hx => h x (mem_cons_of_mem _ hx)), take_append_of_le_length hs']

theorem between_drop (buf : List UInt8) (k : Nat) : ∀ starts : List (Nat × Nat),
    between (buf.drop k) starts = between buf (starts.map (fun s => (s.1 + k, s.2)))
  | [] | [_] => rfl
  | s :: s' :: starts => by
    rw [between, between_drop buf k (s' :: starts)]
    change _ = (if s.1 + k + s.2 < s'.1 + k then [(buf.take (s'.1 + k)).drop (s.1 + k + s.2)] else []) ++ _
    have hlt : s.1 + k + s.2 < s'.1 + k ↔ s.1 + s.2 < s'.1 := by omega
    simp only [hlt]
    rw [take_drop, drop_drop, Nat.add_comm k s'.1, show k + (s.1 + s.2) = s.1 + k + s.2 by omega]
    rfl

/-- The buffer after some calls: all that was pushed, or what follows a start code in it, the units before it drained -/
def Drained (total : List UInt8) (out : List (List UInt8)) (buf : List UInt8) : Prop :=
  (out = [] ∧ buf = total) ∨ ∃ l s r, l ≠ [] ∧ findStartCodes total = l ++ s :: r ∧ out = between total (l ++ [s]) ∧
    buf = total.drop s.1

variable {total buf : List UInt8} {out : List (List UInt8)}

theorem Drained.push (h : Drained total out buf) (data : List UInt8) : Drained (total ++ data) out (buf ++ data) := by
  rcases h with ⟨rfl, rfl⟩ | ⟨l, s, r, hl, hfind, rfl, rfl⟩
  · exact .inl ⟨rfl, rfl⟩
  · obtain ⟨r', hr'⟩ := startCodes_prefix data 0 total
    have hle : ∀ x ∈ l ++ [s], x.1 ≤ total.length := fun x hx => by
      obtain ⟨l₁, r₁, hsplit⟩ := append_of_mem (mem_append_left r hx)
      rw [append_assoc] at hsplit
      have := (startCodes_at 0 total (hfind.trans hsplit)).2.1
      omega
    refine .inr ⟨l, s, r ++ r', hl, ?_, (between_push data hle).symm, ?_⟩
    · rw [findStartCodes, ← hr', ← cons_append, ← append_assoc, ← hfind]
      rfl
    · rw [drop_append_of_le_length (hle s (mem_append_right _ (mem_singleton_self _)))]

theorem drained_total (total : List UInt8) : Drained total (drainNals total).1 (drainNals total).2 := by
  unfold drainNals
  dsimp only
  split
  · exact .inl ⟨rfl, rfl⟩
  · rename_i hlen
    rcases eq_nil_or_concat' (findStartCodes total) with hnil | ⟨l, s, hfind⟩
    · rw [hnil] at hlen
      exact absurd (by decide) hlen
    · rw [hfind] at hlen
      refine .inr ⟨l, s, [], fun h => hlen (by rw [h]; exact Nat.one_lt_two), hfind, by rw [hfind], ?_⟩
      rw [hfind, getLast?_concat]
      rfl

theorem Drained.drain (h : Drained total out buf) :
    out ++ (drainNals buf).1 = (drainNals total).1 ∧ (drainNals buf).2 = (drainNals total).2 := by
  rcases h with ⟨rfl, rfl⟩ | ⟨l, s, r, hl, hfind, rfl, rfl⟩
  · exact ⟨rfl, rfl⟩
  have hfrom := (startCodes_at 0 total hfind).2.2.1
  rw [← Nat.zero_add s.1, startCodes_add, Nat.zero_add, Nat.sub_zero] at hfrom
  have hlen : ¬(findStartCodes total).length < 2 := by
    rw [hfind, length_append, length_cons]
    have := length_pos_iff.2 hl
    omega
  have htotal : drainNals total = (between total (findStartCodes total),
      total.drop (((findStartCodes total).getLast?.map Prod.fst).getD 0)) := if_neg hlen
  unfold drainNals
  dsimp only
  split
  · rename_i hshort
    have hr : r = [] := by
      have := congrArg List.length hfrom
      rw [length_map, length_cons] at this
      exact length_eq_zero_iff.1 (by unfold findStartCodes at hshort; omega)
    rw [hfind, hr, append_nil, getLast?_concat]
    exact ⟨rfl, rfl⟩
  · refine ⟨by rw [between_drop, findStartCodes, hfrom, hfind, ← between_append], ?_⟩
    have hlast : (findStartCodes total).getLast? = (findStartCodes (total.drop s.1)).getLast?.map (fun x => (x.1 + s.1, x.2)) := by
      rw [hfind, getLast?_append_of_ne_nil _ (cons_ne_nil _ _), ← hfrom, getLast?_map]
      rfl
    rename_i hlong
    rcases eq_nil_or_concat' (findStartCodes (total.drop s.1)) with hnil | ⟨l', x, hx⟩
    · rw [hnil] at hlong
      exact absurd (by decide) hlong
    · rw [hlast, hx, getLast?_concat, drop_drop, Nat.add_comm]
      rfl

theorem Drained.run : ∀ (calls : List Call) {total : List UInt8} {out : List (List UInt8)} {buf : List UInt8},
    Drained total out buf → Drained (total ++ pushed calls) (out ++ (run buf calls).1) (run buf calls).2
  | [], _, _, _, h => by
    rw [pushed, Stream.run, append_nil, append_nil]
    exact h
  | .push data :: calls, _, _, _, h => by
    rw [pushed, ← append_assoc]
    exact Drained.run calls (h.push data)
  | .drain :: calls, total, _, _, h => by
    rw [Stream.run, ← append_assoc]
    have hdrain := h.drain
    refine Drained.run calls ?_
    rw [hdrain.1, hdrain.2]
    exact drained_total total

theorem between_free (total : List UInt8) : ∀ (starts l : List (Nat × Nat)), findStartCodes total = l ++ starts →
    ∀ nal ∈ between total starts, ¬[0, 0, 1] <:+: nal
  | [], _, _, _, hnal | [_], _, _, _, hnal => absurd hnal not_mem_nil
  | s :: s' :: starts, l, h, nal, hnal => by
    have h' : findStartCodes total = (l ++ [s]) ++ s' :: starts := by rw [h, append_assoc]; rfl
    rw [between, mem_append] at hnal
    rcases hnal with hnal | hnal
    · split at hnal
      · rw [mem_singleton.1 hnal, drop_take]
        exact startCodes_free _ _ (startCodes_at 0 total h).2.2.2
      · cases hnal
    · exact between_free total (s' :: starts) (l ++ [s]) h' nal hnal

/-- **The units do not depend on the cuts**: whatever is pushed and drained in between, with a last drain what was drained
are the non-empty runs between the start codes of the whole, no start code in any, and what is kept follows the last. -/
theorem drained_exact (calls : List Call) : let total := pushed calls
    let (out, buf) := run [] calls
    drainNals total = (out ++ (drainNals buf).1, (drainNals buf).2) ∧ ∃ starts, StartCodes total starts ∧
        out ++ (drainNals buf).1 = (runsBetween total starts).filter (fun run => run ≠ []) ∧
        (∀ nal ∈ out ++ (drainNals buf).1, ¬[0, 0, 1] <:+: nal) ∧
        (drainNals buf).2 = if starts.length < 2 then total else total.drop ((starts.getLast?.map Prod.fst).getD 0) := by
  obtain ⟨hunits, hkept⟩ := (Drained.run calls (.inl ⟨rfl, rfl⟩ : Drained [] [] [])).drain
  rw [nil_append, nil_append] at hunits
  rw [nil_append] at hkept
  have hbetween : (drainNals (pushed calls)).1 = between (pushed calls) (findStartCodes (pushed calls)) := by
    unfold drainNals
    dsimp only
    split
    · rename_i hshort
      match findStartCodes (pushed calls), hshort with
      | [], _ | [_], _ => rfl
    · rfl
  have hlength : ∀ s ∈ findStartCodes (pushed calls), s.1 ≤ (pushed calls).length := fun s hs => by
    obtain ⟨l, r, hsplit⟩ := append_of_mem hs
    have := (startCodes_at 0 _ hsplit).2.1
    omega
  dsimp only
  refine ⟨Prod.ext hunits.symm hkept.symm, findStartCodes (pushed calls), findStartCodes_spec _, ?_, ?_, ?_⟩
  · rw [hunits, hbetween, between_eq _ _ hlength]
  · rw [hunits, hbetween]
    exact between_free _ _ [] rfl
  · rw [hkept]
    unfold drainNals
    dsimp only
    split <;> rfl

end Mistl.Stream
