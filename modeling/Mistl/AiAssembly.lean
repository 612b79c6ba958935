import Mistl.AiBursts
/-!
# AiAssembly — chunks of a body in any order

An assembly takes the chunks of a request or response in the order they come, each as often as it comes.
-/
open List

namespace Mistl.Ai
namespace Assembly

variable {a b : Assembly} {seq : Nat} {last done : Bool} {data : String}

theorem insertPart_perm (seq : Nat) (data : String) : ∀ l : List (Nat × String), (insertPart seq data l).Perm ((seq, data) :: l)
  | [] => List.Perm.refl _
  | (n, d) :: l => by
    unfold insertPart
    split
    · exact List.Perm.refl _
    · exact ((insertPart_perm seq data l).cons _).trans (List.Perm.swap _ _ _)

theorem insertPart_sorted {l : List (Nat × String)} (h : l.Pairwise (fun p q => p.1 < q.1)) (hnew : ∀ p ∈ l, p.1 ≠ seq) :
    (insertPart seq data l).Pairwise (fun p q => p.1 < q.1) := by
  induction l with
  | nil => exact pairwise_singleton _ _
  | cons p l ih =>
    obtain ⟨hp, hl⟩ := pairwise_cons.1 h
    have hne := hnew p mem_cons_self
    unfold insertPart
    split
    · rename_i hlt
      refine pairwise_cons.2 ⟨fun q hq => ?_, h⟩
      rcases mem_cons.1 hq with rfl | hq
      · exact hlt
      · exact hlt.trans (hp q hq)
    · refine pairwise_cons.2 ⟨fun q hq => ?_, ih hl (fun q hq => hnew q (mem_cons_of_mem _ hq))⟩
      rcases mem_cons.1 ((insertPart_perm seq data l).subset hq) with rfl | hq
      · exact lt_of_le_of_ne (by omega) hne
      · exact hp q hq

theorem contains_iff : a.contains seq = true ↔ seq ∈ a.parts.map Prod.fst := by
  unfold contains
  rw [any_eq_true, mem_map]
  exact ⟨fun ⟨p, hp, heq⟩ => ⟨p, hp, beq_iff_eq.1 heq⟩, fun ⟨p, hp, heq⟩ => ⟨p, hp, beq_iff_eq.2 heq⟩⟩

structure Takes (a : Assembly) (seq : Nat) (last : Bool) (data : String) : Prop where
  absent : a.contains seq = false
  number : seq ≤ maxSeq
  size : data.utf8ByteSize ≤ chunkSize
  ascii : data.toList.all (fun c => decide (c.toNat < 128)) = true
  total : a.chars + data.utf8ByteSize ≤ maxBase64Chars
  fits : ∀ n, a.last = some n → seq ≤ n ∧ (last = true → seq = n)
  final : last = true → ∀ p ∈ a.parts, p.1 ≤ seq

def add (a : Assembly) (seq : Nat) (last : Bool) (data : String) : Assembly :=
  ⟨insertPart seq data a.parts, if last then some seq else a.last, a.chars + data.utf8ByteSize⟩

def full (a : Assembly) : Bool := a.last.any fun n => a.parts.length == n + 1

/-- **A push takes a new part within the limits, says nothing of one it has, and refuses any other.** -/
theorem push_ok : a.push seq last data = .ok (b, done) ↔ (a.contains seq = true ∧ seq ≤ maxSeq ∧ data.utf8ByteSize ≤ chunkSize ∧
      data.toList.all (fun c => decide (c.toNat < 128)) = true ∧ b = a ∧ done = false) ∨
    (a.Takes seq last data ∧ b = a.add seq last data ∧ done = b.full) := by
  unfold push
  split
  · rename_i hbad
    refine ⟨fun h => (nomatch h), ?_⟩
    rintro (⟨-, h1, h2, h3, -⟩ | ⟨h, -⟩)
    · rcases hbad with hbad | hbad | hbad
      · omega
      · omega
      · rw [h3] at hbad
        exact absurd hbad.symm Bool.false_ne_true
    · rcases hbad with hbad | hbad | hbad
      · have := h.number
        omega
      · have := h.size
        omega
      · rw [h.ascii] at hbad
        exact absurd hbad.symm Bool.false_ne_true
  rename_i hgood
  simp only [not_or, Nat.not_lt, Bool.not_eq_false] at hgood
  obtain ⟨h1, h2, h3⟩ := hgood
  split
  · rename_i hhas
    constructor
    · intro h
      cases h
      exact .inl ⟨hhas, h1, h2, h3, rfl, rfl⟩
    · rintro (⟨-, -, -, -, rfl, rfl⟩ | ⟨h, -⟩)
      · rfl
      · exact absurd (hhas.symm.trans h.absent).symm Bool.false_ne_true
  rename_i hnew
  rw [Bool.not_eq_true] at hnew
  have hno : ∀ {p : Prop}, ¬ (a.contains seq = true ∧ p) := fun h => absurd (hnew.symm.trans h.1) Bool.false_ne_true
  split
  · exact ⟨fun h => (nomatch h), fun h => h.elim (fun h => absurd h hno) (fun h => by have := h.1.total; omega)⟩
  rename_i htotal
  split
  · rename_i hbad
    refine ⟨fun h => (nomatch h), fun h => h.elim (fun h => absurd h hno) (fun h => ?_)⟩
    obtain ⟨n, hn, hbad⟩ := (Option.any_eq_true _ _).1 hbad
    obtain ⟨hle, heq⟩ := h.1.fits n hn
    rw [Bool.or_eq_true, Bool.and_eq_true, decide_eq_true_eq, bne_iff_ne] at hbad
    rcases hbad with hlt | ⟨hl, hne⟩
    · omega
    · exact absurd (heq hl) hne
  rename_i hfits
  have hfits : ∀ n, a.last = some n → seq ≤ n ∧ (last = true → seq = n) := by
    intro n hn
    rw [hn, Option.any_some, Bool.or_eq_true, Bool.and_eq_true, decide_eq_true_eq, bne_iff_ne] at hfits
    push Not at hfits
    exact hfits
  split
  · rename_i hbad
    refine ⟨fun h => (nomatch h), fun h => h.elim (fun h => absurd h hno) (fun h => ?_)⟩
    rw [Bool.and_eq_true, any_eq_true] at hbad
    obtain ⟨hl, p, hp, hlt⟩ := hbad
    have := h.1.final hl p hp
    rw [decide_eq_true_eq] at hlt
    omega
  rename_i hfinal
  have hfinal : last = true → ∀ p ∈ a.parts, p.1 ≤ seq := by
    intro hl p hp
    by_contra hlt
    exact hfinal (by rw [hl, Bool.true_and, any_eq_true]; exact ⟨p, hp, decide_eq_true (Nat.lt_of_not_le hlt)⟩)
  constructor
  · intro h
    cases h
    exact .inr ⟨⟨hnew, h1, h2, h3, Nat.le_of_not_lt htotal, hfits, hfinal⟩, rfl, rfl⟩
  · rintro (h | ⟨-, rfl, rfl⟩)
    · exact absurd h hno
    · rfl

/-! ## Whatever is pushed -/

/-- The parts are in order, one for a number, and as long as `chars` says, which is within the limit. -/
structure Sound (a : Assembly) : Prop where
  sorted : a.parts.Pairwise (fun p q => p.1 < q.1)
  chars : a.chars = (a.parts.map (fun p => p.2.utf8ByteSize)).sum
  total : a.chars ≤ maxBase64Chars
  below : ∀ n, a.last = some n → ∀ p ∈ a.parts, p.1 ≤ n

theorem Sound.default : Assembly.default.Sound := ⟨List.Pairwise.nil, rfl, Nat.zero_le _, nofun⟩

theorem Sound.add (h : a.Sound) (ht : a.Takes seq last data) : (a.add seq last data).Sound := by
  have hperm := insertPart_perm seq data a.parts
  refine ⟨insertPart_sorted h.sorted (fun p hp heq => ?_), ?_, ht.total, fun n hn p hp => ?_⟩
  · exact absurd ((contains_iff.2 (mem_map.2 ⟨p, hp, heq⟩)).symm.trans ht.absent).symm Bool.false_ne_true
  · show a.chars + data.utf8ByteSize = ((insertPart seq data a.parts).map _).sum
    rw [(hperm.map _).sum_eq, map_cons, List.sum_cons, ← h.chars, Nat.add_comm]
  · rcases mem_cons.1 (hperm.subset hp) with rfl | hp
    · cases hl : last with
      | true =>
        rw [Assembly.add, hl] at hn
        exact le_of_eq (Option.some.inj hn)
      | false =>
        rw [Assembly.add, hl] at hn
        exact (ht.fits n hn).1
    · cases hl : last with
      | true =>
        rw [Assembly.add, hl] at hn
        exact Option.some.inj hn ▸ ht.final hl p hp
      | false =>
        rw [Assembly.add, hl] at hn
        exact h.below n hn p hp

theorem Sound.push (h : a.Sound) (hpush : a.push seq last data = .ok (b, done)) : b.Sound := by
  rcases push_ok.1 hpush with ⟨-, -, -, -, rfl, -⟩ | ⟨ht, rfl, -⟩
  · exact h
  · exact h.add ht

theorem Sound.nodup (h : a.Sound) : (a.parts.map Prod.fst).Nodup := pairwise_map.2 (h.sorted.imp (fun hlt => Nat.ne_of_lt hlt))

theorem Sound.range (h : a.Sound) {n : Nat} (hbelow : ∀ p ∈ a.parts, p.1 < n) (hlen : a.parts.length = n) :
    a.parts.map Prod.fst = List.range n := by
  have hsub : a.parts.map Prod.fst ⊆ List.range n := by
    intro k hk
    obtain ⟨p, hp, rfl⟩ := mem_map.1 hk
    exact List.mem_range.2 (hbelow p hp)
  have hperm := (subperm_of_subset h.nodup hsub).perm_of_length_le (by rw [length_range, length_map, hlen])
  exact hperm.eq_of_pairwise' (pairwise_map.2 h.sorted) pairwise_lt_range

theorem Sound.complete (h : a.Sound) (hfull : a.full = true) : ∃ n, a.last = some n ∧ a.parts.map Prod.fst = List.range (n + 1) := by
  obtain ⟨n, hn, hlen⟩ := (Option.any_eq_true _ _).1 hfull
  exact ⟨n, hn, h.range (fun p hp => Nat.lt_succ_of_le (h.below n hn p hp)) (beq_iff_eq.1 hlen)⟩

def take (a : Assembly) (x : Nat × Bool × String) : Assembly :=
  match a.push x.1 x.2.1 x.2.2 with
  | .ok (b, _) => b
  | .error _ => a

theorem Sound.take (h : a.Sound) (x : Nat × Bool × String) : (a.take x).Sound := by
  unfold Assembly.take
  split
  · rename_i hpush
    exact h.push hpush
  · exact h

theorem Sound.taken (h : a.Sound) (pushes : List (Nat × Bool × String)) : (pushes.foldl Assembly.take a).Sound := by
  induction pushes generalizing a with
  | nil => exact h
  | cons x pushes ih => exact ih (h.take x)

/-! ## The chunks of a body -/

/-- The chunk `i` of a body, as it is pushed. -/
def part (chunks : List (List Char)) (i : Nat) : Nat × Bool × String :=
  (i, decide (i + 1 = chunks.length), String.ofList (chunks.getD i []))

def pushAll : Assembly → List (Nat × Bool × String) → Except String Assembly
  | a, [] => .ok a
  | a, x :: l =>
    match a.push x.1 x.2.1 x.2.2 with
    | .ok (b, _) => pushAll b l
    | .error e => .error e

structure Chunked (chunks : List (List Char)) : Prop where
  ascii : ∀ c ∈ chunks, ∀ x ∈ c, x.toNat < 128
  size : ∀ c ∈ chunks, c.length ≤ chunkSize
  count : chunks.length ≤ maxSeq
  total : chunks.flatten.length ≤ maxBase64Chars

/-- The assembly has the chunks that were seen, and no other. -/
structure Holds (chunks : List (List Char)) (seen : List Nat) (a : Assembly) : Prop where
  sound : a.Sound
  parts : ∀ p, p ∈ a.parts ↔ ∃ i ∈ seen, p = (i, String.ofList (chunks.getD i []))
  last : ∀ n, a.last = some n ↔ n ∈ seen ∧ n + 1 = chunks.length
  below : ∀ i ∈ seen, i < chunks.length

section Chunks

variable {chunks : List (List Char)} {seen : List Nat} {i : Nat}

theorem Chunked.length (h : Chunked chunks) (i : Nat) : (String.ofList (chunks.getD i [])).utf8ByteSize = (chunks.getD i []).length := by
  refine Json.utf8ByteSize_ascii ?_
  rw [getD_eq_getElem?_getD]
  cases hget : chunks[i]? with
  | none => exact nofun
  | some c => exact h.ascii c (mem_of_getElem? hget)

theorem map_getD_range (chunks : List (List Char)) : (List.range chunks.length).map (fun i => chunks.getD i []) = chunks := by
  refine ext_getElem (by rw [length_map, length_range]) (fun i h1 h2 => ?_)
  rw [getElem_map, getElem_range, getD_eq_getElem?_getD, getElem?_eq_getElem h2, Option.getD_some]

theorem Holds.keys (h : Holds chunks seen a) {k : Nat} : k ∈ a.parts.map Prod.fst ↔ k ∈ seen := by
  rw [mem_map]
  constructor
  · rintro ⟨p, hp, rfl⟩
    obtain ⟨i, hi, rfl⟩ := (h.parts p).1 hp
    exact hi
  · exact fun hk => ⟨_, (h.parts _).2 ⟨k, hk, rfl⟩, rfl⟩

theorem Holds.parts_eq (h : Holds chunks seen a) :
    a.parts = (a.parts.map Prod.fst).map (fun i => (i, String.ofList (chunks.getD i []))) := by
  refine (map_id a.parts).symm.trans ?_
  rw [map_map]
  refine map_congr_left (fun p hp => ?_)
  obtain ⟨i, -, rfl⟩ := (h.parts p).1 hp
  rfl

theorem Holds.total (hc : Chunked chunks) (h : Holds chunks seen a) (hi : i < chunks.length) (hnew : i ∉ seen) :
    a.chars + (chunks.getD i []).length ≤ chunks.flatten.length := by
  have hchars : a.chars = ((a.parts.map Prod.fst).map (fun i => (chunks.getD i []).length)).sum := by
    rw [h.sound.chars]
    conv_lhs => rw [h.parts_eq]
    rw [map_map]
    exact congrArg List.sum (map_congr_left (fun i _ => hc.length i))
  have hsub : i :: a.parts.map Prod.fst ⊆ List.range chunks.length := by
    intro k hk
    rcases mem_cons.1 hk with rfl | hk
    · exact List.mem_range.2 hi
    · exact List.mem_range.2 (h.below k (h.keys.1 hk))
  obtain ⟨l, hperm, hsub⟩ := subperm_of_subset (nodup_cons.2 ⟨fun hk => hnew (h.keys.1 hk), h.sound.nodup⟩) hsub
  have hle := (hsub.map (fun i => (chunks.getD i []).length)).sum_le_sum (fun _ _ => Nat.zero_le _)
  have hflat : ((List.range chunks.length).map (fun i => (chunks.getD i []).length)).sum = chunks.flatten.length := by
    rw [length_flatten, ← congrArg (List.map List.length) (map_getD_range chunks), map_map]
    rfl
  rw [(hperm.map _).sum_eq, map_cons, List.sum_cons] at hle
  omega

theorem Holds.full_iff (h : Holds chunks seen a) (hne : chunks ≠ []) : a.full = true ↔ ∀ j < chunks.length, j ∈ seen := by
  have hpos : 0 < chunks.length := length_pos_of_ne_nil hne
  constructor
  · intro hfull j hj
    obtain ⟨n, hn, hkeys⟩ := h.sound.complete hfull
    rw [← h.keys, hkeys, ((h.last n).1 hn).2]
    exact List.mem_range.2 hj
  · intro hall
    have hlast := (h.last (chunks.length - 1)).2 ⟨hall _ (by omega), by omega⟩
    have hle := (subperm_of_subset h.sound.nodup
      (fun k hk => List.mem_range.2 (h.below k (h.keys.1 hk)))).length_le
    have hge := (subperm_of_subset nodup_range
      (fun k hk => h.keys.2 (hall k (List.mem_range.1 hk)))).length_le
    rw [length_map, length_range] at hle hge
    rw [full, hlast, Option.any_some, beq_iff_eq]
    omega

/-- **A chunk is never refused**, and its push says that the body is complete when it is the last one missing. -/
theorem Holds.push (hc : Chunked chunks) (h : Holds chunks seen a) (hi : i < chunks.length) :
    ∃ b done, a.push (part chunks i).1 (part chunks i).2.1 (part chunks i).2.2 = .ok (b, done) ∧ Holds chunks (i :: seen) b ∧
      (done = true ↔ i ∉ seen ∧ ∀ j < chunks.length, j ∈ i :: seen) := by
  have hmem : chunks.getD i [] ∈ chunks := by
    rw [getD_eq_getElem?_getD, getElem?_eq_getElem hi]
    exact getElem_mem hi
  have hcount := hc.count
  have hsize := hc.size _ hmem
  have hascii : (String.ofList (chunks.getD i [])).toList.all (fun c => decide (c.toNat < 128)) = true := by
    rw [String.toList_ofList, List.all_eq_true]
    exact fun x hx => decide_eq_true (hc.ascii _ hmem x hx)
  by_cases hseen : i ∈ seen
  · have hcons : ∀ j, j ∈ i :: seen ↔ j ∈ seen := fun j => by
      rw [mem_cons]
      exact ⟨fun h => h.elim (fun h => h ▸ hseen) id, Or.inr⟩
    refine ⟨a, false, push_ok.2 (.inl ⟨contains_iff.2 (h.keys.2 hseen), ?_, ?_, hascii, rfl, rfl⟩), ?_,
      ⟨fun h => absurd h Bool.false_ne_true, fun h => absurd hseen h.1⟩⟩
    · show i ≤ maxSeq
      omega
    · exact (hc.length i).trans_le hsize
    · exact ⟨h.sound, fun p => by simp only [hcons, h.parts p], fun n => by rw [hcons, h.last], fun j hj => h.below j ((hcons j).1 hj)⟩
  · have hnew : a.contains i = false := by
      rw [← Bool.not_eq_true, contains_iff, h.keys]
      exact hseen
    have ht : a.Takes (part chunks i).1 (part chunks i).2.1 (part chunks i).2.2 := by
      refine ⟨hnew, ?_, (hc.length i).trans_le hsize, hascii, ?_, fun n hn => ?_, fun hl p hp => ?_⟩
      · show i ≤ maxSeq
        omega
      · rw [part, hc.length i]
        exact (h.total hc hi hseen).trans hc.total
      · have := ((h.last n).1 hn).2
        refine ⟨show i ≤ n by omega, fun hl => ?_⟩
        have := of_decide_eq_true hl
        show i = n
        omega
      · have := h.below _ (h.keys.1 (mem_map_of_mem hp))
        have := of_decide_eq_true hl
        show p.1 ≤ i
        omega
    have hb : Holds chunks (i :: seen) (a.add (part chunks i).1 (part chunks i).2.1 (part chunks i).2.2) := by
      refine ⟨h.sound.add ht, fun p => ?_, fun n => ?_, fun j hj => ?_⟩
      · rw [Assembly.add, (insertPart_perm _ _ _).mem_iff, mem_cons, h.parts]
        simp only [mem_cons, exists_eq_or_imp]
        rfl
      · rw [mem_cons, Assembly.add]
        split
        · rename_i hl
          have hl := of_decide_eq_true hl
          constructor
          · intro hn
            cases hn
            exact ⟨.inl rfl, hl⟩
          · rintro ⟨-, hn⟩
            exact congrArg some (show i = n by omega)
        · rename_i hl
          have hl : i + 1 ≠ chunks.length := fun heq => hl (decide_eq_true heq)
          rw [h.last]
          constructor
          · exact fun hn => ⟨.inr hn.1, hn.2⟩
          · rintro ⟨rfl | hn, heq⟩
            · exact absurd heq hl
            · exact ⟨hn, heq⟩
      · rcases mem_cons.1 hj with rfl | hj
        · exact hi
        · exact h.below j hj
    refine ⟨_, _, push_ok.2 (.inr ⟨ht, rfl, rfl⟩), hb, ?_⟩
    rw [hb.full_iff (ne_nil_of_mem hmem)]
    exact ⟨fun hall => ⟨hseen, hall⟩, fun h => h.2⟩

theorem Holds.default (chunks : List (List Char)) : Holds chunks [] .default :=
  ⟨Sound.default, fun _ => ⟨nofun, fun ⟨_, h, _⟩ => absurd h not_mem_nil⟩, fun _ => ⟨nofun, fun h => absurd h.1 not_mem_nil⟩, nofun⟩

theorem Holds.pushAll (hc : Chunked chunks) (h : Holds chunks seen a) {order : List Nat} (horder : ∀ i ∈ order, i < chunks.length) :
    ∃ b, pushAll a (order.map (part chunks)) = .ok b ∧ Holds chunks (order.reverse ++ seen) b := by
  induction order generalizing a seen with
  | nil => exact ⟨a, rfl, h⟩
  | cons i order ih =>
    obtain ⟨b, done, hpush, hb, -⟩ := h.push hc (horder i mem_cons_self)
    obtain ⟨c, hrun, hcs⟩ := ih hb (fun j hj => horder j (mem_cons_of_mem _ hj))
    refine ⟨c, ?_, by rw [reverse_cons, append_assoc]; exact hcs⟩
    rw [map_cons, Assembly.pushAll, hpush]
    exact hrun

theorem Holds.decode (h : Holds chunks seen a) (hall : ∀ j < chunks.length, j ∈ seen) {body : List UInt8}
    (hbody : Base64.decodeStd chunks.flatten = some body) : a.decode = .ok body := by
  have hkeys : a.parts.map Prod.fst = List.range chunks.length := by
    have hbelow : ∀ k ∈ a.parts.map Prod.fst, k < chunks.length := fun k hk => h.below k (h.keys.1 hk)
    have hle := (subperm_of_subset h.sound.nodup (fun k hk => List.mem_range.2 (hbelow k hk))).length_le
    have hge := (subperm_of_subset nodup_range
      (fun k hk => h.keys.2 (hall k (List.mem_range.1 hk)))).length_le
    rw [length_map, length_range] at hle hge
    exact h.sound.range (fun p hp => hbelow _ (mem_map_of_mem hp)) (by omega)
  have hflat : a.parts.flatMap (fun p => p.2.toList) = chunks.flatten := by
    rw [h.parts_eq, hkeys, flatMap_map]
    simp only [String.toList_ofList]
    exact congrArg List.flatten (map_getD_range chunks)
  rw [Assembly.decode, hflat, hbody]
  rfl

end Chunks

/-- Of pushes among which is each chunk, one is the first to leave none missing. -/
theorem exists_last_missing {n : Nat} (hn : 0 < n) (order : List Nat) (h : ∀ j < n, j ∈ order) : ∃ before i after,
    order = before ++ i :: after ∧ i ∉ before ∧ ∀ j < n, j ∈ i :: before := by
  induction order using List.reverseRecOn with
  | nil => exact absurd (h 0 hn) not_mem_nil
  | append_singleton order i ih =>
    by_cases hall : ∀ j < n, j ∈ order
    · obtain ⟨before, k, after, rfl, hk, hcovered⟩ := ih hall
      exact ⟨before, k, after ++ [i], by rw [append_assoc, cons_append], hk, hcovered⟩
    · have hlast : ∀ j < n, j ∈ i :: order := fun j hj => by
        rcases mem_append.1 (h j hj) with hold | hnew
        · exact mem_cons_of_mem _ hold
        · exact mem_singleton.1 hnew ▸ mem_cons_self
      refine ⟨order, i, [], rfl, fun hi => hall fun j hj => ?_, hlast⟩
      rcases mem_cons.1 (hlast j hj) with rfl | hold
      · exact hi
      · exact hold

/-- **A body within the limit goes over in its chunks, in any order and however often each comes**: there are some, one of them for
an empty body, and the push of the last one missing completes the body; and whatever is pushed, an assembly is as long as its parts,
within the limit, and complete with the parts up to the last one only. -/
theorem assembly_exact : (∀ body : List UInt8, body.length ≤ maxBytes →
      tunnelChunks body ≠ [] ∧ (body = [] → tunnelChunks body = [[]]) ∧
      (tunnelChunks body).length ≤ maxSeq + 1 ∧ (∀ c ∈ tunnelChunks body, c.length ≤ chunkSize) ∧
      (∀ (before : List Nat) (i : Nat), (∀ j ∈ i :: before, j < (tunnelChunks body).length) →
        ∃ a b done, pushAll .default (before.map (part (tunnelChunks body))) = .ok a ∧
          a.push (part (tunnelChunks body) i).1 (part (tunnelChunks body) i).2.1 (part (tunnelChunks body) i).2.2 = .ok (b, done) ∧
          (done = true ↔ i ∉ before ∧ ∀ j < (tunnelChunks body).length, j ∈ i :: before) ∧
          (done = true → b.decode = .ok body)) ∧
      ∀ order : List Nat, (∀ j, j ∈ order ↔ j < (tunnelChunks body).length) → ∃ before i after a b, order = before ++ i :: after ∧
        pushAll .default (before.map (part (tunnelChunks body))) = .ok a ∧
        a.push (part (tunnelChunks body) i).1 (part (tunnelChunks body) i).2.1 (part (tunnelChunks body) i).2.2 = .ok (b, true) ∧
        b.decode = .ok body) ∧
    ∀ (pushes : List (Nat × Bool × String)), ∃ a, pushes.foldl Assembly.take .default = a ∧
      a.chars = (a.parts.map (fun p => p.2.utf8ByteSize)).sum ∧ a.chars ≤ maxBase64Chars ∧
      ∀ seq last data b, a.push seq last data = .ok (b, true) → ∃ n, b.last = some n ∧ b.parts.map Prod.fst = List.range (n + 1) := by
  constructor
  · intro body hsize
    obtain ⟨c, rest, hchunks, hflat, hall, hcount⟩ := tunnelChunks_eq hsize
    have hlength := Base64.length_encodeStd body
    have hc : Chunked (c :: rest) := by
      refine ⟨fun d hd => (hall d hd).1, fun d hd => (hall d hd).2, hcount, ?_⟩
      rw [hflat]
      unfold maxBytes maxBase64Chars at hsize
      unfold maxBase64Chars
      omega
    have hpushes : ∀ (before : List Nat) (i : Nat), (∀ j ∈ i :: before, j < (c :: rest).length) →
        ∃ a b done, pushAll .default (before.map (part (c :: rest))) = .ok a ∧
          a.push (part (c :: rest) i).1 (part (c :: rest) i).2.1 (part (c :: rest) i).2.2 = .ok (b, done) ∧
          (done = true ↔ i ∉ before ∧ ∀ j < (c :: rest).length, j ∈ i :: before) ∧ (done = true → b.decode = .ok body) := by
      intro before i hbelow
      obtain ⟨a, hrun, ha⟩ := (Holds.default (c :: rest)).pushAll hc (fun j hj => hbelow j (mem_cons_of_mem _ hj))
      rw [append_nil] at ha
      obtain ⟨b, done, hpush, hb, hdone⟩ := ha.push hc (hbelow i mem_cons_self)
      refine ⟨a, b, done, hrun, hpush, ?_, fun hd => ?_⟩
      · rw [hdone]
        simp only [mem_cons, mem_reverse]
      · exact hb.decode (hdone.1 hd).2 (by rw [hflat]; exact Base64.decodeStd_encodeStd body)
    refine ⟨by rw [hchunks]; exact cons_ne_nil _ _, fun hnil => by rw [hnil]; rfl, ?_⟩
    rw [hchunks]
    refine ⟨hcount.trans (Nat.le_succ _), hc.size, hpushes, fun order horder => ?_⟩
    obtain ⟨before, i, after, rfl, hi, hcovered⟩ := exists_last_missing (Nat.succ_pos rest.length) order (fun j hj => (horder j).2 hj)
    have hbelow : ∀ j ∈ i :: before, j < (c :: rest).length := fun j hj => (horder j).1 (by
      rcases mem_cons.1 hj with rfl | hj
      · exact mem_append_right _ mem_cons_self
      · exact mem_append_left _ hj)
    obtain ⟨a, b, done, hrun, hpush, hdone, hdecode⟩ := hpushes before i hbelow
    obtain rfl : done = true := hdone.2 ⟨hi, hcovered⟩
    exact ⟨before, i, after, a, b, rfl, hrun, hpush, hdecode rfl⟩
  · intro pushes
    have hsound := Sound.default.taken pushes
    refine ⟨_, rfl, hsound.chars, hsound.total, fun seq last data b hpush => ?_⟩
    rcases push_ok.1 hpush with ⟨-, -, -, -, -, hdone⟩ | ⟨ht, rfl, hfull⟩
    · exact absurd hdone.symm Bool.false_ne_true
    · exact (hsound.add ht).complete hfull.symm

end Assembly
end Mistl.Ai
