import Mathlib.Data.List.Dedup
import Mathlib.Order.Lex
import Mistl.NostrStore
/-!
# NostrQuery — filters, and what the store answers

`Filter::matches` and `Store::query`.  A filter that names ids is looked up, any other is read off the index by time,
newest first; both find the first events of the filter's listing, and an answer is the first part of their union.
-/
open List Option

namespace Mistl.Nostr

structure Filter where
  ids : Option (List String)
  authors : Option (List String)
  kinds : Option (List Nat)
  tags : List (Char × List String)
  since : Option Nat
  «until» : Option Nat
  limit : Option Nat
  deriving DecidableEq

namespace Filter

def default : Filter := ⟨none, none, none, [], none, none, none⟩

def «matches» (f : Filter) (ev : Event) : Bool :=
  f.ids.all (fun ids => ids.contains ev.id) && f.authors.all (fun authors => authors.contains ev.pubkey) &&
    f.kinds.all (fun kinds => kinds.contains ev.kind) && f.since.all (fun since => decide (since ≤ ev.createdAt)) &&
    f.until.all (fun bound => decide (ev.createdAt ≤ bound)) &&
    f.tags.all (fun t => (ev.tagValues (String.singleton t.1)).any (fun value => t.2.contains value))

def first (f : Filter) (l : List Event) : List Event := f.limit.elim l l.take

end Filter

def answerKey (ev : Event) : Natᵒᵈ ×ₗ String := toLex (OrderDual.toDual ev.createdAt, ev.id)

namespace Store

variable (s : Store)

def newestCreatedAt : Option Nat := s.byTime.getLast?.map (fun key => (ofLex key).1)

/-- The index by time from one time to another, times descending and ids ascending. -/
def range (since bound : Nat) : List (Nat ×ₗ String) :=
  (((s.byTime.map (fun key => (ofLex key).1)).dedup.filter (fun t => since ≤ t ∧ t ≤ bound)).reverse).flatMap
    (fun t => s.byTime.filter (fun key => (ofLex key).1 = t))

def contribution (newest cap now : Nat) (f : Filter) : List Event :=
  let limit := min (f.limit.getD cap) cap
  if limit = 0 then []
  else
    match f.ids with
    | some ids =>
      let candidates := (ids.filterMap s.events.get).filter (fun ev => !expired ev now && f.matches ev)
      ((candidates.foldl (fun keys ev => Ordered.place (answerKey ev) keys) []).take limit).filterMap
        (fun key => s.events.get (ofLex key).2)
    | none =>
      let since := f.since.getD 0
      let bound := min (f.until.getD newest) newest
      if bound < since then []
      else
        (((s.range since bound).filterMap (fun key => s.events.get (ofLex key).2)).filter
          (fun ev => !expired ev now && f.matches ev)).take limit

/-- `query`, over the ordered keys of the events found. -/
def query (filters : List Filter) (cap now : Nat) : List Event :=
  match s.newestCreatedAt.filter (fun _ => cap ≠ 0) with
  | none => []
  | some newest =>
    ((filters.flatMap (s.contribution newest cap now)).foldl (fun keys ev => Ordered.place (answerKey ev) keys)
      []).filterMap (fun key => s.events.get (ofLex key).2) |>.take cap

/-! ## What an answer has -/

variable {s}

theorem mem_range {since bound : Nat} {key : Nat ×ₗ String} :
    key ∈ s.range since bound ↔ key ∈ s.byTime ∧ since ≤ (ofLex key).1 ∧ (ofLex key).1 ≤ bound := by
  simp only [range, mem_flatMap, mem_reverse, mem_filter, mem_dedup, List.mem_map, decide_eq_true_eq]
  constructor
  · rintro ⟨t, ⟨-, ht⟩, hk, rfl⟩
    exact ⟨hk, ht⟩
  · rintro ⟨hk, ht⟩
    exact ⟨(ofLex key).1, ⟨⟨key, hk, rfl⟩, ht⟩, hk, rfl⟩

theorem range_order (h : s.byTime.Pairwise (· < ·)) (since bound : Nat) : (s.range since bound).Pairwise (fun a b =>
      (ofLex b).1 < (ofLex a).1 ∨ ((ofLex a).1 = (ofLex b).1 ∧ (ofLex a).2 < (ofLex b).2)) := by
  rw [range, pairwise_flatMap]
  constructor
  · intro t _
    refine Pairwise.imp_of_mem (fun {a b} ha hb hab => ?_) (h.filter _)
    have hta : (ofLex a).1 = t := of_decide_eq_true (mem_filter.1 ha).2
    have htb : (ofLex b).1 = t := of_decide_eq_true (mem_filter.1 hb).2
    rcases Prod.Lex.lt_iff.1 hab with hlt | ⟨heq, hlt⟩
    · omega
    · exact Or.inr ⟨heq, hlt⟩
  · have htimes : (s.byTime.map (fun key => (ofLex key).1)).Pairwise (· ≤ ·) := by
      refine pairwise_map.2 (h.imp (fun {a b} hab => ?_))
      rcases Prod.Lex.lt_iff.1 hab with hlt | ⟨heq, -⟩
      · exact hlt.le
      · exact heq.le
    have hdedup : (s.byTime.map (fun key => (ofLex key).1)).dedup.Pairwise (· < ·) := by
      refine Pairwise.imp₂ (fun {a b} hle hne => lt_of_le_of_ne hle hne) ?_ (nodup_dedup _)
      exact htimes.sublist (dedup_sublist _)
    refine pairwise_reverse.2 ((hdedup.filter _).imp (fun {a b} hab x hx y hy => Or.inl ?_))
    have htx : (ofLex x).1 = b := of_decide_eq_true (mem_filter.1 hx).2
    have hty : (ofLex y).1 = a := of_decide_eq_true (mem_filter.1 hy).2
    omega

theorem answerKey_lt {a b : Event} : answerKey a < answerKey b ↔
    b.createdAt < a.createdAt ∨ (a.createdAt = b.createdAt ∧ a.id < b.id) := Prod.Lex.lt_iff

theorem Indexed.at_key (h : s.Indexed) {key : Nat ×ₗ String} (hk : key ∈ s.byTime) :
    ∃ e, s.events.get (ofLex key).2 = some e ∧ timeKey e = key := by
  obtain ⟨e, he, rfl⟩ := (h.times key).1 hk
  exact ⟨e, he, rfl⟩

theorem Indexed.range_events (h : s.Indexed) (since bound : Nat) :
    ((s.range since bound).filterMap (fun key => s.events.get (ofLex key).2)).Pairwise
      (fun a b => answerKey a < answerKey b) := by
  rw [pairwise_filterMap]
  refine Pairwise.imp_of_mem (fun {a b} ha hb hab x hx y hy => ?_) (range_order h.ascending since bound)
  obtain ⟨e, he, hea⟩ := h.at_key (mem_range.1 ha).1
  obtain ⟨f, hf, hfb⟩ := h.at_key (mem_range.1 hb).1
  rw [he] at hx
  rw [hf] at hy
  cases hx
  cases hy
  rw [← hea, ← hfb] at hab
  exact answerKey_lt.2 hab

theorem newestCreatedAt_eq_none (h : s.newestCreatedAt = none) : s.byTime = [] := getLast?_eq_none_iff.1 (map_eq_none_iff.1 h)

variable {newest : Nat}

theorem Indexed.le_newest (h : s.Indexed) (hn : s.newestCreatedAt = some newest) {e : Event}
    (he : s.events.get e.id = some e) : e.createdAt ≤ newest := by
  obtain ⟨key, hlast, rfl⟩ := map_eq_some_iff.1 hn
  obtain ⟨init, hinit⟩ := getLast?_eq_some_iff.1 hlast
  have hmem := (h.times (timeKey e)).2 ⟨e, he, rfl⟩
  have hasc := h.ascending
  rw [hinit] at hmem hasc
  rcases mem_append.1 hmem with hmem | hmem
  · have hlt := (pairwise_append.1 hasc).2.2 _ hmem key mem_cons_self
    rcases Prod.Lex.lt_iff.1 hlt with hlt | ⟨heq, -⟩
    · exact hlt.le
    · exact heq.le
  · rw [← mem_singleton.1 hmem]
    rfl

variable (s) in
/-- What a filter selects, in the order of answers: each stored event that it matches and that has not expired. -/
structure Listing (now : Nat) (f : Filter) (l : List Event) : Prop where
  ordered : l.Pairwise (fun a b => answerKey a < answerKey b)
  mem_iff : ∀ e, e ∈ l ↔ s.events.get e.id = some e ∧ expired e now = false ∧ f.matches e = true

variable {f : Filter} {now : Nat}

theorem Listing.eq {l l' : List Event} (h : s.Listing now f l) (h' : s.Listing now f l') : l = l' :=
  Ordered.ascendingBy_ext answerKey h.ordered h'.ordered (fun e => (h.mem_iff e).trans (h'.mem_iff e).symm)

theorem matches_bounds {e : Event} (hm : f.matches e = true) (hle : e.createdAt ≤ newest) :
    f.since.getD 0 ≤ e.createdAt ∧ e.createdAt ≤ min (f.until.getD newest) newest := by
  simp only [Filter.matches, Bool.and_eq_true] at hm
  obtain ⟨⟨⟨-, hs⟩, hu⟩, -⟩ := hm
  constructor
  · cases hsince : f.since with
    | none => exact Nat.zero_le _
    | some since =>
      rw [hsince] at hs
      exact of_decide_eq_true hs
  · refine le_min ?_ hle
    cases huntil : f.until with
    | none => exact hle
    | some bound =>
      rw [huntil] at hu
      exact of_decide_eq_true hu

theorem Indexed.empty (h : s.Indexed) (hn : s.newestCreatedAt = none) (e : Event) : s.events.get e.id ≠ some e := by
  intro he
  have hkey := (h.times (timeKey e)).2 ⟨e, he, rfl⟩
  rw [newestCreatedAt_eq_none hn] at hkey
  cases hkey

/-! ## The two ways to look -/

variable (s) in
def lookup (ids : List String) (limit now : Nat) (f : Filter) : List Event :=
  ((((ids.filterMap s.events.get).filter (fun ev => !expired ev now && f.matches ev)).foldl
    (fun keys ev => Ordered.place (answerKey ev) keys) []).take limit).filterMap (fun key => s.events.get (ofLex key).2)

variable (s) in
/-- The matching events of the index by time, newest first, until there are enough. -/
def scan (newest limit now : Nat) (f : Filter) : List Event :=
  if min (f.until.getD newest) newest < f.since.getD 0 then []
  else
    (((s.range (f.since.getD 0) (min (f.until.getD newest) newest)).filterMap
      (fun key => s.events.get (ofLex key).2)).filter (fun ev => !expired ev now && f.matches ev)).take limit

theorem contribution_eq (newest cap now : Nat) (f : Filter) : s.contribution newest cap now f =
    if min (f.limit.getD cap) cap = 0 then []
    else f.ids.elim (s.scan newest (min (f.limit.getD cap) cap) now f)
      (fun ids => s.lookup ids (min (f.limit.getD cap) cap) now f) := by
  unfold contribution
  cases f.ids <;> rfl

theorem Indexed.listing (h : s.Indexed) (hn : s.newestCreatedAt = some newest) (now : Nat) (f : Filter) :
    s.Listing now f (((s.range (f.since.getD 0) (min (f.until.getD newest) newest)).filterMap
      (fun key => s.events.get (ofLex key).2)).filter (fun ev => !expired ev now && f.matches ev)) := by
  refine ⟨(h.range_events _ _).filter _, fun e => ?_⟩
  rw [mem_filter, mem_filterMap, Bool.and_eq_true, Bool.not_eq_true']
  constructor
  · rintro ⟨⟨key, hk, he⟩, hx, hm⟩
    rw [h.keyed _ _ he]
    exact ⟨he, hx, hm⟩
  · rintro ⟨he, hx, hm⟩
    have hkey : timeKey e ∈ s.range (f.since.getD 0) (min (f.until.getD newest) newest) :=
      mem_range.2 ⟨(h.times _).2 ⟨e, he, rfl⟩, matches_bounds hm (h.le_newest hn he)⟩
    exact ⟨⟨timeKey e, hkey, he⟩, hx, hm⟩

theorem Indexed.exists_listing (h : s.Indexed) (now : Nat) (f : Filter) : ∃ l, s.Listing now f l := by
  cases hn : s.newestCreatedAt with
  | none => exact ⟨[], List.Pairwise.nil, fun e => ⟨nofun, fun he => absurd he.1 (h.empty hn e)⟩⟩
  | some newest => exact ⟨_, h.listing hn now f⟩

variable {l : List Event}

theorem filterMap_keys (hl : ∀ e ∈ l, s.events.get e.id = some e) :
    (l.map answerKey).filterMap (fun key => s.events.get (ofLex key).2) = l := by
  rw [filterMap_map]
  exact (filterMap_congr (g := some) hl).trans filterMap_some

theorem placed_events (hl : ∀ e ∈ l, s.events.get e.id = some e) : ∃ found : List Event,
    found.Pairwise (fun a b => answerKey a < answerKey b) ∧ (∀ e, e ∈ found ↔ e ∈ l) ∧
    l.foldl (fun keys ev => Ordered.place (answerKey ev) keys) [] = found.map answerKey := by
  let keys := l.foldl (fun keys ev => Ordered.place (answerKey ev) keys) []
  have hkeys : keys.Pairwise (· < ·) := Ordered.foldl_place_ascending answerKey l List.Pairwise.nil
  have hmem : ∀ key, key ∈ keys ↔ ∃ e ∈ l, answerKey e = key := by
    intro key
    rw [Ordered.mem_foldl_place]
    exact or_iff_right not_mem_nil
  have hback : ∀ key ∈ keys, ∀ e, s.events.get (ofLex key).2 = some e → e ∈ l ∧ answerKey e = key := by
    intro key hk e he
    obtain ⟨e', he', rfl⟩ := (hmem key).1 hk
    have heq : e' = e := Option.some.inj ((hl e' he').symm.trans he)
    rw [← heq]
    exact ⟨he', rfl⟩
  refine ⟨keys.filterMap (fun key => s.events.get (ofLex key).2), ?_, fun e => ?_, ?_⟩
  · rw [pairwise_filterMap]
    refine hkeys.imp_of_mem (fun {a b} ha hb hab x hx y hy => ?_)
    rw [(hback a ha x hx).2, (hback b hb y hy).2]
    exact hab
  · rw [mem_filterMap]
    constructor
    · rintro ⟨key, hk, he⟩
      exact (hback key hk e he).1
    · exact fun he => ⟨answerKey e, (hmem _).2 ⟨e, he, rfl⟩, hl e he⟩
  · have hnone : ∀ key ∈ keys, Option.map answerKey (s.events.get (ofLex key).2) = some key := by
      intro key hk
      obtain ⟨e, he, rfl⟩ := (hmem key).1 hk
      rw [show s.events.get (ofLex (answerKey e)).2 = some e from hl e he]
      rfl
    rw [map_filterMap, filterMap_congr (g := some) hnone, filterMap_some]

theorem Indexed.lookup_eq (h : s.Indexed) {ids : List String} (hids : f.ids = some ids)
    (hl : s.Listing now f l) (limit : Nat) : s.lookup ids limit now f = l.take limit := by
  have hstored : ∀ e ∈ (ids.filterMap s.events.get).filter (fun ev => !expired ev now && f.matches ev), s.events.get e.id = some e := by
    intro e he
    obtain ⟨id, -, hget⟩ := mem_filterMap.1 (mem_filter.1 he).1
    rw [h.keyed _ _ hget]
    exact hget
  obtain ⟨found, hfound, hmem, hplaced⟩ := placed_events hstored
  have hlisting : s.Listing now f found := by
    refine ⟨hfound, fun e => ?_⟩
    rw [hmem, mem_filter, Bool.and_eq_true, Bool.not_eq_true', mem_filterMap]
    constructor
    · rintro ⟨⟨id, -, hget⟩, hx, hm⟩
      rw [h.keyed _ _ hget]
      exact ⟨hget, hx, hm⟩
    · rintro ⟨hget, hx, hm⟩
      have hin : e.id ∈ ids := by
        simp only [Filter.matches, hids, Bool.and_eq_true] at hm
        exact contains_iff_mem.1 hm.1.1.1.1.1
      exact ⟨⟨e.id, hin, hget⟩, hx, hm⟩
  unfold lookup
  rw [hplaced, ← map_take, filterMap_keys (fun e he => ((hlisting.mem_iff e).1 (mem_of_mem_take he)).1), hlisting.eq hl]

theorem Indexed.scan_eq (h : s.Indexed) (hn : s.newestCreatedAt = some newest) 
    (hl : s.Listing now f l) (limit : Nat) : s.scan newest limit now f = l.take limit := by
  unfold scan
  split
  · rename_i hlt
    have hnil : l = [] := by
      refine eq_nil_iff_forall_not_mem.2 (fun e he => ?_)
      obtain ⟨hget, -, hm⟩ := (hl.mem_iff e).1 he
      obtain ⟨hsince, huntil⟩ := matches_bounds hm (h.le_newest hn hget)
      exact absurd (hsince.trans huntil) (not_le.2 hlt)
    rw [hnil, take_nil]
  · rw [(h.listing hn now f).eq hl]

theorem Indexed.contribution_take (h : s.Indexed) (hn : s.newestCreatedAt = some newest) (cap : Nat)
    (hl : s.Listing now f l) :
    s.contribution newest cap now f = l.take (min (f.limit.getD cap) cap) := by
  rw [contribution_eq]
  split
  · rename_i hzero
    rw [hzero, take_zero]
  · cases hids : f.ids with
    | none => exact h.scan_eq hn hl _
    | some ids => exact h.lookup_eq hids hl _

/-! ## The union -/

variable (s) in
/-- What an answer should be: the first events, up to the cap, of the union of what the filters ask for. -/
def Answers (filters : List Filter) (cap now : Nat) (answer : List Event) : Prop :=
  ∃ (listing : Filter → List Event) (union : List Event), (∀ f ∈ filters, s.Listing now f (listing f)) ∧
    union.Pairwise (fun a b => answerKey a < answerKey b) ∧
    (∀ e, e ∈ union ↔ ∃ f ∈ filters, e ∈ f.first (listing f)) ∧ answer = union.take cap

variable {filters : List Filter}

theorem Answers.eq {cap now : Nat} {answer answer' : List Event}
    (h : s.Answers filters cap now answer) (h' : s.Answers filters cap now answer') : answer = answer' := by
  obtain ⟨listing, union, hlisting, hunion, hmem, rfl⟩ := h
  obtain ⟨listing', union', hlisting', hunion', hmem', rfl⟩ := h'
  have hsame : ∀ f ∈ filters, listing f = listing' f := fun f hf => (hlisting f hf).eq (hlisting' f hf)
  have heq : union = union' := by
    refine Ordered.ascendingBy_ext answerKey hunion hunion' (fun e => ?_)
    rw [hmem, hmem']
    exact exists_congr (fun f => and_congr_right (fun hf => by rw [hsame f hf]))
  rw [heq]

variable {part : Filter → List Event}

theorem exists_union (hpart : ∀ f ∈ filters, ∀ e ∈ part f, s.events.get e.id = some e) : ∃ union : List Event,
    union.Pairwise (fun a b => answerKey a < answerKey b) ∧ (∀ e, e ∈ union ↔ ∃ f ∈ filters, e ∈ part f) ∧
    (filters.flatMap part).foldl (fun keys ev => Ordered.place (answerKey ev) keys) [] = union.map answerKey := by
  have hstored : ∀ e ∈ filters.flatMap part, s.events.get e.id = some e := by
    intro e he
    obtain ⟨f, hf, hef⟩ := mem_flatMap.1 he
    exact hpart f hf e hef
  obtain ⟨union, hunion, hmem, hplaced⟩ := placed_events hstored
  exact ⟨union, hunion, fun e => (hmem e).trans mem_flatMap, hplaced⟩

theorem first_sublist (f : Filter) (l : List Event) : (f.first l).Sublist l := by
  unfold Filter.first
  cases f.limit with
  | none => exact Sublist.refl _
  | some limit => exact take_sublist _ _

theorem first_take (f : Filter) (cap : Nat) (l : List Event) : (f.first l).take cap = l.take (min (f.limit.getD cap) cap) := by
  unfold Filter.first
  cases f.limit with
  | none => simp
  | some limit => simp [take_take, min_comm]

/-- **Capping each part leaves the capped union as it is**: what comes first in the union comes first in its part. -/
theorem union_take {union capped : List Event} {cap : Nat}
    (hpart : ∀ f ∈ filters, (part f).Pairwise (fun a b => answerKey a < answerKey b))
    (hunion : union.Pairwise (fun a b => answerKey a < answerKey b)) (hmem : ∀ e, e ∈ union ↔ ∃ f ∈ filters, e ∈ part f)
    (hcapped : capped.Pairwise (fun a b => answerKey a < answerKey b))
    (hmemc : ∀ e, e ∈ capped ↔ ∃ f ∈ filters, e ∈ (part f).take cap) : capped.take cap = union.take cap := by
  refine Ordered.ascendingBy_take answerKey hunion hcapped (fun e he => ?_) (fun e he => ?_)
  · obtain ⟨f, hf, hef⟩ := (hmemc e).1 he
    exact (hmem e).2 ⟨f, hf, mem_of_mem_take hef⟩
  · obtain ⟨f, hf, hef⟩ := (hmem e).1 (mem_of_mem_take he)
    refine (hmemc e).2 ⟨f, hf, ?_⟩
    exact Ordered.mem_take_of_subset answerKey hunion (hpart f hf) (fun x hx => (hmem x).2 ⟨f, hf, hx⟩) hef he

theorem Indexed.query_eq (h : s.Indexed) {newest cap : Nat} (hn : s.newestCreatedAt = some newest) (hcap : cap ≠ 0)
    {listing : Filter → List Event}
    (hlisting : ∀ f, s.Listing now f (listing f)) : ∃ capped : List Event,
    capped.Pairwise (fun a b => answerKey a < answerKey b) ∧
    (∀ e, e ∈ capped ↔ ∃ f ∈ filters, e ∈ (f.first (listing f)).take cap) ∧
    s.query filters cap now = capped.take cap := by
  have hpart : ∀ f, s.contribution newest cap now f = (f.first (listing f)).take cap := by
    intro f
    rw [h.contribution_take hn cap (hlisting f), first_take]
  have hstored : ∀ f ∈ filters, ∀ e ∈ s.contribution newest cap now f, s.events.get e.id = some e := by
    intro f _ e he
    rw [hpart] at he
    exact ((hlisting f).mem_iff e).1 ((first_sublist f _).subset (mem_of_mem_take he)) |>.1
  obtain ⟨capped, hcapped, hmem, hplaced⟩ := exists_union hstored
  refine ⟨capped, hcapped, fun e => ?_, ?_⟩
  · rw [hmem]
    exact exists_congr (fun f => by rw [hpart])
  · have hback : ∀ e ∈ capped, s.events.get e.id = some e := by
      intro e he
      obtain ⟨f, hf, hef⟩ := (hmem e).1 he
      exact hstored f hf e hef
    rw [query, hn, filter_some, if_pos (decide_eq_true hcap)]
    simp only [hplaced, filterMap_keys hback]

theorem Indexed.answers (h : s.Indexed) (filters : List Filter) (cap now : Nat) :
    s.Answers filters cap now (s.query filters cap now) := by
  choose listing hlisting using h.exists_listing now
  have hstored : ∀ f ∈ filters, ∀ e ∈ f.first (listing f), s.events.get e.id = some e :=
    fun f _ e he => ((hlisting f).mem_iff e).1 ((first_sublist f _).subset he) |>.1
  obtain ⟨union, hunion, hmem, -⟩ := exists_union hstored
  refine ⟨listing, union, fun f _ => hlisting f, hunion, hmem, ?_⟩
  cases hn : s.newestCreatedAt with
  | none =>
    have hnil : union = [] := by
      refine eq_nil_iff_forall_not_mem.2 (fun e he => ?_)
      obtain ⟨f, hf, hef⟩ := (hmem e).1 he
      exact h.empty hn e (hstored f hf e hef)
    rw [query, hn, filter_none, hnil, take_nil]
  | some newest =>
    by_cases hcap : cap = 0
    · rw [hcap, query, hn, filter_some, if_neg (by simp), take_zero]
    · obtain ⟨capped, hcapped, hmemc, hquery⟩ := h.query_eq hn hcap hlisting
      rw [hquery]
      exact union_take (fun f _ => (hlisting f).ordered.sublist (first_sublist f _)) hunion hmem hcapped hmemc

/-- **A query is the answer there should be**, and a lookup by ids finds what a scan of the index finds. -/
theorem query_answers (h : s.Indexed) (filters : List Filter) (cap now : Nat) :
    (∀ answer, s.Answers filters cap now answer ↔ answer = s.query filters cap now) ∧
    ∀ newest limit f ids, s.newestCreatedAt = some newest → f.ids = some ids →
      s.lookup ids limit now f = s.scan newest limit now f := by
  constructor
  · intro answer
    constructor
    · exact fun ha => ha.eq (h.answers filters cap now)
    · rintro rfl
      exact h.answers filters cap now
  · intro newest limit f ids hn hids
    obtain ⟨l, hl⟩ := h.exists_listing now f
    rw [h.lookup_eq hids hl, h.scan_eq hn hl]

private def paired (id : String) (createdAt : Nat) : Event := ⟨id, "k", createdAt, 1, [], "", "s"⟩

theorem query_answers_paired : let s := (((fresh 4 false).insert (paired "b" 7)).1.insert (paired "a" 7)).1
    let byIds : Filter := { Filter.default with ids := some ["b", "b", "c"] }
    s.query [byIds, { Filter.default with limit := some 1 }] 3 9 = [paired "a" 7, paired "b" 7] ∧
    (∀ answer, s.Answers [byIds] 3 9 answer ↔ answer = s.query [byIds] 3 9) ∧
    s.lookup ["b", "b", "c"] 3 9 byIds = s.scan 7 3 9 byIds := by
  have hsound := (((Sound.fresh 4 false).insert (paired "b" 7)).1.insert (paired "a" 7)).1
  obtain ⟨hanswers, hsame⟩ := query_answers hsound.indexed [{ Filter.default with ids := some ["b", "b", "c"] }] 3 9
  exact ⟨by decide, hanswers, hsame 7 3 _ _ (by decide) rfl⟩

theorem query_single (h : s.Indexed) (f : Filter) (cap now : Nat) : ∃ listing : List Event,
    listing.Pairwise (fun a b => answerKey a < answerKey b) ∧
    (∀ e, e ∈ listing ↔ s.events.get e.id = some e ∧ expired e now = false ∧ f.matches e = true) ∧
    s.query [f] cap now = listing.take (min (f.limit.getD cap) cap) := by
  obtain ⟨listing, union, hlisting, hunion, hmem, hquery⟩ := h.answers [f] cap now
  have hf := hlisting f mem_cons_self
  have hfirst : (f.first (listing f)).Pairwise (fun a b => answerKey a < answerKey b) := hf.ordered.sublist (first_sublist f _)
  have heq : union = f.first (listing f) := by
    refine Ordered.ascendingBy_ext answerKey hunion hfirst (fun e => ?_)
    rw [hmem]
    simp
  exact ⟨listing f, hf.ordered, hf.mem_iff, by rw [hquery, heq, first_take]⟩

end Store

end Mistl.Nostr
