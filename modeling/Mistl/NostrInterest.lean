import Mathlib.Data.Finset.Sort
import Mathlib.Data.List.Lex
import Mathlib.Order.WithBot
import Mistl.NostrQuery
/-!
# NostrInterest — what the clients of a cluster want, merged

`nostr/filter.rs` and `nostr/interest.rs`.  Mirrored filters with the same kinds, authors and tag letters become one,
with the values of all of them.
-/
open List Mistl.Table Mistl.Json

namespace Mistl.Nostr

def maxFilterValues : Nat := 1000

def maxTagValueBytes : Nat := 1024

/-! ## Reading a filter -/

namespace Filter

def list (value : Json) (name : String) : Except String (List Json) :=
  match value.asArr with
  | none => .error (name ++ " must be an array")
  | some values => if maxFilterValues < values.length then .error (name ++ " has too many values") else .ok values

/-- Every item as `read` has it, or a message. -/
def readAll {α : Type} (read : Json → Option α) (message : String) : List Json → Except String (List α)
  | [] => .ok []
  | item :: items =>
    match read item with
    | some a => (readAll read message items).map (fun l => a :: l)
    | none => .error message

def readHex (item : Json) : Option String := item.asStr.filter fun text => isLowerHex text 64

def readTagValue (item : Json) : Option String := item.asStr.filter fun text => text.utf8ByteSize ≤ maxTagValueBytes

def readKind (item : Json) : Option Nat := (item.asUnsigned (2 ^ 64)).filter fun kind => kind ≤ 65535

def hexList (value : Json) (name : String) : Except String (List String) :=
  (list value name).bind (readAll readHex (name ++ " must contain 64-character lowercase hex strings"))

def tagList (value : Json) (name : String) : Except String (List String) :=
  (list value name).bind (readAll readTagValue (name ++ " must contain strings of at most 1024 bytes"))

def kindList (value : Json) (name : String) : Except String (List Nat) :=
  (list value name).bind (readAll readKind "kinds must contain integers from 0 to 65535")

def nonNegativeInteger (value : Json) (name : String) : Except String Nat :=
  match value.asUnsigned (2 ^ 64) with
  | some n => .ok n
  | none => .error (name ++ " must be a non-negative integer")

def setTag (letter : Char) (values : List String) : List (Char × List String) → List (Char × List String)
  | [] => [(letter, values)]
  | (c, v) :: l =>
    if letter < c then (letter, values) :: (c, v) :: l
    else if letter = c then (letter, values) :: l
    else (c, v) :: setTag letter values l

def tagLetter (name : String) : Option Char :=
  match name.toList with
  | ['#', c] => if c.isAlpha then some c else none
  | _ => none

/-- One turn of the loop of `parse`. -/
def parseField (f : Filter) (name : String) (value : Json) : Except String Filter :=
  if name = "ids" then (hexList value name).map (fun l => { f with ids := some l })
  else if name = "authors" then (hexList value name).map (fun l => { f with authors := some l })
  else if name = "kinds" then (kindList value name).map (fun l => { f with kinds := some l })
  else if name = "since" then (nonNegativeInteger value name).map (fun n => { f with since := some n })
  else if name = "until" then (nonNegativeInteger value name).map (fun n => { f with «until» := some n })
  else if name = "limit" then (nonNegativeInteger value name).map (fun n => { f with limit := some n })
  else match tagLetter name with
    | some letter => (tagList value name).map (fun l => { f with tags := setTag letter l f.tags })
    | none => .ok f

def parseFields (f : Filter) : List (String × Json) → Except String Filter
  | [] => .ok f
  | (name, value) :: fields => (f.parseField name value).bind fun f => f.parseFields fields

def parse : Json → Except String Filter
  | .obj fields => default.parseFields fields
  | _ => .error "filter must be an object"

end Filter

def strings (l : List String) : Json := .arr (l.map Json.str)

def number (n : Nat) : Json := .int n

/-- The members `filter_json` sets, in their order. -/
def filterMembers (f : Filter) : List (String × Json) := [("ids", f.ids.map strings), ("authors", f.authors.map strings),
    ("kinds", f.kinds.map (fun l => .arr (l.map number))), ("since", f.since.map number),
    ("until", f.until.map number), ("limit", f.limit.map number)].filterMap
      (fun m => m.2.map (fun v => (m.1, v))) ++
    f.tags.map (fun t => ("#" ++ String.singleton t.1, strings t.2))

def filterJson (f : Filter) : Json := .obj ((filterMembers f).foldl (fun map m => setField m.1 m.2 map) [])

/-! ## What is accepted -/

variable {l : List (Char × List String)}

namespace Filter

/-- A filter within the bounds of `parse`. -/
structure Checked (f : Filter) : Prop where
  ids : ∀ l, f.ids = some l → l.length ≤ maxFilterValues ∧ ∀ a ∈ l, isLowerHex a 64 = true
  authors : ∀ l, f.authors = some l → l.length ≤ maxFilterValues ∧ ∀ a ∈ l, isLowerHex a 64 = true
  kinds : ∀ l, f.kinds = some l → l.length ≤ maxFilterValues ∧ ∀ k ∈ l, k ≤ 65535
  tags : ∀ t ∈ f.tags, t.1.isAlpha = true ∧ t.2.length ≤ maxFilterValues ∧ ∀ v ∈ t.2, v.utf8ByteSize ≤ maxTagValueBytes
  letters : (f.tags.map Prod.fst).Pairwise (· < ·)
  numbers : ∀ n, f.since = some n ∨ f.until = some n ∨ f.limit = some n → n < 2 ^ 64

variable {α : Type}

theorem readAll_ok {read : Json → Option α} {message : String} {items : List Json} {l : List α}
    (h : readAll read message items = .ok l) : l.length = items.length ∧ ∀ a ∈ l, ∃ item, read item = some a := by
  induction items generalizing l with
  | nil =>
    cases h
    exact ⟨rfl, nofun⟩
  | cons item items ih =>
    unfold readAll at h
    split at h
    · rename_i a hread
      cases hrest : readAll read message items with
      | error e =>
        rw [hrest] at h
        cases h
      | ok rest =>
        rw [hrest] at h
        cases h
        obtain ⟨hlen, hall⟩ := ih hrest
        refine ⟨congrArg Nat.succ hlen, fun b hb => ?_⟩
        rcases mem_cons.1 hb with rfl | hb
        · exact ⟨item, hread⟩
        · exact hall b hb
    · cases h

theorem readAll_map {read : Json → Option α} (message : String) {enc : α → Json} {l : List α}
    (h : ∀ a ∈ l, read (enc a) = some a) : readAll read message (l.map enc) = .ok l := by
  induction l with
  | nil => rfl
  | cons a l ih =>
    rw [map_cons, readAll, h a mem_cons_self]
    rw [ih (fun b hb => h b (mem_cons_of_mem _ hb))]
    rfl

variable {value : Json}

theorem list_ok {read : Json → Option α} {message name : String} {l : List α}
    (h : (list value name).bind (readAll read message) = .ok l) :
    l.length ≤ maxFilterValues ∧ ∀ a ∈ l, ∃ item, read item = some a := by
  unfold list at h
  split at h
  · cases h
  split at h
  · cases h
  · rename_i hle
    obtain ⟨hlen, hall⟩ := readAll_ok h
    exact ⟨hlen.trans_le (Nat.le_of_not_lt hle), hall⟩

theorem list_map {read : Json → Option α} (message name : String) {enc : α → Json} {l : List α}
    (hlen : l.length ≤ maxFilterValues) (h : ∀ a ∈ l, read (enc a) = some a) :
    (list (.arr (l.map enc)) name).bind (readAll read message) = .ok l := by
  have hlist : list (.arr (l.map enc)) name = .ok (l.map enc) := by
    unfold list
    dsimp only [asArr]
    rw [if_neg (by rw [length_map]; exact Nat.not_lt.2 hlen)]
  rw [hlist]
  exact readAll_map message h

variable {name : String}

theorem hexList_ok {l : List String} (h : hexList value name = .ok l) :
    l.length ≤ maxFilterValues ∧ ∀ a ∈ l, isLowerHex a 64 = true := by
  obtain ⟨hlen, hall⟩ := list_ok h
  refine ⟨hlen, fun a ha => ?_⟩
  obtain ⟨item, hread⟩ := hall a ha
  exact (Option.filter_eq_some_iff.1 hread).2

theorem tagList_ok {l : List String} (h : tagList value name = .ok l) :
    l.length ≤ maxFilterValues ∧ ∀ v ∈ l, v.utf8ByteSize ≤ maxTagValueBytes := by
  obtain ⟨hlen, hall⟩ := list_ok h
  refine ⟨hlen, fun a ha => ?_⟩
  obtain ⟨item, hread⟩ := hall a ha
  exact of_decide_eq_true (Option.filter_eq_some_iff.1 hread).2

theorem kindList_ok {l : List Nat} (h : kindList value name = .ok l) : l.length ≤ maxFilterValues ∧ ∀ k ∈ l, k ≤ 65535 := by
  obtain ⟨hlen, hall⟩ := list_ok h
  refine ⟨hlen, fun a ha => ?_⟩
  obtain ⟨item, hread⟩ := hall a ha
  exact of_decide_eq_true (Option.filter_eq_some_iff.1 hread).2

theorem nonNegativeInteger_ok {n : Nat} (h : nonNegativeInteger value name = .ok n) : n < 2 ^ 64 := by
  unfold nonNegativeInteger at h
  split at h
  · rename_i hn
    cases h
    unfold asUnsigned at hn
    split at hn
    · split at hn
      · rename_i hlt
        cases hn
        exact hlt.2
      · cases hn
    · cases hn
  · cases h

theorem map_ok {α β : Type} {x : Except String α} {g : α → β} {b : β} (h : x.map g = .ok b) : ∃ a, x = .ok a ∧ b = g a := by
  cases x with
  | error e => cases h
  | ok a =>
    cases h
    exact ⟨a, rfl, rfl⟩

theorem mem_setTag {letter : Char} {values : List String} {t : Char × List String}
    (h : t ∈ setTag letter values l) : t = (letter, values) ∨ t ∈ l := by
  induction l with
  | nil => exact .inl (mem_singleton.1 h)
  | cons p l ih =>
    unfold setTag at h
    split at h
    · exact mem_cons.1 h
    · split at h
      · exact (mem_cons.1 h).imp_right (mem_cons_of_mem _)
      · rcases mem_cons.1 h with rfl | h
        · exact .inr mem_cons_self
        · exact (ih h).imp_right (mem_cons_of_mem _)

theorem setTag_letters {letter : Char} {values : List String}
    (h : (l.map Prod.fst).Pairwise (· < ·)) : ((setTag letter values l).map Prod.fst).Pairwise (· < ·) := by
  induction l with
  | nil => exact pairwise_singleton _ _
  | cons p l ih =>
    obtain ⟨hp, hl⟩ := pairwise_cons.1 h
    unfold setTag
    split
    · rename_i hlt
      refine pairwise_cons.2 ⟨fun c hc => ?_, h⟩
      rcases mem_cons.1 hc with rfl | hc
      · exact hlt
      · exact lt_trans hlt (hp c hc)
    · rename_i hge
      split
      · rename_i heq
        exact pairwise_cons.2 ⟨heq ▸ hp, hl⟩
      · rename_i hne
        refine pairwise_cons.2 ⟨fun c hc => ?_, ih hl⟩
        obtain ⟨t, ht, rfl⟩ := mem_map.1 hc
        rcases mem_setTag ht with rfl | ht
        · exact lt_of_le_of_ne (not_lt.1 hge) (Ne.symm hne)
        · exact hp _ (mem_map_of_mem ht)

theorem Checked.field {f g : Filter} (hf : f.Checked) (h : f.parseField name value = .ok g) : g.Checked := by
  unfold parseField at h
  split at h
  · obtain ⟨l, hl, rfl⟩ := map_ok h
    exact ⟨fun _ heq => Option.some.inj heq ▸ hexList_ok hl, hf.authors, hf.kinds, hf.tags, hf.letters, hf.numbers⟩
  split at h
  · obtain ⟨l, hl, rfl⟩ := map_ok h
    exact ⟨hf.ids, fun _ heq => Option.some.inj heq ▸ hexList_ok hl, hf.kinds, hf.tags, hf.letters, hf.numbers⟩
  split at h
  · obtain ⟨l, hl, rfl⟩ := map_ok h
    exact ⟨hf.ids, hf.authors, fun _ heq => Option.some.inj heq ▸ kindList_ok hl, hf.tags, hf.letters, hf.numbers⟩
  split at h
  · obtain ⟨n, hn, rfl⟩ := map_ok h
    exact ⟨hf.ids, hf.authors, hf.kinds, hf.tags, hf.letters, fun m hm => hm.elim
      (fun heq => Option.some.inj heq ▸ nonNegativeInteger_ok hn) (fun hm => hf.numbers m (.inr hm))⟩
  split at h
  · obtain ⟨n, hn, rfl⟩ := map_ok h
    refine ⟨hf.ids, hf.authors, hf.kinds, hf.tags, hf.letters, fun m hm => ?_⟩
    rcases hm with hm | heq | hm
    · exact hf.numbers m (.inl hm)
    · exact Option.some.inj heq ▸ nonNegativeInteger_ok hn
    · exact hf.numbers m (.inr (.inr hm))
  split at h
  · obtain ⟨n, hn, rfl⟩ := map_ok h
    refine ⟨hf.ids, hf.authors, hf.kinds, hf.tags, hf.letters, fun m hm => ?_⟩
    rcases hm with hm | hm | heq
    · exact hf.numbers m (.inl hm)
    · exact hf.numbers m (.inr (.inl hm))
    · exact Option.some.inj heq ▸ nonNegativeInteger_ok hn
  split at h
  · rename_i letter hletter
    obtain ⟨l, hl, rfl⟩ := map_ok h
    refine ⟨hf.ids, hf.authors, hf.kinds, fun t ht => ?_, setTag_letters hf.letters, hf.numbers⟩
    rcases mem_setTag ht with rfl | ht
    · refine ⟨?_, tagList_ok hl⟩
      unfold tagLetter at hletter
      split at hletter
      · split at hletter
        · rename_i halpha
          cases hletter
          exact halpha
        · cases hletter
      · cases hletter
    · exact hf.tags t ht
  · cases h
    exact hf

theorem parse_checked {f : Filter} (h : parse value = .ok f) : f.Checked := by
  have hrun : ∀ (fields : List (String × Json)) (f g : Filter), f.Checked → f.parseFields fields = .ok g → g.Checked := by
    intro fields
    induction fields with
    | nil =>
      intro f g hf h
      cases h
      exact hf
    | cons m fields ih =>
      intro f g hf h
      rw [parseFields] at h
      cases hfield : f.parseField m.1 m.2 with
      | error e =>
        rw [hfield] at h
        cases h
      | ok f' =>
        rw [hfield] at h
        exact ih f' g (hf.field hfield) h
  have hdefault : Filter.default.Checked :=
    ⟨nofun, nofun, nofun, nofun, List.Pairwise.nil, fun _ hn => by rcases hn with hn | hn | hn <;> cases hn⟩
  unfold parse at h
  split at h
  · exact hrun _ _ _ hdefault h
  · cases h

end Filter

theorem mem_setField {key : String} {j : Json} {m : String × Json} {l : List (String × Json)} (h : m ∈ setField key j l) :
    m = (key, j) ∨ m ∈ l := by
  induction l with
  | nil => exact .inl (mem_singleton.1 h)
  | cons p l ih =>
    unfold setField at h
    split at h
    · exact mem_cons.1 h
    · split at h
      · exact (mem_cons.1 h).imp_right (mem_cons_of_mem _)
      · rcases mem_cons.1 h with rfl | h
        · exact .inr mem_cons_self
        · exact (ih h).imp_right (mem_cons_of_mem _)

theorem hexList_strings {l : List String} (name : String) (h : l.length ≤ maxFilterValues ∧ ∀ a ∈ l, isLowerHex a 64 = true) :
    Filter.hexList (strings l) name = .ok l :=
  Filter.list_map _ name h.1 (fun a ha => by
    show (some a).filter _ = some a
    rw [Option.filter_some, if_pos (h.2 a ha)])

theorem asUnsigned_number {n : Nat} (h : n < 2 ^ 64) : (number n).asUnsigned (2 ^ 64) = some n := by
  unfold number asUnsigned
  dsimp only
  rw [Int.toNat_natCast, if_pos ⟨Int.natCast_nonneg n, h⟩]

theorem nonNegativeInteger_number (name : String) {n : Nat} (h : n < 2 ^ 64) : Filter.nonNegativeInteger (number n) name = .ok n := by
  unfold Filter.nonNegativeInteger
  rw [asUnsigned_number h]

theorem kindList_numbers {l : List Nat} (name : String) (h : l.length ≤ maxFilterValues ∧ ∀ k ∈ l, k ≤ 65535) :
    Filter.kindList (.arr (l.map number)) name = .ok l :=
  Filter.list_map _ name h.1 (fun k hk => by
    have hle := h.2 k hk
    rw [Filter.readKind, asUnsigned_number (by omega), Option.filter_some, if_pos (decide_eq_true hle)])

theorem tagList_strings {l : List String} (name : String)
    (h : l.length ≤ maxFilterValues ∧ ∀ v ∈ l, v.utf8ByteSize ≤ maxTagValueBytes) : Filter.tagList (strings l) name = .ok l :=
  Filter.list_map _ name h.1 (fun v hv => by
    show (some v).filter _ = some v
    rw [Option.filter_some, if_pos (decide_eq_true (h.2 v hv))])

theorem parseField_member {g : Filter} (hg : g.Checked) {m : String × Json} (hm : m ∈ filterMembers g) (f : Filter) :
    ∃ f', f.parseField m.1 m.2 = .ok f' := by
  rcases mem_append.1 hm with hm | hm
  · obtain ⟨p, hp, hmap⟩ := mem_filterMap.1 hm
    obtain ⟨v, hv, rfl⟩ := Option.map_eq_some_iff.1 hmap
    simp only [mem_cons, not_mem_nil, or_false] at hp
    rcases hp with rfl | rfl | rfl | rfl | rfl | rfl <;> dsimp only at hv ⊢
    · obtain ⟨l, hl, rfl⟩ := Option.map_eq_some_iff.1 hv
      exact ⟨_, by rw [Filter.parseField, hexList_strings _ (hg.ids l hl)]; rfl⟩
    · obtain ⟨l, hl, rfl⟩ := Option.map_eq_some_iff.1 hv
      exact ⟨_, by rw [Filter.parseField, hexList_strings _ (hg.authors l hl)]; rfl⟩
    · obtain ⟨l, hl, rfl⟩ := Option.map_eq_some_iff.1 hv
      exact ⟨_, by
        rw [Filter.parseField, kindList_numbers _ (hg.kinds l hl)]
        rfl⟩
    · obtain ⟨n, hn, rfl⟩ := Option.map_eq_some_iff.1 hv
      exact ⟨_, by
        rw [Filter.parseField, nonNegativeInteger_number _ (hg.numbers n (.inl hn))]
        rfl⟩
    · obtain ⟨n, hn, rfl⟩ := Option.map_eq_some_iff.1 hv
      exact ⟨_, by
        rw [Filter.parseField, nonNegativeInteger_number _ (hg.numbers n (.inr (.inl hn)))]
        rfl⟩
    · obtain ⟨n, hn, rfl⟩ := Option.map_eq_some_iff.1 hv
      exact ⟨_, by
        rw [Filter.parseField, nonNegativeInteger_number _ (hg.numbers n (.inr (.inr hn)))]
        rfl⟩
  · obtain ⟨t, ht, rfl⟩ := mem_map.1 hm
    obtain ⟨halpha, hvalues⟩ := hg.tags t ht
    have hname : ("#" ++ String.singleton t.1).toList = ['#', t.1] := by
      rw [String.toList_append, String.toList_singleton]
      rfl
    have hne : ∀ s : String, s.toList.length ≠ 2 → "#" ++ String.singleton t.1 ≠ s := fun s hs heq => hs (by rw [← heq, hname]; rfl)
    have hletter : Filter.tagLetter ("#" ++ String.singleton t.1) = some t.1 := by
      unfold Filter.tagLetter
      rw [hname]
      exact if_pos halpha
    refine ⟨{ f with tags := Filter.setTag t.1 t.2 f.tags }, ?_⟩
    rw [Filter.parseField, hletter]
    rw [tagList_strings _ hvalues]
    rfl

theorem parse_filterJson {g : Filter} (hg : g.Checked) : ∃ h, Filter.parse (filterJson g) = .ok h := by
  have hrun : ∀ (fields : List (String × Json)) (f : Filter), (∀ m ∈ fields, ∀ f : Filter, ∃ f', f.parseField m.1 m.2 = .ok f') →
      ∃ h, f.parseFields fields = .ok h := by
    intro fields
    induction fields with
    | nil => exact fun f _ => ⟨f, rfl⟩
    | cons m fields ih =>
      intro f h
      obtain ⟨f', hf'⟩ := h m mem_cons_self f
      rw [Filter.parseFields, hf']
      exact ih f' (fun n hn => h n (mem_cons_of_mem _ hn))
  have hmem : ∀ (members map : List (String × Json)) {m : String × Json},
      m ∈ members.foldl (fun map m => setField m.1 m.2 map) map → m ∈ map ∨ m ∈ members := by
    intro members
    induction members with
    | nil => exact fun _ _ h => .inl h
    | cons n members ih =>
      intro map m h
      rcases ih _ h with h | h
      · exact (mem_setField h).elim (fun h => .inr (h ▸ mem_cons_self)) .inl
      · exact .inr (mem_cons_of_mem _ h)
  exact hrun _ _ (fun m hm f => parseField_member hg ((hmem _ _ hm).resolve_left not_mem_nil) f)

/-! ## Merging -/

namespace Interest

def maxFilters : Nat := 8

def maxTagValues : Nat := maxFilterValues

def mirrored (filter : Filter) (kinds : List Nat) : Bool :=
  filter.ids.isNone && filter.kinds.any (fun k => !k.isEmpty && k.all (fun kind => kinds.contains kind))

/-- The kinds, authors and letters of a group, and its place among the groups. -/
abbrev GroupKey := List Nat ×ₗ WithBot (List String) ×ₗ List Char

/-- The values of each letter of a group. -/
abbrev Group := Table Char (Finset String)

/-- `sort` and `dedup` -/
def sortDedup {α : Type} [LinearOrder α] (l : List α) : List α := l.toFinset.sort

def sorted {α : Type} [LinearOrder α] (s : Finset α) : List α := s.sort

def groupKey (filter : Filter) : GroupKey :=
  toLex (sortDedup (filter.kinds.getD []), toLex (filter.authors.map sortDedup, filter.tags.map Prod.fst))

def addValues (set : Finset String) (values : List String) : Finset String :=
  values.foldl (fun set value => if set.card < maxTagValues then insert value set else set) set

def addTags (tags : Group) (filterTags : List (Char × List String)) : Group :=
  filterTags.foldl (fun tags t => tags.insert t.1 (addValues ((tags.get t.1).getD ∅) t.2)) tags

def addFilter (groups : Table GroupKey Group) (filter : Filter) : Table GroupKey Group :=
  groups.insert (groupKey filter) (addTags ((groups.get (groupKey filter)).getD ∅) filter.tags)

def groupsOf (filters : List Filter) : Table GroupKey Group := filters.foldl addFilter ∅

def mergedFilter (key : GroupKey) (tags : Group) : Filter := { Filter.default with
    kinds := some (ofLex key).1
    authors := (ofLex (ofLex key).2).1
    tags := tags.keys.sort.map (fun letter => (letter, sorted ((tags.get letter).getD ∅))) }

def merge (filters : List Filter) : List Filter :=
  let groups := groupsOf filters
  (groups.keys.sort.take maxFilters).map (fun key => mergedFilter key ((groups.get key).getD ∅))

/-! ## What a group has -/

def lettersOf (key : GroupKey) : List Char := (ofLex (ofLex key).2).2

def valuesAt (tags : List (Char × List String)) (c : Char) : Finset String :=
  ((tags.filter (fun t => t.1 = c)).flatMap Prod.snd).toFinset

def valuesOf (filters : List Filter) (key : GroupKey) (c : Char) : Finset String :=
  ((filters.filter (fun f => groupKey f = key)).flatMap (fun f => (f.tags.filter (fun t => t.1 = c)).flatMap Prod.snd)).toFinset

/-- All the values there are, or as many of them as are kept. -/
structure Capped (set all : Finset String) : Prop where
  sub : set ⊆ all
  card : set.card ≤ maxTagValues
  full : set.card < maxTagValues → set = all

theorem Capped.eq {set all : Finset String} (h : Capped set all) (hall : all.card ≤ maxTagValues) : set = all := by
  by_cases hlt : set.card < maxTagValues
  · exact h.full hlt
  · exact Finset.eq_of_subset_of_card_le h.sub (hall.trans (Nat.le_of_not_lt hlt))

theorem Capped.addValues {set all : Finset String} (h : Capped set all) (values : List String) :
    Capped (addValues set values) (all ∪ values.toFinset) := by
  induction values generalizing set all with
  | nil => exact (Finset.union_empty all).symm ▸ h
  | cons v values ih =>
    have hstep : Capped (if set.card < maxTagValues then insert v set else set) (insert v all) := by
      split
      · rename_i hlt
        rw [h.full hlt]
        exact ⟨Finset.Subset.refl _, (Finset.card_insert_le _ _).trans (by rw [← h.full hlt]; exact hlt), fun _ => rfl⟩
      · rename_i hge
        exact ⟨h.sub.trans (Finset.subset_insert _ _), h.card, fun hlt => absurd hlt hge⟩
    have hunion : all ∪ (v :: values).toFinset = insert v all ∪ values.toFinset := by
      rw [toFinset_cons, Finset.union_insert, Finset.insert_union]
    rw [hunion]
    exact ih hstep

theorem subset_addValues (set : Finset String) (values : List String) : set ⊆ addValues set values := by
  induction values generalizing set with
  | nil => exact Finset.Subset.refl _
  | cons v values ih =>
    refine Finset.Subset.trans ?_ (ih _)
    dsimp only
    split
    · exact Finset.subset_insert _ _
    · exact Finset.Subset.refl _

theorem addTags_isSome (tags : Group) (l : List (Char × List String)) (c : Char) :
    ((addTags tags l).get c).isSome = true ↔ (tags.get c).isSome = true ∨ c ∈ l.map Prod.fst := by
  induction l generalizing tags with
  | nil => exact ⟨.inl, fun h => h.resolve_right not_mem_nil⟩
  | cons t l ih =>
    refine (ih _).trans ?_
    rw [get_insert, map_cons, mem_cons]
    by_cases hc : c = t.1
    · rw [if_pos hc]
      exact ⟨fun _ => .inr (.inl hc), fun _ => .inl rfl⟩
    · rw [if_neg hc]
      exact or_congr_right ⟨.inr, fun h => h.resolve_left hc⟩

variable {c : Char}

theorem addTags_capped {tags : Group} {all : Finset String} (h : Capped ((tags.get c).getD ∅) all)
    (l : List (Char × List String)) : Capped (((addTags tags l).get c).getD ∅) (all ∪ valuesAt l c) := by
  induction l generalizing tags all with
  | nil => exact (Finset.union_empty all).symm ▸ h
  | cons t l ih =>
    by_cases hc : t.1 = c
    · have hunion : all ∪ valuesAt (t :: l) c = (all ∪ t.2.toFinset) ∪ valuesAt l c := by
        unfold valuesAt
        rw [filter_cons, if_pos (decide_eq_true hc), flatMap_cons, toFinset_append, Finset.union_assoc]
      rw [hunion]
      change Capped (((addTags (tags.insert t.1 (addValues ((tags.get t.1).getD ∅) t.2)) l).get c).getD ∅) _
      refine ih ?_
      rw [hc, get_insert_self]
      exact h.addValues t.2
    · have hsame : valuesAt (t :: l) c = valuesAt l c := by
        unfold valuesAt
        rw [filter_cons, if_neg (by rw [decide_eq_true_eq]; exact hc)]
      rw [hsame]
      refine ih ?_
      rw [get_insert_ne (Ne.symm hc)]
      exact h

theorem subset_addTags (tags : Group) (l : List (Char × List String)) (c : Char) :
    (tags.get c).getD ∅ ⊆ ((addTags tags l).get c).getD ∅ := by
  induction l generalizing tags with
  | nil => exact Finset.Subset.refl _
  | cons t l ih =>
    refine Finset.Subset.trans ?_ (ih _)
    rw [get_insert]
    by_cases hc : c = t.1
    · rw [if_pos hc, hc]
      exact subset_addValues _ _
    · rw [if_neg hc]

/-- The groups of a list: one for each key, with its letters and, as far as they are kept, its values. -/
structure Groups (filters : List Filter) (groups : Table GroupKey Group) : Prop where
  keys : ∀ k, (groups.get k).isSome = true ↔ ∃ f ∈ filters, groupKey f = k
  letters : ∀ k tags, groups.get k = some tags → ∀ c, (tags.get c).isSome = true ↔ c ∈ lettersOf k
  capped : ∀ k c, Capped ((((groups.get k).getD ∅).get c).getD ∅) (valuesOf filters k c)

theorem valuesOf_concat (filters : List Filter) (f : Filter) (k : GroupKey) (c : Char) :
    valuesOf (filters ++ [f]) k c = if groupKey f = k then valuesOf filters k c ∪ valuesAt f.tags c else valuesOf filters k c := by
  unfold valuesOf valuesAt
  rw [filter_append, flatMap_append, toFinset_append]
  by_cases h : groupKey f = k
  · rw [if_pos h, filter_cons, if_pos (decide_eq_true h), filter_nil, flatMap_cons, flatMap_nil, append_nil]
  · rw [if_neg h, filter_cons, if_neg (by rw [decide_eq_true_eq]; exact h), filter_nil]
    exact Finset.union_empty _

variable {filters : List Filter}

theorem Groups.add {groups : Table GroupKey Group} (h : Groups filters groups) (f : Filter) :
    Groups (filters ++ [f]) (addFilter groups f) := by
  refine ⟨fun k => ?_, fun k tags hget c => ?_, fun k c => ?_⟩
  · rw [addFilter, get_insert]
    by_cases hk : k = groupKey f
    · rw [if_pos hk]
      exact ⟨fun _ => ⟨f, mem_append_right _ mem_cons_self, hk.symm⟩, fun _ => rfl⟩
    · rw [if_neg hk, h.keys]
      refine ⟨fun ⟨g, hg, hgk⟩ => ⟨g, mem_append_left _ hg, hgk⟩, fun ⟨g, hg, hgk⟩ => ?_⟩
      rcases mem_append.1 hg with hg | hg
      · exact ⟨g, hg, hgk⟩
      · rw [mem_singleton.1 hg] at hgk
        exact absurd hgk.symm hk
  · rw [addFilter, get_insert] at hget
    by_cases hk : k = groupKey f
    · subst hk
      rw [if_pos rfl] at hget
      cases hget
      rw [addTags_isSome]
      cases hold : groups.get (groupKey f) with
      | none => exact ⟨fun hc => hc.resolve_left Bool.false_ne_true, .inr⟩
      | some old => exact ⟨fun hc => hc.elim (h.letters _ old hold c).1 id, .inr⟩
    · rw [if_neg hk] at hget
      exact h.letters k tags hget c
  · rw [valuesOf_concat, addFilter, get_insert]
    by_cases hk : k = groupKey f
    · subst hk
      rw [if_pos rfl, if_pos rfl]
      exact addTags_capped (h.capped _ c) f.tags
    · rw [if_neg hk, if_neg (Ne.symm hk)]
      exact h.capped k c

theorem groups_of (filters : List Filter) : Groups filters (groupsOf filters) := by
  have hrun : ∀ (l before : List Filter) (groups : Table GroupKey Group), Groups before groups →
      Groups (before ++ l) (l.foldl addFilter groups) := by
    intro l
    induction l with
    | nil => exact fun before groups h => (append_nil before).symm ▸ h
    | cons f l ih =>
      intro before groups h
      have := ih _ _ (h.add f)
      rwa [append_assoc] at this
  refine hrun filters [] ∅ ⟨fun k => ?_, nofun, fun k c => ?_⟩
  · exact ⟨fun h => absurd h Bool.false_ne_true, fun ⟨f, hf, _⟩ => absurd hf not_mem_nil⟩
  · exact ⟨Finset.Subset.refl _, Nat.zero_le _, fun _ => rfl⟩

/-! ## One list or another -/

def keysOf (filters : List Filter) : Finset GroupKey := (filters.map groupKey).toFinset

variable {k : GroupKey}

theorem mem_keysOf : k ∈ keysOf filters ↔ ∃ f ∈ filters, groupKey f = k := by
  unfold keysOf
  rw [mem_toFinset, mem_map]

theorem keys_groupsOf (filters : List Filter) : (groupsOf filters).keys = keysOf filters := by
  ext k
  rw [Table.mem_keys, mem_keysOf, ← (groups_of filters).keys, Option.isSome_iff_ne_none]

theorem mem_valuesOf {v : String} : v ∈ valuesOf filters k c ↔ ∃ f ∈ filters, groupKey f = k ∧ v ∈ valuesAt f.tags c := by
  unfold valuesOf valuesAt
  simp only [mem_toFinset, mem_flatMap, mem_filter, decide_eq_true_eq, and_assoc]

/-- Each of the groups that are kept has as many values for a letter as a filter may have. -/
def WithinValues (filters : List Filter) : Prop :=
  ∀ k ∈ (keysOf filters).sort.take maxFilters, ∀ c, (valuesOf filters k c).card ≤ maxTagValues

def keptOf (filters : List Filter) (k : GroupKey) (c : Char) : Finset String := ((((groupsOf filters).get k).getD ∅).get c).getD ∅

theorem keptOf_capped (filters : List Filter) (k : GroupKey) (c : Char) : Capped (keptOf filters k c) (valuesOf filters k c) :=
  (groups_of filters).capped k c

theorem mem_lettersOf (hk : k ∈ keysOf filters) : ((((groupsOf filters).get k).getD ∅).keys) = (lettersOf k).toFinset := by
  obtain ⟨tags, hget⟩ := Option.isSome_iff_exists.1 (((groups_of filters).keys k).2 (mem_keysOf.1 hk))
  rw [hget, Option.getD_some]
  ext c
  rw [Table.mem_keys, ← Option.isSome_iff_ne_none, (groups_of filters).letters k tags hget, mem_toFinset]

theorem merge_eq (filters : List Filter) : merge filters = ((keysOf filters).sort.take maxFilters).map (fun k =>
    { Filter.default with
      kinds := some (ofLex k).1
      authors := (ofLex (ofLex k).2).1
      tags := (lettersOf k).toFinset.sort.map (fun c => (c, (keptOf filters k c).sort)) }) := by
  unfold merge
  dsimp only
  rw [keys_groupsOf]
  refine map_congr_left (fun k hk => ?_)
  unfold mergedFilter
  rw [mem_lettersOf ((Finset.mem_sort _).1 (mem_of_mem_take hk))]
  rfl

section

variable {l l' : List Filter} (hsame : ∀ f, f ∈ l' ↔ f ∈ l)

include hsame

theorem merge_eq_iff : merge l' = merge l ↔ ∀ k ∈ (keysOf l).sort.take maxFilters, ∀ c ∈ lettersOf k, keptOf l' k c = keptOf l k c := by
  have hkeys : keysOf l' = keysOf l := by
    ext k
    simp only [mem_keysOf, hsame]
  rw [merge_eq, merge_eq, hkeys, map_inj_left]
  refine forall₂_congr (fun k _ => ⟨fun h c hc => ?_, fun h => ?_⟩)
  · have htags := map_inj_left.1 (congrArg Filter.tags h) c ((Finset.mem_sort _).2 (mem_toFinset.2 hc))
    have hsort := (Prod.mk.inj htags).2
    rw [← Finset.sort_toFinset (keptOf l' k c) (· ≤ ·), hsort, Finset.sort_toFinset]
  · have htags : (lettersOf k).toFinset.sort.map (fun c => (c, (keptOf l' k c).sort)) =
        (lettersOf k).toFinset.sort.map (fun c => (c, (keptOf l k c).sort)) :=
      map_congr_left (fun c hc => by rw [h c (mem_toFinset.1 ((Finset.mem_sort _).1 hc))])
    rw [htags]

theorem valuesOf_congr (k : GroupKey) (c : Char) : valuesOf l' k c = valuesOf l k c := by
  ext v
  simp only [mem_valuesOf, hsame]

theorem merge_stable (h : WithinValues l) : merge l' = merge l := by
  refine (merge_eq_iff hsame).2 (fun k hk c _ => ?_)
  rw [(keptOf_capped l' k c).eq (by rw [valuesOf_congr hsame]; exact h k hk c), (keptOf_capped l k c).eq (h k hk c),
    valuesOf_congr hsame]

end

theorem keptOf_cons (f : Filter) (l : List Filter) (c : Char) (hf : (valuesAt f.tags c).card ≤ maxTagValues) :
    valuesAt f.tags c ⊆ keptOf (f :: l) (groupKey f) c := by
  have hgrow : ∀ (l : List Filter) (groups : Table GroupKey Group) (k : GroupKey),
      (((groups.get k).getD ∅).get c).getD ∅ ⊆ ((((l.foldl addFilter groups).get k).getD ∅).get c).getD ∅ := by
    intro l
    induction l with
    | nil => exact fun _ _ => Finset.Subset.refl _
    | cons g l ih =>
      intro groups k
      refine Finset.Subset.trans ?_ (ih _ k)
      rw [addFilter, get_insert]
      by_cases hk : k = groupKey g
      · rw [if_pos hk, hk]
        exact subset_addTags _ _ _
      · rw [if_neg hk]
  have hfirst : Capped (((addTags (((∅ : Table GroupKey Group).get (groupKey f)).getD ∅) f.tags).get c).getD ∅)
      (∅ ∪ valuesAt f.tags c) :=
    addTags_capped ⟨Finset.Subset.refl _, Nat.zero_le _, fun _ => rfl⟩ f.tags
  rw [Finset.empty_union] at hfirst
  refine Finset.Subset.trans ?_ (hgrow l (addFilter ∅ f) (groupKey f))
  rw [addFilter, get_insert_self, Option.getD_some, hfirst.eq hf]

/-- **Over the cap it does**: a filter with a value that is left out comes first, and it is kept. -/
theorem merge_unstable {l : List Filter} (hl : ∀ f ∈ l, ∀ c, (valuesAt f.tags c).card ≤ maxTagValues)
    (hk : k ∈ (keysOf l).sort.take maxFilters) (hbig : maxTagValues < (valuesOf l k c).card) :
    ∃ f ∈ l, merge (f :: l) ≠ merge l := by
  have hcap := keptOf_capped l k c
  obtain ⟨v, hv, hout⟩ := Finset.exists_of_ssubset (Finset.ssubset_iff_subset_ne.2
    ⟨hcap.sub, fun heq => absurd (heq ▸ hcap.card) (Nat.not_le.2 hbig)⟩)
  obtain ⟨f, hf, rfl, hvf⟩ := mem_valuesOf.1 hv
  have hletter : c ∈ lettersOf (groupKey f) := by
    obtain ⟨t, ht, -⟩ := mem_flatMap.1 (mem_toFinset.1 hvf)
    obtain ⟨ht, hc⟩ := mem_filter.1 ht
    exact of_decide_eq_true hc ▸ mem_map_of_mem ht
  refine ⟨f, hf, fun heq => hout ?_⟩
  have hsame : ∀ g, g ∈ f :: l ↔ g ∈ l := fun g => by
    rw [mem_cons]
    exact ⟨fun h => h.elim (fun h => h ▸ hf) id, .inr⟩
  rw [← (merge_eq_iff hsame).1 heq _ hk c hletter]
  exact keptOf_cons f l c (hl f hf c) hvf

/-! ## What the merged filters are -/

theorem valuesAt_card (hletters : (l.map Prod.fst).Pairwise (· < ·))
    (hlen : ∀ t ∈ l, t.2.length ≤ maxFilterValues) (c : Char) : (valuesAt l c).card ≤ maxTagValues := by
  induction l with
  | nil => exact Nat.zero_le _
  | cons t l ih =>
    obtain ⟨ht, hl⟩ := pairwise_cons.1 hletters
    unfold valuesAt
    by_cases hc : t.1 = c
    · have hnil : l.filter (fun t => decide (t.1 = c)) = [] := by
        refine filter_eq_nil_iff.2 (fun u hu => ?_)
        rw [decide_eq_true_eq]
        exact fun heq => absurd (ht _ (mem_map_of_mem hu)) (by rw [heq, hc]; exact lt_irrefl c)
      rw [filter_cons, if_pos (decide_eq_true hc), hnil, flatMap_cons, flatMap_nil, append_nil]
      exact (toFinset_card_le _).trans (hlen t mem_cons_self)
    · rw [filter_cons, if_neg (by rw [decide_eq_true_eq]; exact hc)]
      exact ih hl (fun u hu => hlen u (mem_cons_of_mem _ hu))

theorem mem_valuesAt {v : String} : v ∈ valuesAt l c ↔ ∃ t ∈ l, t.1 = c ∧ v ∈ t.2 := by
  unfold valuesAt
  simp only [mem_toFinset, mem_flatMap, mem_filter, decide_eq_true_eq, and_assoc]

theorem merge_checked (h : ∀ f ∈ filters, f.Checked) {g : Filter} (hg : g ∈ merge filters) : g.Checked := by
  rw [merge_eq] at hg
  obtain ⟨k, hk, rfl⟩ := mem_map.1 hg
  obtain ⟨f, hf, rfl⟩ := mem_keysOf.1 ((Finset.mem_sort _).1 (mem_of_mem_take hk))
  have hc := h f hf
  have hsort : ∀ {α : Type} [LinearOrder α] (l : List α), (sortDedup l).length ≤ l.length ∧ ∀ a ∈ sortDedup l, a ∈ l := by
    intro α _ l
    unfold sortDedup
    rw [Finset.length_sort]
    exact ⟨toFinset_card_le l, fun a ha => mem_toFinset.1 ((Finset.mem_sort _).1 ha)⟩
  refine ⟨nofun, fun l hl => ?_, fun l hl => ?_, fun t ht => ?_, ?_, fun n hn => ?_⟩
  · obtain ⟨a, ha, rfl⟩ := Option.map_eq_some_iff.1 (show f.authors.map sortDedup = some l from hl)
    obtain ⟨hlen, hall⟩ := hc.authors a ha
    exact ⟨(hsort a).1.trans hlen, fun x hx => hall x ((hsort a).2 x hx)⟩
  · have hl : sortDedup (f.kinds.getD []) = l := Option.some.inj hl
    have hkinds : (f.kinds.getD []).length ≤ maxFilterValues ∧ ∀ x ∈ f.kinds.getD [], x ≤ 65535 := by
      cases hf : f.kinds with
      | none => exact ⟨Nat.zero_le _, nofun⟩
      | some ks => exact hc.kinds ks hf
    rw [← hl]
    exact ⟨(hsort _).1.trans hkinds.1, fun x hx => hkinds.2 x ((hsort _).2 x hx)⟩
  · obtain ⟨c, hcl, rfl⟩ := mem_map.1 ht
    clear ht
    obtain ⟨t, ht, rfl⟩ := mem_map.1 (mem_toFinset.1 ((Finset.mem_sort _).1 hcl))
    have hcap := keptOf_capped filters (groupKey f) t.1
    refine ⟨(hc.tags t ht).1, by rw [Finset.length_sort]; exact hcap.card, fun v hv => ?_⟩
    obtain ⟨f', hf', -, hv⟩ := mem_valuesOf.1 (hcap.sub ((Finset.mem_sort _).1 hv))
    obtain ⟨u, hu, -, hv⟩ := mem_valuesAt.1 hv
    exact ((h f' hf').tags u hu).2.2 v hv
  · rw [map_map]
    exact (map_id _).symm ▸ (Finset.sortedLT_sort _).pairwise
  · rcases hn with hn | hn | hn <;> cases hn

theorem merge_covers {kinds : List Nat} (hmirrored : ∀ f ∈ filters, mirrored f kinds = true)
    (hgroups : (keysOf filters).card ≤ maxFilters) (hvalues : ∀ k c, (valuesOf filters k c).card ≤ maxTagValues) {f : Filter}
    (hf : f ∈ filters) {ev : Event} (h : f.matches ev = true) : ∃ g ∈ merge filters, g.matches ev = true := by
  have hkey : groupKey f ∈ (keysOf filters).sort.take maxFilters := by
    rw [take_of_length_le (by rw [Finset.length_sort]; exact hgroups), Finset.mem_sort]
    exact mem_keysOf.2 ⟨f, hf, rfl⟩
  have hm := hmirrored f hf
  unfold mirrored at hm
  rw [Bool.and_eq_true] at hm
  obtain ⟨ks, hks, -⟩ := (Option.any_eq_true _ _).1 hm.2
  unfold Filter.matches at h
  simp only [Bool.and_eq_true] at h
  obtain ⟨⟨⟨⟨⟨-, hauthors⟩, hkinds⟩, -⟩, -⟩, htags⟩ := h
  rw [merge_eq]
  refine ⟨_, mem_map.2 ⟨_, hkey, rfl⟩, ?_⟩
  unfold Filter.matches
  simp only [Bool.and_eq_true]
  refine ⟨⟨⟨⟨⟨rfl, ?_⟩, ?_⟩, rfl⟩, rfl⟩, ?_⟩
  · show (f.authors.map sortDedup).all _ = true
    cases ha : f.authors with
    | none => rfl
    | some a =>
      rw [ha, Option.all_some, contains_iff_mem] at hauthors
      rw [Option.map_some, Option.all_some, contains_iff_mem]
      exact (Finset.mem_sort _).2 (mem_toFinset.2 hauthors)
  · show (sortDedup (f.kinds.getD [])).contains ev.kind = true
    rw [hks, Option.all_some, contains_iff_mem] at hkinds
    rw [hks, contains_iff_mem]
    exact (Finset.mem_sort _).2 (mem_toFinset.2 hkinds)
  · rw [List.all_eq_true] at htags ⊢
    intro u hu
    obtain ⟨c, hc, rfl⟩ := mem_map.1 hu
    obtain ⟨t, ht, rfl⟩ := mem_map.1 (mem_toFinset.1 ((Finset.mem_sort _).1 hc))
    obtain ⟨v, hv, hin⟩ := any_eq_true.1 (htags t ht)
    refine any_eq_true.2 ⟨v, hv, ?_⟩
    rw [contains_iff_mem] at hin ⊢
    rw [Finset.mem_sort, (keptOf_capped filters (groupKey f) t.1).eq (hvalues _ _)]
    exact mem_valuesOf.2 ⟨f, hf, rfl, mem_valuesAt.2 ⟨t, ht, rfl, hin⟩⟩

/-- **Merging is a stable superset** exactly when no group that is kept has more values for a letter than a filter may have: the
filters that are merged are accepted again and, within the caps, lose nothing, but over the cap the order decides what they keep. -/
theorem merge_exact (filters : List Filter) (kinds : List Nat) (hparsed : ∀ f ∈ filters, ∃ value, Filter.parse value = .ok f)
    (hmirrored : ∀ f ∈ filters, mirrored f kinds = true) :
    ((∀ l', (∀ f, f ∈ l' ↔ f ∈ filters) → merge l' = merge filters) ∧ (∀ g ∈ merge filters, ∃ h, Filter.parse (filterJson g) = .ok h) ∧
      ((keysOf filters).card ≤ maxFilters → (∀ k c, (valuesOf filters k c).card ≤ maxTagValues) →
        ∀ ev, ∀ f ∈ filters, f.matches ev = true → ∃ g ∈ merge filters, g.matches ev = true)) ↔ WithinValues filters := by
  have hchecked : ∀ f ∈ filters, f.Checked := fun f hf => by
    obtain ⟨value, hvalue⟩ := hparsed f hf
    exact Filter.parse_checked hvalue
  constructor
  · rintro ⟨hstable, -, -⟩ k hk c
    by_contra hbig
    obtain ⟨f, hf, hne⟩ := merge_unstable
      (fun f hf c => valuesAt_card (hchecked f hf).letters (fun t ht => ((hchecked f hf).tags t ht).2.1) c) hk (Nat.lt_of_not_le hbig)
    refine hne (hstable (f :: filters) (fun g => ?_))
    rw [mem_cons]
    exact ⟨fun h => h.elim (fun h => h ▸ hf) id, .inr⟩
  · exact fun h => ⟨fun l' hsame => merge_stable hsame h, fun g hg => parse_filterJson (merge_checked hchecked hg),
      fun hgroups hvalues ev f hf hmatch => merge_covers hmirrored hgroups hvalues hf hmatch⟩

def roomFilter (room : String) : Filter := ⟨none, none, some [25049], [('d', [room])], none, none, none⟩

def roomJson (room : String) : Json := .obj [("#d", .arr [.str room]), ("kinds", .arr [.int 25049])]

theorem parse_roomJson {room : String} (h : room.utf8ByteSize ≤ maxTagValueBytes) : Filter.parse (roomJson room) = .ok (roomFilter room) := by
  have hd : Filter.default.parseField "#d" (.arr [.str room]) = .ok { Filter.default with tags := [('d', [room])] } := by
    have hlist := tagList_strings "#d" (l := [room]) ⟨by rw [length_singleton]; decide, fun v hv => by rw [mem_singleton.1 hv]; exact h⟩
    have hletter : Filter.tagLetter "#d" = some 'd' := by decide
    rw [Filter.parseField]
    rw [show Json.arr [.str room] = strings [room] from rfl, hlist]
    rfl
  show Filter.parseFields Filter.default _ = _
  rw [Filter.parseFields, hd]
  rfl

theorem merge_exact_room : merge [roomFilter "r", roomFilter "r"] = merge [roomFilter "r"] := by
  refine ((merge_exact [roomFilter "r"] [25049] (fun f hf => ⟨roomJson "r", ?_⟩) (fun f hf => ?_)).2 (fun k _ c => ?_)).1 _ (by simp)
  · rw [mem_singleton.1 hf]
    exact parse_roomJson (by decide)
  · rw [mem_singleton.1 hf]
    decide
  · have hsub : valuesOf [roomFilter "r"] k c ⊆ {"r"} := by
      intro v hv
      obtain ⟨f, hf, -, hv⟩ := mem_valuesOf.1 hv
      rw [mem_singleton.1 hf] at hv
      obtain ⟨t, ht, -, hv⟩ := mem_valuesAt.1 hv
      rw [mem_singleton.1 ht] at hv
      rw [mem_singleton.1 hv]
      exact Finset.mem_singleton_self _
    exact (Finset.card_le_card hsub).trans (by decide)

/-- The rooms `""`, `a`, `aa` and so on, one more than a tag may have. -/
def room (i : Nat) : String := String.ofList (List.replicate i 'a')

def manyRooms : List Filter := (List.range (maxTagValues + 1)).map (fun i => roomFilter (room i))

theorem manyRooms_ordered : ¬ ∀ (filters l' : List Filter) (kinds : List Nat),
    (∀ f ∈ filters, ∃ value, Filter.parse value = .ok f) → (∀ f ∈ filters, mirrored f kinds = true) →
    (∀ f, f ∈ l' ↔ f ∈ filters) → merge l' = merge filters := by
  intro h
  have hmem : ∀ f ∈ manyRooms, ∃ i ≤ maxTagValues, f = roomFilter (room i) := by
    intro f hf
    obtain ⟨i, hi, rfl⟩ := mem_map.1 hf
    exact ⟨i, Nat.le_of_lt_succ (List.mem_range.1 hi), rfl⟩
  have hparsed : ∀ f ∈ manyRooms, ∃ value, Filter.parse value = .ok f := by
    intro f hf
    obtain ⟨i, hi, rfl⟩ := hmem f hf
    refine ⟨roomJson (room i), parse_roomJson ?_⟩
    rw [room, utf8ByteSize_ascii (fun c hc => by rw [eq_of_mem_replicate hc]; decide), length_replicate]
    exact hi.trans (by decide)
  have hkeys : keysOf manyRooms = {groupKey (roomFilter "")} := by
    ext k
    rw [mem_keysOf, Finset.mem_singleton]
    constructor
    · rintro ⟨f, hf, rfl⟩
      obtain ⟨i, -, rfl⟩ := hmem f hf
      rfl
    · rintro rfl
      exact ⟨roomFilter (room 0), mem_map_of_mem (List.mem_range.2 (Nat.succ_pos _)), rfl⟩
  have hsub : (Finset.range (maxTagValues + 1)).image room ⊆ valuesOf manyRooms (groupKey (roomFilter "")) 'd' := by
    intro v hv
    obtain ⟨i, hi, rfl⟩ := Finset.mem_image.1 hv
    exact mem_valuesOf.2 ⟨roomFilter (room i), mem_map_of_mem (List.mem_range.2 (Finset.mem_range.1 hi)), rfl,
      mem_valuesAt.2 ⟨_, mem_singleton_self _, rfl, mem_singleton_self _⟩⟩
  have hinj : Function.Injective room := by
    intro i j hij
    have := congrArg String.toList hij
    rw [room, room, String.toList_ofList, String.toList_ofList] at this
    have := congrArg List.length this
    rwa [length_replicate, length_replicate] at this
  have hbig := Finset.card_le_card hsub
  rw [Finset.card_image_of_injective _ hinj, Finset.card_range] at hbig
  obtain ⟨f, hf, hne⟩ := merge_unstable (l := manyRooms) (k := groupKey (roomFilter ""))
    (fun f hf c => by
      obtain ⟨value, hvalue⟩ := hparsed f hf
      have hc := Filter.parse_checked hvalue
      exact valuesAt_card hc.letters (fun t ht => (hc.tags t ht).2.1) c)
    (by rw [hkeys, Finset.sort_singleton]; exact mem_cons_self) (c := 'd') hbig
  refine hne (h manyRooms (f :: manyRooms) [25049] hparsed (fun f hf => ?_) (fun g => ?_))
  · obtain ⟨i, -, rfl⟩ := hmem f hf
    rfl
  · rw [mem_cons]
    exact ⟨fun h => h.elim (fun h => h ▸ hf) id, .inr⟩

end Interest
end Mistl.Nostr
