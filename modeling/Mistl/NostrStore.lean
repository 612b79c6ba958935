import Mathlib.Data.Prod.Lex
import Mathlib.Data.String.Basic
import Mistl.Lib.Ordered
import Mistl.NostrEvent
/-!
# NostrStore — the bounded event store

`Store` of `store.rs`: events by id, with an index by time and one by address; the deletions requested so far, by id
and by address, in tables that drop their oldest entry when they are full; and the log records not yet taken out.
-/
open List Mistl.Table Option

namespace Mistl.Nostr

abbrev Address := Nat × String × String

inductive Insert where
  | stored
  | ephemeral
  | duplicate
  | obsolete
  | deleted
  deriving DecidableEq

structure Fifo (κ ν : Type) where
  values : Table κ ν
  order : List κ

namespace Fifo

variable {κ ν : Type} [DecidableEq κ]

def new : Fifo κ ν := ⟨∅, []⟩

def insert (f : Fifo κ ν) (key : κ) (value : ν) (cap : Nat) : Fifo κ ν :=
  if f.values.contains key then { f with values := f.values.insert key value }
  else if cap = 0 then f
  else
    let f := if f.values.size < cap then f else
      match f.order with
      | [] => f
      | old :: order => ⟨f.values.erase old, order⟩
    ⟨f.values.insert key value, f.order ++ [key]⟩

variable {f : Fifo κ ν} {key : κ} {value : ν} {cap : Nat}

theorem get_insert_cases {k : κ} {v : ν} (h : (f.insert key value cap).values.get k = some v) :
    (k = key ∧ v = value) ∨ f.values.get k = some v := by
  have hplace : ∀ m : Table κ ν, (∀ k v, m.get k = some v → f.values.get k = some v) →
      (m.insert key value).get k = some v → (k = key ∧ v = value) ∨ f.values.get k = some v := by
    intro m hm hk
    rcases of_get_insert hk with ⟨he, rfl⟩ | ⟨-, hk⟩
    · exact Or.inl ⟨he, rfl⟩
    · exact Or.inr (hm k v hk)
  unfold insert at h
  split at h
  · exact hplace _ (fun _ _ => id) h
  · split at h
    · exact Or.inr h
    · split at h
      · exact hplace _ (fun _ _ => id) h
      · split at h
        · exact hplace _ (fun _ _ => id) h
        · refine hplace _ (fun k v hk => ?_) h
          exact (of_get_erase hk).2

theorem insert_values (h : (Insert.insert key f.values.keys).card ≤ cap) :
    (f.insert key value cap).values = f.values.insert key value := by
  unfold insert
  split
  · rfl
  · rename_i hc
    have hkey : key ∉ f.values.keys := by
      rw [Table.mem_keys, not_not]
      exact contains_eq_false.1 (Bool.not_eq_true _ ▸ hc)
    rw [Finset.card_insert_of_notMem hkey, card_keys] at h
    have hcap : cap ≠ 0 := by omega
    have hroom : f.values.size < cap := by omega
    rw [if_neg hcap]
    simp only [if_pos hroom]

end Fifo

inductive Line where
  | ev (e : Event)
  | del (id : String)
  deriving DecidableEq

structure Store where
  events : Table String Event
  byTime : List (Nat ×ₗ String)
  addresses : Table Address String
  deletedIds : Fifo (String × String) Unit
  deletedAddresses : Fifo Address Nat
  maxEvents : Nat
  persistent : Bool
  pending : List Line
  logLines : Nat
  rewrite : Bool

/-! ## Events in the store -/

def expired (e : Event) (now : Nat) : Bool := e.expiration.any (fun time => decide (time ≤ now))

def addressOf (e : Event) : Option Address :=
  match e.kindClass with
  | .replaceable => some (e.kind, e.pubkey, "")
  | .addressable => some (e.kind, e.pubkey, e.dTag)
  | _ => none

def isHexKey (value : String) : Bool :=
  value.utf8ByteSize == 64 && value.toList.all (fun c => c.isDigit || (decide ('a' ≤ c) && decide (c ≤ 'f')) ||
    (decide ('A' ≤ c) && decide (c ≤ 'F')))

def splitOnce (sep : Char) : List Char → Option (List Char × List Char)
  | [] => none
  | c :: rest => if c = sep then some ([], rest) else (splitOnce sep rest).map (fun p => (c :: p.1, p.2))

def parseAddress (value : String) : Option Address := (splitOnce ':' value.toList).bind (fun (kind, rest) =>
    (splitOnce ':' rest).bind (fun (pubkey, d) =>
      (parseUnsigned (2 ^ 32) kind).bind (fun kind =>
        if isHexKey (String.ofList pubkey) then some (kind, String.ofList pubkey, String.ofList d) else none)))

def timeKey (e : Event) : Nat ×ₗ String := toLex (e.createdAt, e.id)

namespace Store

def fresh (maxEvents : Nat) (persistent : Bool) : Store := ⟨∅, [], ∅, .new, .new, maxEvents, persistent, [], 0, false⟩

variable (s : Store)

def len : Nat := s.events.size

def contains (id : String) : Bool := s.events.contains id

/-! ## The log records -/

def compactionThreshold : Nat := satAdd (min (s.len * 2) u64Max) 1000

def markAllDirty : Store := if s.persistent then { s with rewrite := true, pending := [] } else s

def record (line : Line) : Store :=
  if s.persistent = false then s
  else
    let s := { s with logLines := satAdd s.logLines 1 }
    if s.compactionThreshold < s.logLines then s.markAllDirty
    else if s.rewrite then s
    else { s with pending := s.pending ++ [line] }

/-! ## Insertion -/

def remove (id : String) : Store :=
  match s.events.get id with
  | none => s
  | some ev =>
    let s := { s with events := s.events.erase id, byTime := Ordered.discard (toLex (ev.createdAt, id)) s.byTime }
    let s := match addressOf ev with
      | none => s
      | some address => { s with addresses := s.addresses.erase address }
    s.record (.del ev.id)

def current (address : Address) : Option Event := (s.addresses.get address).bind s.events.get

/-- The loop of `delete_requested` over `e` tags. -/
def deleteId (ev : Event) (id : String) : Store :=
  if isHexKey id = false then s
  else
    let s := if (s.events.get id).any (fun old => old.pubkey == ev.pubkey && old.kind != 5) then s.remove id else s
    { s with deletedIds := s.deletedIds.insert (id, ev.pubkey) () s.maxEvents }

/-- The loop of `delete_requested` over `a` tags. -/
def deleteAddress (ev : Event) (value : String) : Store :=
  match parseAddress value with
  | none => s
  | some address =>
    if address.2.1 ≠ ev.pubkey then s
    else
      let s := match s.current address with
        | some old => if old.createdAt ≤ ev.createdAt then s.remove old.id else s
        | none => s
      let time := max ((s.deletedAddresses.values.get address).getD 0) ev.createdAt
      { s with deletedAddresses := s.deletedAddresses.insert address time s.maxEvents }

def deleteRequested (ev : Event) : Store := (ev.tagValues "a").foldl (fun s value => s.deleteAddress ev value)
    ((ev.tagValues "e").foldl (fun s id => s.deleteId ev id) s)

/-- The checks of `insert`, in their order: what becomes of an event. -/
def outcome (ev : Event) : Insert :=
  if s.contains ev.id then .duplicate
  else if ev.kindClass = .ephemeral then .ephemeral
  else if ev.kind ≠ 5 ∧ s.deletedIds.values.contains (ev.id, ev.pubkey) = true then .deleted
  else
    match addressOf ev with
    | none => .stored
    | some address =>
      if (s.deletedAddresses.values.get address).any (fun time => decide (ev.createdAt ≤ time)) then .deleted
      else
        match s.current address with
        | none => .stored
        | some old => if ev.createdAt < old.createdAt ∨ (old.createdAt = ev.createdAt ∧ old.id < ev.id) then .obsolete else .stored

def vacate (ev : Event) : Store :=
  match (addressOf ev).bind s.current with
  | none => s
  | some old => s.remove old.id

def request (ev : Event) : Store := if ev.kind = 5 then s.deleteRequested ev else s

def put (ev : Event) : Store :=
  let s := { s with byTime := Ordered.place (timeKey ev) s.byTime }
  let s := match addressOf ev with
    | none => s
    | some address => { s with addresses := s.addresses.insert address ev.id }
  let s := { s with events := s.events.insert ev.id ev }
  s.record (.ev ev)

/-- The loop of `insert` that removes the oldest events past the capacity; each round removes one. -/
def evict : Nat → Store → Store
  | 0, s => s
  | fuel + 1, s =>
    if s.maxEvents < s.len then
      match s.byTime.head? with
      | none => s
      | some key => evict fuel (s.remove (ofLex key).2)
    else s

def insert (ev : Event) : Store × Insert :=
  match s.outcome ev with
  | .stored =>
    let s := ((s.vacate ev).request ev).put ev
    (evict s.len s, .stored)
  | refused => (s, refused)

def insertAll (events : List Event) : Store := events.foldl (fun s ev => (s.insert ev).1) s

/-! ## Taking the log records out -/

def snapshot : List Line := (s.byTime.filterMap (fun key => s.events.get (ofLex key).2)).map .ev

/-- `take_pending`: whether the log is replaced, and the lines written. -/
def takePending : Store × Bool × List Line :=
  if s.persistent = false then (s, false, [])
  else if s.rewrite ∨ s.compactionThreshold < s.logLines then
    ({ s with rewrite := false, pending := [], logLines := s.len }, true, s.snapshot)
  else ({ s with rewrite := false, pending := [] }, false, s.pending)

/-! ## What the log records leave alone -/

/-- Two stores with the same contents: everything but the log records. -/
structure Same (s s' : Store) : Prop where
  events : s'.events = s.events
  byTime : s'.byTime = s.byTime
  addresses : s'.addresses = s.addresses
  deletedIds : s'.deletedIds = s.deletedIds
  deletedAddresses : s'.deletedAddresses = s.deletedAddresses
  maxEvents : s'.maxEvents = s.maxEvents
  persistent : s'.persistent = s.persistent

theorem markAllDirty_same : Same s s.markAllDirty := by
  unfold markAllDirty
  split <;> exact ⟨rfl, rfl, rfl, rfl, rfl, rfl, rfl⟩

theorem record_same (line : Line) : Same s (s.record line) := by
  unfold record
  split
  · exact ⟨rfl, rfl, rfl, rfl, rfl, rfl, rfl⟩
  · simp only
    split
    · obtain ⟨h1, h2, h3, h4, h5, h6, h7⟩ := markAllDirty_same { s with logLines := satAdd s.logLines 1 }
      exact ⟨h1, h2, h3, h4, h5, h6, h7⟩
    · split <;> exact ⟨rfl, rfl, rfl, rfl, rfl, rfl, rfl⟩

/-! ## The indexes -/

structure Indexed (s : Store) : Prop where
  keyed : ∀ id e, s.events.get id = some e → e.id = id
  ascending : s.byTime.Pairwise (· < ·)
  times : ∀ k, k ∈ s.byTime ↔ ∃ e, s.events.get e.id = some e ∧ timeKey e = k
  held : ∀ a id, s.addresses.get a = some id → ∃ e, s.events.get id = some e ∧ addressOf e = some a
  addressed : ∀ id e a, s.events.get id = some e → addressOf e = some a → s.addresses.get a = some id
  lasting : ∀ id e, s.events.get id = some e → e.kindClass ≠ .ephemeral

variable {s}

theorem Indexed.congr {s' : Store} (h : s.Indexed) (hs : Same s s') : s'.Indexed := by
  obtain ⟨h1, h2, h3, h4, h5, h6⟩ := h
  refine ⟨?_, ?_, ?_, ?_, ?_, ?_⟩
  · rw [hs.events]; exact h1
  · rw [hs.byTime]; exact h2
  · rw [hs.byTime, hs.events]; exact h3
  · rw [hs.events, hs.addresses]; exact h4
  · rw [hs.events, hs.addresses]; exact h5
  · rw [hs.events]; exact h6

theorem Indexed.fresh (maxEvents : Nat) (persistent : Bool) : (fresh maxEvents persistent).Indexed := by
  refine ⟨nofun, List.Pairwise.nil, fun k => ⟨nofun, ?_⟩, nofun, nofun, nofun⟩
  rintro ⟨e, he, -⟩
  cases he

theorem Indexed.current_eq_some (h : s.Indexed) {a : Address} {e : Event} :
    s.current a = some e ↔ s.events.get e.id = some e ∧ addressOf e = some a := by
  unfold current
  rw [bind_eq_some_iff]
  constructor
  · rintro ⟨id, ha, he⟩
    obtain ⟨e', he', ha'⟩ := h.held a id ha
    rw [he] at he'
    cases he'
    rw [h.keyed id e he]
    exact ⟨he, ha'⟩
  · rintro ⟨he, ha⟩
    exact ⟨e.id, h.addressed _ _ _ he ha, he⟩

theorem Indexed.address_inj (h : s.Indexed) {e e' : Event} {a : Address} (he : s.events.get e.id = some e)
    (he' : s.events.get e'.id = some e') (ha : addressOf e = some a) (ha' : addressOf e' = some a) : e = e' := by
  have h1 := h.current_eq_some.2 ⟨he, ha⟩
  have h2 := h.current_eq_some.2 ⟨he', ha'⟩
  exact Option.some.inj (h1.symm.trans h2)

/-! ## Removing -/

/-- What a removal changes besides the indexes: one event goes. -/
structure Removed (s : Store) (id : String) (s' : Store) : Prop where
  events : s'.events = s.events.erase id
  deletedIds : s'.deletedIds = s.deletedIds
  deletedAddresses : s'.deletedAddresses = s.deletedAddresses
  maxEvents : s'.maxEvents = s.maxEvents
  persistent : s'.persistent = s.persistent

theorem remove_removed (s : Store) (id : String) : Removed s id (s.remove id) := by
  unfold remove
  split
  · rename_i hn
    exact ⟨(erase_of_get_none hn).symm, rfl, rfl, rfl, rfl⟩
  · rename_i ev _
    cases addressOf ev with
    | none =>
      obtain ⟨h1, -, -, h4, h5, h6, h7⟩ := record_same
        { s with events := s.events.erase id, byTime := Ordered.discard (toLex (ev.createdAt, id)) s.byTime } (.del ev.id)
      exact ⟨h1, h4, h5, h6, h7⟩
    | some a =>
      obtain ⟨h1, -, -, h4, h5, h6, h7⟩ := record_same
        { s with events := s.events.erase id, byTime := Ordered.discard (toLex (ev.createdAt, id)) s.byTime,
                 addresses := s.addresses.erase a } (.del ev.id)
      exact ⟨h1, h4, h5, h6, h7⟩

theorem Indexed.remove (h : s.Indexed) (id : String) : (s.remove id).Indexed := by
  unfold Store.remove
  split
  · exact h
  · rename_i ev hev
    have hid := h.keyed id ev hev
    subst hid
    have htimes : ∀ k, k ∈ Ordered.discard (timeKey ev) s.byTime ↔ ∃ e, (s.events.erase ev.id).get e.id = some e ∧ timeKey e = k := by
      intro k
      rw [Ordered.mem_discard h.ascending, h.times]
      constructor
      · rintro ⟨hne, e, he, rfl⟩
        refine ⟨e, ?_, rfl⟩
        rw [get_erase_ne, he]
        intro hid
        rw [hid] at he
        rw [he] at hev
        cases hev
        exact hne rfl
      · rintro ⟨e, he, rfl⟩
        obtain ⟨hne, he⟩ := of_get_erase he
        exact ⟨fun hk => hne (congrArg (fun k => (ofLex k).2) hk), e, he, rfl⟩
    have hget : ∀ id e, (s.events.erase ev.id).get id = some e → id ≠ ev.id ∧ s.events.get id = some e := by
      intro id e he
      obtain ⟨hne, he⟩ := of_get_erase he
      exact ⟨hne, he⟩
    cases ha : addressOf ev with
    | none =>
      refine Indexed.congr (s := { s with events := s.events.erase ev.id, byTime := Ordered.discard (timeKey ev) s.byTime }) ?_
        (record_same _ _)
      refine ⟨fun id e he => h.keyed id e (hget id e he).2, Ordered.discard_ascending h.ascending _, htimes, ?_, ?_,
        fun id e he => h.lasting id e (hget id e he).2⟩
      · intro a id haid
        obtain ⟨e, he, hae⟩ := h.held a id haid
        refine ⟨e, ?_, hae⟩
        rw [get_erase_ne, he]
        rintro rfl
        rw [hev] at he
        cases he
        rw [ha] at hae
        cases hae
      · exact fun id e a he hae => h.addressed id e a (hget id e he).2 hae
    | some a₀ =>
      refine Indexed.congr (s := { s with events := s.events.erase ev.id, byTime := Ordered.discard (timeKey ev) s.byTime,
                                          addresses := s.addresses.erase a₀ }) ?_ (record_same _ _)
      refine ⟨fun id e he => h.keyed id e (hget id e he).2, Ordered.discard_ascending h.ascending _, htimes, ?_, ?_,
        fun id e he => h.lasting id e (hget id e he).2⟩
      · intro a id haid
        simp only [get_erase] at haid
        split at haid
        · cases haid
        rename_i hne
        obtain ⟨e, he, hae⟩ := h.held a id haid
        refine ⟨e, ?_, hae⟩
        rw [get_erase_ne, he]
        rintro rfl
        rw [hev] at he
        cases he
        rw [ha] at hae
        cases hae
        exact hne rfl
      · intro id e a he hae
        obtain ⟨hne, hin⟩ := hget id e he
        have hid := h.keyed id e hin
        rw [get_erase_ne, h.addressed id e a hin hae]
        rintro rfl
        subst hid
        exact hne (congrArg Event.id (h.address_inj hin hev hae ha))

/-! ## Deletion requests -/

end Store

def Event.names (e : Event) : List String := (e.tagValues "e").filter isHexKey

def Event.targets (e : Event) : List Address := ((e.tagValues "a").filterMap parseAddress).filter (fun a => decide (a.2.1 = e.pubkey))

/-- What a deletion request is about: events of its author that it names, and versions up to its own time at the
addresses it names. -/
def Event.Deletes (d e : Event) : Prop :=
  (e.id ∈ d.names ∧ e.pubkey = d.pubkey ∧ e.kind ≠ 5) ∨
  ∃ a ∈ d.targets, addressOf e = some a ∧ e.createdAt ≤ d.createdAt

/-- What an event sends away when it is let in: the version at its address, and what it asks to delete. -/
def Event.Displaces (ev e : Event) : Prop := (∃ a, addressOf ev = some a ∧ addressOf e = some a) ∨ (ev.kind = 5 ∧ ev.Deletes e)

namespace Store

variable {s : Store}

structure Cleared (s : Store) (p : Event → Prop) (s' : Store) : Prop where
  indexed : s'.Indexed
  events : ∀ id e, s'.events.get id = some e ↔ s.events.get id = some e ∧ ¬p e
  maxEvents : s'.maxEvents = s.maxEvents
  persistent : s'.persistent = s.persistent

theorem Cleared.nothing (h : s.Indexed) {p : Event → Prop} (hp : ∀ e, s.events.get e.id = some e → ¬p e) : Cleared s p s := by
  refine ⟨h, fun id e => ⟨fun he => ⟨he, hp e ?_⟩, And.left⟩, rfl, rfl⟩
  rw [h.keyed id e he]
  exact he

theorem Cleared.trans {p q : Event → Prop} {s' s'' : Store} (h : Cleared s p s') (h' : Cleared s' q s'') :
    Cleared s (fun e => p e ∨ q e) s'' := by
  refine ⟨h'.indexed, fun id e => ?_, h'.maxEvents.trans h.maxEvents, h'.persistent.trans h.persistent⟩
  rw [h'.events, h.events, and_assoc, not_or]

theorem Cleared.congr {p q : Event → Prop} {s' : Store} (h : Cleared s p s') (hpq : ∀ e, p e ↔ q e) : Cleared s q s' :=
  ⟨h.indexed, fun id e => by rw [h.events, hpq], h.maxEvents, h.persistent⟩

theorem Indexed.removed (h : s.Indexed) (id : String) : Cleared s (fun e => e.id = id) (s.remove id) := by
  have hr := remove_removed s id
  refine ⟨h.remove id, fun x e => ?_, hr.maxEvents, hr.persistent⟩
  rw [hr.events, get_erase]
  constructor
  · intro he
    split at he
    · cases he
    · rename_i hne
      exact ⟨he, fun hid => hne (hid ▸ (h.keyed x e he).symm)⟩
  · rintro ⟨he, hne⟩
    rw [if_neg, he]
    rintro rfl
    exact hne (h.keyed x e he)

theorem Indexed.removedIf (h : s.Indexed) (id : String) (p : Event → Bool) :
    Cleared s (fun e => e.id = id ∧ p e = true) (if (s.events.get id).any p then s.remove id else s) := by
  cases hget : s.events.get id with
  | none =>
    refine Cleared.nothing h (fun e he hp => ?_)
    rw [hp.1, hget] at he
    cases he
  | some old =>
    rw [any_some]
    by_cases hp : p old = true
    · rw [if_pos hp]
      refine ⟨h.remove id, fun x e => ?_, (h.removed id).maxEvents, (h.removed id).persistent⟩
      rw [(h.removed id).events]
      refine and_congr_right (fun he => not_congr ⟨fun hid => ⟨hid, ?_⟩, And.left⟩)
      have hx := h.keyed x e he
      rw [← hx, hid, hget] at he
      cases he
      exact hp
    · rw [if_neg hp]
      refine Cleared.nothing h (fun e he hpe => hp ?_)
      rw [hpe.1, hget] at he
      cases he
      exact hpe.2

theorem Indexed.tables (h : s.Indexed) (ids : Fifo (String × String) Unit) (addresses : Fifo Address Nat) :
    Indexed { s with deletedIds := ids, deletedAddresses := addresses } :=
  ⟨h.keyed, h.ascending, h.times, h.held, h.addressed, h.lasting⟩

theorem deleteIds_spec (ev : Event) : ∀ (ids : List String) {s : Store}, s.Indexed →
    Cleared s (fun e => e.id ∈ ids.filter isHexKey ∧ e.pubkey = ev.pubkey ∧ e.kind ≠ 5)
      (ids.foldl (fun s id => s.deleteId ev id) s) ∧
    (ids.foldl (fun s id => s.deleteId ev id) s).deletedIds = (ids.filter isHexKey).foldl
      (fun f id => f.insert (id, ev.pubkey) () s.maxEvents) s.deletedIds ∧
    (ids.foldl (fun s id => s.deleteId ev id) s).deletedAddresses = s.deletedAddresses
  | [], s, h => ⟨Cleared.nothing h (fun e _ hp => not_mem_nil hp.1), rfl, rfl⟩
  | id :: ids, s, h => by
    rw [foldl_cons]
    by_cases hhex : isHexKey id = true
    · have hstep : s.deleteId ev id =
          { (if (s.events.get id).any (fun old => old.pubkey == ev.pubkey && old.kind != 5) then s.remove id else s) with
            deletedIds := s.deletedIds.insert (id, ev.pubkey) () s.maxEvents } := by
        unfold deleteId
        rw [if_neg (by rw [hhex]; decide)]
        simp only
        split
        · rw [(remove_removed s id).deletedIds, (remove_removed s id).maxEvents]
        · rfl
      have hrem := h.removedIf id (fun old => old.pubkey == ev.pubkey && old.kind != 5)
      have haddr : (if (s.events.get id).any (fun old => old.pubkey == ev.pubkey && old.kind != 5) then s.remove id
          else s).deletedAddresses = s.deletedAddresses := by
        split
        · exact (remove_removed s id).deletedAddresses
        · rfl
      generalize (if (s.events.get id).any (fun old => old.pubkey == ev.pubkey && old.kind != 5) then s.remove id
          else s) = s₁ at hstep hrem haddr
      obtain ⟨hc, hids, haddrs⟩ := deleteIds_spec ev ids (hrem.indexed.tables
        (s.deletedIds.insert (id, ev.pubkey) () s.maxEvents) s₁.deletedAddresses)
      rw [hstep, filter_cons_of_pos hhex, foldl_cons]
      refine ⟨?_, ?_, haddrs.trans haddr⟩
      · have hmid : Cleared s (fun e => e.id = id ∧ (e.pubkey == ev.pubkey && e.kind != 5) = true)
            { s₁ with deletedIds := s.deletedIds.insert (id, ev.pubkey) () s.maxEvents } :=
          ⟨hrem.indexed.tables _ _, hrem.events, hrem.maxEvents, hrem.persistent⟩
        refine (hmid.trans hc).congr (fun e => ?_)
        rw [mem_cons]
        simp only [Bool.and_eq_true, beq_iff_eq, bne_iff_ne]
        tauto
      · rw [hids]
        simp only [hrem.maxEvents]
    · have hstep : s.deleteId ev id = s := by
        unfold deleteId
        rw [if_pos (by simpa using hhex)]
      rw [hstep, filter_cons_of_neg hhex]
      exact deleteIds_spec ev ids h

theorem Indexed.removedAt (h : s.Indexed) (a : Address) (p : Event → Prop) [DecidablePred p] :
    Cleared s (fun e => addressOf e = some a ∧ p e)
      (match s.current a with
        | some old => if p old then s.remove old.id else s
        | none => s) := by
  cases hcur : s.current a with
  | none =>
    refine Cleared.nothing h (fun e he hp => ?_)
    rw [h.current_eq_some.2 ⟨he, hp.1⟩] at hcur
    cases hcur
  | some old =>
    obtain ⟨hold, haddr⟩ := h.current_eq_some.1 hcur
    simp only
    by_cases hp : p old
    · rw [if_pos hp]
      refine ⟨h.remove old.id, fun x e => ?_, (h.removed _).maxEvents, (h.removed _).persistent⟩
      rw [(h.removed old.id).events]
      refine and_congr_right (fun he => not_congr ⟨fun hid => ?_, fun hpe => ?_⟩)
      · have hx := h.keyed x e he
        rw [← hx, hid, hold] at he
        cases he
        exact ⟨haddr, hp⟩
      · have hx := h.keyed x e he
        subst hx
        rw [h.address_inj he hold hpe.1 haddr]
    · rw [if_neg hp]
      refine Cleared.nothing h (fun e he hpe => hp ?_)
      rw [← h.address_inj he hold hpe.1 haddr]
      exact hpe.2

def raise (f : Fifo Address Nat) (address : Address) (time cap : Nat) : Fifo Address Nat :=
  f.insert address (max ((f.values.get address).getD 0) time) cap

def targetsOf (pubkey : String) (values : List String) : List Address :=
  (values.filterMap parseAddress).filter (fun a => decide (a.2.1 = pubkey))

/-- **Each `a` tag deletes the version at one of the author's addresses**, up to the time of the request. -/
theorem deleteAddresses_spec (ev : Event) : ∀ (values : List String) {s : Store}, s.Indexed →
    Cleared s (fun e => ∃ a ∈ targetsOf ev.pubkey values, addressOf e = some a ∧ e.createdAt ≤ ev.createdAt)
      (values.foldl (fun s value => s.deleteAddress ev value) s) ∧
    (values.foldl (fun s value => s.deleteAddress ev value) s).deletedIds = s.deletedIds ∧
    (values.foldl (fun s value => s.deleteAddress ev value) s).deletedAddresses = (targetsOf ev.pubkey values).foldl
      (fun f a => raise f a ev.createdAt s.maxEvents) s.deletedAddresses
  | [], s, h => ⟨Cleared.nothing h (fun e _ ⟨a, ha, _⟩ => not_mem_nil ha), rfl, rfl⟩
  | value :: values, s, h => by
    rw [foldl_cons]
    have hskip : (∀ a, parseAddress value = some a → a.2.1 ≠ ev.pubkey) → s.deleteAddress ev value = s ∧
        targetsOf ev.pubkey (value :: values) = targetsOf ev.pubkey values := by
      intro hne
      unfold deleteAddress targetsOf
      cases hparse : parseAddress value with
      | none => exact ⟨rfl, by rw [filterMap_cons_none hparse]⟩
      | some a =>
        refine ⟨by simp only [if_pos (hne a hparse)], ?_⟩
        rw [filterMap_cons_some hparse, filter_cons_of_neg (by simpa using hne a hparse)]
    by_cases hmine : ∃ a, parseAddress value = some a ∧ a.2.1 = ev.pubkey
    · obtain ⟨a, hparse, hkey⟩ := hmine
      have htargets : targetsOf ev.pubkey (value :: values) = a :: targetsOf ev.pubkey values := by
        unfold targetsOf
        rw [filterMap_cons_some hparse, filter_cons_of_pos (by simpa using hkey)]
      have hrem := h.removedAt a (fun e => e.createdAt ≤ ev.createdAt)
      have htables : ∀ s₁ : Store, (match s.current a with
          | some old => if old.createdAt ≤ ev.createdAt then s.remove old.id else s
          | none => s) = s₁ → s₁.deletedIds = s.deletedIds ∧ s₁.deletedAddresses = s.deletedAddresses := by
        rintro _ rfl
        split
        · split
          · exact ⟨(remove_removed s _).deletedIds, (remove_removed s _).deletedAddresses⟩
          · exact ⟨rfl, rfl⟩
        · exact ⟨rfl, rfl⟩
      have hstep : s.deleteAddress ev value = { (match s.current a with
              | some old => if old.createdAt ≤ ev.createdAt then s.remove old.id else s
              | none => s) with
            deletedAddresses := raise s.deletedAddresses a ev.createdAt s.maxEvents } := by
        obtain ⟨-, haddrs⟩ := htables _ rfl
        unfold deleteAddress raise
        rw [hparse]
        simp only [hkey, ne_eq, not_true_eq_false, if_false]
        rw [haddrs, hrem.maxEvents]
      obtain ⟨hids₁, -⟩ := htables _ rfl
      generalize (match s.current a with
          | some old => if old.createdAt ≤ ev.createdAt then s.remove old.id else s
          | none => s) = s₁ at hstep hrem hids₁
      obtain ⟨hc, hids, haddrs⟩ := deleteAddresses_spec ev values (hrem.indexed.tables s₁.deletedIds
        (raise s.deletedAddresses a ev.createdAt s.maxEvents))
      rw [hstep, htargets, foldl_cons]
      refine ⟨?_, hids.trans hids₁, ?_⟩
      · have hmid : Cleared s (fun e => addressOf e = some a ∧ e.createdAt ≤ ev.createdAt)
            { s₁ with deletedAddresses := raise s.deletedAddresses a ev.createdAt s.maxEvents } :=
          ⟨hrem.indexed.tables _ _, hrem.events, hrem.maxEvents, hrem.persistent⟩
        refine (hmid.trans hc).congr (fun e => ?_)
        simp only [mem_cons, exists_eq_or_imp]
      · rw [haddrs]
        simp only [hrem.maxEvents]
    · obtain ⟨hstep, htargets⟩ := hskip (fun a hparse hkey => hmine ⟨a, hparse, hkey⟩)
      rw [hstep, htargets]
      exact deleteAddresses_spec ev values h

theorem request_spec (h : s.Indexed) (ev : Event) : Cleared s (fun e => ev.kind = 5 ∧ ev.Deletes e) (s.request ev) ∧
    (s.request ev).deletedIds = (if ev.kind = 5 then ev.names.foldl
      (fun f id => f.insert (id, ev.pubkey) () s.maxEvents) s.deletedIds else s.deletedIds) ∧
    (s.request ev).deletedAddresses = (if ev.kind = 5 then ev.targets.foldl
      (fun f a => raise f a ev.createdAt s.maxEvents) s.deletedAddresses else s.deletedAddresses) := by
  unfold request
  by_cases hk : ev.kind = 5
  · simp only [if_pos hk]
    obtain ⟨hc, hids, haddrs⟩ := deleteIds_spec ev (ev.tagValues "e") h
    obtain ⟨hc', hids', haddrs'⟩ := deleteAddresses_spec ev (ev.tagValues "a") hc.indexed
    refine ⟨(hc.trans hc').congr (fun e => ?_), hids'.trans hids, ?_⟩
    · rw [and_iff_right hk]
      rfl
    · rw [haddrs] at haddrs'
      rw [deleteRequested, haddrs', hc.maxEvents]
      rfl
  · simp only [if_neg hk]
    exact ⟨Cleared.nothing h (fun e _ hp => hk hp.1), trivial, trivial⟩

/-! ## Tables of deletions -/

section Tables

variable {cap : Nat}

theorem get_foldl_ids {pubkey : String} : ∀ (ids : List String) {f : Fifo (String × String) Unit} {k : String × String},
    (ids.foldl (fun f id => f.insert (id, pubkey) () cap) f).values.get k = some () →
    (k.1 ∈ ids ∧ k.2 = pubkey) ∨ f.values.get k = some ()
  | [], _, _, h => Or.inr h
  | id :: ids, f, k, h => by
    rcases get_foldl_ids ids h with ⟨h1, h2⟩ | h
    · exact Or.inl ⟨mem_cons_of_mem _ h1, h2⟩
    · rcases Fifo.get_insert_cases h with ⟨rfl, -⟩ | h
      · exact Or.inl ⟨mem_cons_self, rfl⟩
      · exact Or.inr h

theorem get_foldl_ids_room {pubkey : String} : ∀ (ids : List String) {f : Fifo (String × String) Unit},
    (f.values.keys ∪ (ids.map (fun id => (id, pubkey))).toFinset).card ≤ cap → ∀ k : String × String,
    ((k.1 ∈ ids ∧ k.2 = pubkey) ∨ f.values.get k = some ()) →
    (ids.foldl (fun f id => f.insert (id, pubkey) () cap) f).values.get k = some ()
  | [], _, _, _, h => h.resolve_left (fun h => not_mem_nil h.1)
  | id :: ids, f, hroom, k, h => by
    have hone : (Insert.insert (id, pubkey) f.values.keys).card ≤ cap := by
      refine (Finset.card_le_card ?_).trans hroom
      intro x hx
      rw [Finset.mem_insert] at hx
      rw [Finset.mem_union, map_cons, toFinset_cons, Finset.mem_insert]
      exact hx.elim (fun h => Or.inr (Or.inl h)) Or.inl
    have hvalues : (f.insert (id, pubkey) () cap).values = f.values.insert (id, pubkey) () := Fifo.insert_values hone
    refine get_foldl_ids_room ids ?_ k ?_
    · refine (Finset.card_le_card ?_).trans hroom
      intro x hx
      rw [hvalues, keys_insert, Finset.mem_union, Finset.mem_insert] at hx
      rw [Finset.mem_union, map_cons, toFinset_cons, Finset.mem_insert]
      tauto
    · rw [hvalues, get_insert]
      by_cases hk : k = (id, pubkey)
      · rw [if_pos hk]
        exact Or.inr rfl
      · rw [if_neg hk]
        rcases h with ⟨h1, h2⟩ | h
        · rcases mem_cons.1 h1 with h1 | h1
          · exact absurd (Prod.ext h1 h2) hk
          · exact Or.inl ⟨h1, h2⟩
        · exact Or.inr h

theorem get_foldl_raise {time : Nat} : ∀ (targets : List Address) {f : Fifo Address Nat} {a : Address} {t : Nat},
    (targets.foldl (fun f a => raise f a time cap) f).values.get a = some t →
    (a ∈ targets ∧ t = time) ∨ f.values.get a = some t
  | [], _, _, _, h => Or.inr h
  | b :: targets, f, a, t, h => by
    rcases get_foldl_raise targets h with ⟨h1, h2⟩ | h
    · exact Or.inl ⟨mem_cons_of_mem _ h1, h2⟩
    · rcases Fifo.get_insert_cases h with ⟨rfl, ht⟩ | h
      · rcases le_total ((f.values.get a).getD 0) time with hle | hle
        · rw [max_eq_right hle] at ht
          exact Or.inl ⟨mem_cons_self, ht⟩
        · rw [max_eq_left hle] at ht
          cases hg : f.values.get a with
          | none =>
            rw [hg] at hle ht
            exact Or.inl ⟨mem_cons_self, by rw [ht]; exact (Nat.le_zero.1 hle).symm⟩
          | some t' =>
            rw [hg] at ht
            exact Or.inr (by rw [ht]; rfl)
      · exact Or.inr h

/-- **With room, a request raises the times of all its addresses**, and lowers or drops none. -/
theorem get_foldl_raise_room (time : Nat) : ∀ (targets : List Address) {f : Fifo Address Nat},
    (f.values.keys ∪ targets.toFinset).card ≤ cap → ∀ a : Address,
    (a ∈ targets → ∃ t, (targets.foldl (fun f a => raise f a time cap) f).values.get a = some t ∧ time ≤ t) ∧
    ∀ t, f.values.get a = some t → ∃ t', (targets.foldl (fun f a => raise f a time cap) f).values.get a = some t' ∧ t ≤ t'
  | [], _, _, _ => ⟨nofun, fun t h => ⟨t, h, le_rfl⟩⟩
  | b :: targets, f, hroom, a => by
    have hone : (Insert.insert b f.values.keys).card ≤ cap := by
      refine (Finset.card_le_card ?_).trans hroom
      intro x hx
      rw [Finset.mem_insert] at hx
      rw [Finset.mem_union, toFinset_cons, Finset.mem_insert]
      exact hx.elim (fun h => Or.inr (Or.inl h)) Or.inl
    have hvalues : (raise f b time cap).values = f.values.insert b (max ((f.values.get b).getD 0) time) := Fifo.insert_values hone
    have hrest : ((raise f b time cap).values.keys ∪ targets.toFinset).card ≤ cap := by
      refine (Finset.card_le_card ?_).trans hroom
      intro x hx
      rw [hvalues, keys_insert, Finset.mem_union, Finset.mem_insert] at hx
      rw [Finset.mem_union, toFinset_cons, Finset.mem_insert]
      tauto
    obtain ⟨hnew, hold⟩ := get_foldl_raise_room time targets hrest a
    have hget : (raise f b time cap).values.get a = if a = b then some (max ((f.values.get b).getD 0) time) else f.values.get a := by
      rw [hvalues, get_insert]
    refine ⟨fun ha => ?_, fun t ht => ?_⟩
    · by_cases hab : a = b
      · rw [if_pos hab] at hget
        obtain ⟨t', h1, h2⟩ := hold _ hget
        exact ⟨t', h1, le_trans (le_max_right _ _) h2⟩
      · exact hnew ((mem_cons.1 ha).resolve_left hab)
    · by_cases hab : a = b
      · subst hab
        rw [if_pos rfl, ht] at hget
        obtain ⟨t', h1, h2⟩ := hold _ hget
        exact ⟨t', h1, le_trans (le_max_left _ _) h2⟩
      · rw [if_neg hab] at hget
        exact hold t (hget.trans ht)

end Tables

/-! ## Insertion -/

theorem vacate_spec (h : s.Indexed) (ev : Event) :
    Cleared s (fun e => ∃ a, addressOf ev = some a ∧ addressOf e = some a) (s.vacate ev) ∧
    (s.vacate ev).deletedIds = s.deletedIds ∧ (s.vacate ev).deletedAddresses = s.deletedAddresses := by
  unfold vacate
  cases ha : addressOf ev with
  | none => exact ⟨Cleared.nothing h (fun e _ ⟨a, h1, _⟩ => by cases h1), rfl, rfl⟩
  | some a =>
    have hrem := h.removedAt a (fun _ => True)
    rw [bind_some]
    cases hcur : s.current a with
    | none =>
      simp only [hcur] at hrem ⊢
      exact ⟨hrem.congr (fun e => by simp), trivial, trivial⟩
    | some old =>
      simp only [hcur] at hrem ⊢
      exact ⟨hrem.congr (fun e => by simp), (remove_removed s _).deletedIds, (remove_removed s _).deletedAddresses⟩

variable {ev : Event}

theorem put_spec (h : s.Indexed) (hid : s.events.get ev.id = none)
    (haddr : ∀ e a, s.events.get e.id = some e → addressOf ev = some a → addressOf e ≠ some a)
    (hclass : ev.kindClass ≠ .ephemeral) :
    (s.put ev).Indexed ∧ (s.put ev).events = s.events.insert ev.id ev ∧ (s.put ev).deletedIds = s.deletedIds ∧
    (s.put ev).deletedAddresses = s.deletedAddresses ∧ (s.put ev).maxEvents = s.maxEvents ∧
    (s.put ev).persistent = s.persistent := by
  have hget : ∀ id e, (s.events.insert ev.id ev).get id = some e → (id = ev.id ∧ e = ev) ∨ (id ≠ ev.id ∧ s.events.get id = some e) := by
    intro id e he
    rcases of_get_insert he with ⟨hx, rfl⟩ | ⟨hx, he⟩
    · exact Or.inl ⟨hx, rfl⟩
    · exact Or.inr ⟨hx, he⟩
  have hkeep : ∀ id e, s.events.get id = some e → (s.events.insert ev.id ev).get id = some e := by
    intro id e he
    rw [get_insert_ne, he]
    rintro rfl
    rw [hid] at he
    cases he
  have hkeyed : ∀ id e, (s.events.insert ev.id ev).get id = some e → e.id = id := by
    intro id e he
    rcases hget id e he with ⟨rfl, rfl⟩ | ⟨-, he⟩
    · rfl
    · exact h.keyed id e he
  have htimes : ∀ k, k ∈ Ordered.place (timeKey ev) s.byTime ↔ ∃ e, (s.events.insert ev.id ev).get e.id = some e ∧ timeKey e = k := by
    intro k
    rw [Ordered.mem_place, h.times]
    constructor
    · rintro (rfl | ⟨e, he, rfl⟩)
      · exact ⟨ev, get_insert_self _ _ _, rfl⟩
      · exact ⟨e, hkeep _ e he, rfl⟩
    · rintro ⟨e, he, rfl⟩
      rcases hget e.id e he with ⟨-, rfl⟩ | ⟨-, he⟩
      · exact Or.inl rfl
      · exact Or.inr ⟨e, he, rfl⟩
  have hlasting : ∀ id e, (s.events.insert ev.id ev).get id = some e → e.kindClass ≠ .ephemeral := by
    intro id e he
    rcases hget id e he with ⟨-, rfl⟩ | ⟨-, he⟩
    · exact hclass
    · exact h.lasting id e he
  unfold put
  cases ha : addressOf ev with
  | none =>
    have hrec := record_same { s with byTime := Ordered.place (timeKey ev) s.byTime, events := s.events.insert ev.id ev }
      (.ev ev)
    refine ⟨Indexed.congr ⟨hkeyed, Ordered.place_ascending _ h.ascending, htimes, fun a id hheld => ?_,
      fun id e a he hae => ?_, hlasting⟩ hrec, hrec.events, hrec.deletedIds, hrec.deletedAddresses, hrec.maxEvents,
      hrec.persistent⟩
    · obtain ⟨e, he, hae⟩ := h.held a id hheld
      exact ⟨e, hkeep id e he, hae⟩
    · rcases hget id e he with ⟨rfl, rfl⟩ | ⟨-, he⟩
      · rw [ha] at hae
        cases hae
      · exact h.addressed id e a he hae
  | some a₀ =>
    have hrec := record_same { s with byTime := Ordered.place (timeKey ev) s.byTime, addresses := s.addresses.insert a₀ ev.id,
                                      events := s.events.insert ev.id ev } (.ev ev)
    refine ⟨Indexed.congr ⟨hkeyed, Ordered.place_ascending _ h.ascending, htimes, fun a id hheld => ?_,
      fun id e a he hae => ?_, hlasting⟩ hrec, hrec.events, hrec.deletedIds, hrec.deletedAddresses, hrec.maxEvents,
      hrec.persistent⟩
    · rcases of_get_insert hheld with ⟨hx, rfl⟩ | ⟨-, hheld⟩
      · exact ⟨ev, get_insert_self _ _ _, hx ▸ ha⟩
      · obtain ⟨e, he, hae⟩ := h.held a id hheld
        exact ⟨e, hkeep id e he, hae⟩
    · simp only [get_insert]
      rcases hget id e he with ⟨rfl, rfl⟩ | ⟨-, hin⟩
      · rw [ha] at hae
        cases hae
        rw [if_pos rfl]
      · have hx := h.keyed id e hin
        rw [if_neg, h.addressed id e a hin hae]
        rintro rfl
        subst hx
        exact haddr e a hin ha hae

theorem Indexed.oldest (h : s.Indexed) (hlen : 0 < s.len) : ∃ e, s.byTime.head? = some (timeKey e) ∧ s.events.get e.id = some e := by
  cases hhead : s.byTime.head? with
  | none =>
    rw [head?_eq_none_iff] at hhead
    have hempty : s.events = ∅ := by
      rw [eq_empty_iff]
      intro id
      cases he : s.events.get id with
      | none => rfl
      | some e =>
        have hid := h.keyed id e he
        subst hid
        have := (h.times _).2 ⟨e, he, rfl⟩
        rw [hhead] at this
        cases this
    rw [len, hempty] at hlen
    cases hlen
  | some k =>
    obtain ⟨l, hl⟩ := head?_eq_some_iff.1 hhead
    obtain ⟨e, he, rfl⟩ := (h.times k).1 (hl ▸ mem_cons_self)
    exact ⟨e, rfl, he⟩

theorem len_remove {id : String} {e : Event} (he : s.events.get id = some e) : (s.remove id).len + 1 = s.len := by
  rw [len, (remove_removed s id).events, size_erase he, len]

theorem evict_of_le (hle : s.len ≤ s.maxEvents) : ∀ fuel, evict fuel s = s
  | 0 => rfl
  | fuel + 1 => by rw [evict, if_neg (not_lt.2 hle)]

theorem evict_spec (h : s.Indexed) (hover : s.len ≤ s.maxEvents + 1) : (s.len ≤ s.maxEvents ∧ evict s.len s = s) ∨
    (s.len = s.maxEvents + 1 ∧ ∃ e, s.byTime.head? = some (timeKey e) ∧ s.events.get e.id = some e ∧
      evict s.len s = s.remove e.id) := by
  by_cases hle : s.len ≤ s.maxEvents
  · exact Or.inl ⟨hle, evict_of_le hle _⟩
  · have hlen : s.len = s.maxEvents + 1 := by omega
    obtain ⟨e, hhead, he⟩ := h.oldest (by omega)
    refine Or.inr ⟨hlen, e, hhead, he, ?_⟩
    have hrem := len_remove he
    rw [hlen, evict, if_pos (by omega), hhead]
    refine evict_of_le ?_ _
    rw [(remove_removed s _).maxEvents]
    show (s.remove e.id).len ≤ s.maxEvents
    omega

structure Welcome (s : Store) (ev : Event) : Prop where
  new : s.events.get ev.id = none
  lasting : ev.kindClass ≠ .ephemeral
  kept : ev.kind ≠ 5 → s.deletedIds.values.get (ev.id, ev.pubkey) = none
  later : ∀ a time, addressOf ev = some a → s.deletedAddresses.values.get a = some time → time < ev.createdAt
  better : ∀ a old, addressOf ev = some a → s.current a = some old →
    old.createdAt < ev.createdAt ∨ (old.createdAt = ev.createdAt ∧ ev.id ≤ old.id)

theorem outcome_stored_iff : s.outcome ev = .stored ↔ s.Welcome ev := by
  unfold outcome contains
  constructor
  · intro h
    split at h
    · cases h
    rename_i hnew
    split at h
    · cases h
    rename_i hclass
    split at h
    · cases h
    rename_i hkept
    have hnone : s.events.get ev.id = none := contains_eq_false.1 (by simpa using hnew)
    have hfree : ev.kind ≠ 5 → s.deletedIds.values.get (ev.id, ev.pubkey) = none := by
      intro hk
      refine contains_eq_false.1 ?_
      by_contra hc
      exact hkept ⟨hk, by simpa using hc⟩
    cases ha : addressOf ev with
    | none =>
      refine ⟨hnone, hclass, hfree, fun a time h1 => ?_, fun a old h1 => ?_⟩
      · rw [ha] at h1
        cases h1
      · rw [ha] at h1
        cases h1
    | some a =>
      rw [ha] at h
      simp only at h
      split at h
      · cases h
      rename_i htime
      have hlater : ∀ time, s.deletedAddresses.values.get a = some time → time < ev.createdAt := by
        intro time ht
        rw [ht, any_some, decide_eq_true_eq, not_le] at htime
        exact htime
      refine ⟨hnone, hclass, hfree, fun b time h1 ht => ?_, fun b old h1 hold => ?_⟩
      · rw [ha] at h1
        cases h1
        exact hlater time ht
      · rw [ha] at h1
        cases h1
        rw [hold] at h
        simp only at h
        split at h
        · cases h
        rename_i hworse
        rw [not_or, not_and, not_lt] at hworse
        rcases lt_or_eq_of_le hworse.1 with hlt | heq
        · exact Or.inl hlt
        · exact Or.inr ⟨heq, hworse.2 heq⟩
  · intro h
    have hnew : ¬s.events.contains ev.id = true := by rw [contains_eq_false.2 h.new]; decide
    have hkept : ¬(ev.kind ≠ 5 ∧ s.deletedIds.values.contains (ev.id, ev.pubkey) = true) := by
      rintro ⟨hk, hc⟩
      rw [contains_eq_false.2 (h.kept hk)] at hc
      cases hc
    rw [if_neg hnew, if_neg h.lasting, if_neg hkept]
    cases ha : addressOf ev with
    | none => rfl
    | some a =>
      have htime : ¬(s.deletedAddresses.values.get a).any (fun time => decide (ev.createdAt ≤ time)) = true := by
        intro hany
        obtain ⟨time, ht, hle⟩ := (Option.any_eq_true _ _).1 hany
        rw [decide_eq_true_eq] at hle
        exact absurd (h.later a time ha ht) (not_lt.2 hle)
      simp only
      rw [if_neg htime]
      cases hcur : s.current a with
      | none => rfl
      | some old =>
        simp only
        rw [if_neg]
        rcases h.better a old ha hcur with hlt | ⟨heq, hle⟩
        · rintro (hlt' | ⟨heq, -⟩)
          · omega
          · omega
        · rintro (hlt | ⟨-, hlt⟩)
          · omega
          · exact absurd hlt (not_lt.2 hle)

def grown (s : Store) (ev : Event) : Store := ((s.vacate ev).request ev).put ev

theorem insert_of_welcome (h : s.Welcome ev) : s.insert ev = (evict (s.grown ev).len (s.grown ev), .stored) := by
  rw [insert, outcome_stored_iff.2 h]
  rfl

theorem insert_of_not_welcome (h : ¬s.Welcome ev) : (s.insert ev).1 = s := by
  rw [← outcome_stored_iff] at h
  unfold insert
  split
  · rename_i ho
    exact absurd ho h
  · rfl

/-- What an event that is let in leaves, before the capacity is looked at. -/
structure Grown (s : Store) (ev : Event) (g : Store) : Prop where
  indexed : g.Indexed
  events : ∀ id e, g.events.get id = some e ↔ (id = ev.id ∧ e = ev) ∨ (s.events.get id = some e ∧ ¬ev.Displaces e)
  deletedIds : g.deletedIds = if ev.kind = 5 then ev.names.foldl
    (fun f id => f.insert (id, ev.pubkey) () s.maxEvents) s.deletedIds else s.deletedIds
  deletedAddresses : g.deletedAddresses = if ev.kind = 5 then ev.targets.foldl
    (fun f a => raise f a ev.createdAt s.maxEvents) s.deletedAddresses else s.deletedAddresses
  maxEvents : g.maxEvents = s.maxEvents
  persistent : g.persistent = s.persistent
  len : g.len ≤ s.len + 1

theorem grown_spec (h : s.Indexed) (hw : s.Welcome ev) : Grown s ev (s.grown ev) := by
  obtain ⟨hv, hvids, hvaddrs⟩ := vacate_spec h ev
  obtain ⟨hr, hrids, hraddrs⟩ := request_spec hv.indexed ev
  have hall : Cleared s ev.Displaces ((s.vacate ev).request ev) := hv.trans hr
  have hid : ((s.vacate ev).request ev).events.get ev.id = none := by
    cases he : ((s.vacate ev).request ev).events.get ev.id with
    | none => rfl
    | some e =>
      have := ((hall.events _ _).1 he).1
      rw [hw.new] at this
      cases this
  have haddr : ∀ e a, ((s.vacate ev).request ev).events.get e.id = some e → addressOf ev = some a →
      addressOf e ≠ some a := fun e a he ha hae => ((hall.events _ _).1 he).2 (Or.inl ⟨a, ha, hae⟩)
  obtain ⟨hi, hevents, hids, haddrs, hmax, hpers⟩ := put_spec hall.indexed hid haddr hw.lasting
  refine ⟨hi, fun id e => ?_, ?_, ?_, hmax.trans hall.maxEvents, hpers.trans hall.persistent, ?_⟩
  · show (((s.vacate ev).request ev).put ev).events.get id = some e ↔ _
    rw [hevents, get_insert]
    split
    · rename_i hx
      rw [hx, hw.new]
      constructor
      · intro he
        cases he
        exact Or.inl ⟨rfl, rfl⟩
      · rintro (⟨-, rfl⟩ | ⟨he, -⟩)
        · rfl
        · cases he
    · rename_i hx
      rw [hall.events]
      constructor
      · exact Or.inr
      · rintro (⟨he, -⟩ | he)
        · exact absurd he hx
        · exact he
  · show (((s.vacate ev).request ev).put ev).deletedIds = _
    rw [hids, hrids, hvids, hv.maxEvents]
  · show (((s.vacate ev).request ev).put ev).deletedAddresses = _
    rw [haddrs, hraddrs, hvaddrs, hv.maxEvents]
  · show (((s.vacate ev).request ev).put ev).len ≤ _
    rw [len, hevents, size_insert hid]
    refine Nat.succ_le_succ (size_le_of_keys (fun id e he => ?_))
    rw [((hall.events _ _).1 he).1]
    exact some_ne_none e

/-- **What an insertion does**: nothing to an event that is refused; else the event is let in, and the oldest event goes
where one is past the capacity. -/
theorem insert_cases (h : s.Indexed) (hlen : s.len ≤ s.maxEvents) (ev : Event) : (¬s.Welcome ev ∧ (s.insert ev).1 = s) ∨
    (s.Welcome ev ∧ Grown s ev (s.grown ev) ∧ (((s.grown ev).len ≤ s.maxEvents ∧ (s.insert ev).1 = s.grown ev) ∨
       ((s.grown ev).len = s.maxEvents + 1 ∧ ∃ e, (s.grown ev).byTime.head? = some (timeKey e) ∧
         (s.grown ev).events.get e.id = some e ∧ (s.insert ev).1 = (s.grown ev).remove e.id))) := by
  by_cases hw : s.Welcome ev
  · have hg := grown_spec h hw
    refine Or.inr ⟨hw, hg, ?_⟩
    have hover : (s.grown ev).len ≤ (s.grown ev).maxEvents + 1 := by
      have := hg.len
      rw [hg.maxEvents]
      omega
    rw [insert_of_welcome hw, ← hg.maxEvents]
    exact evict_spec hg.indexed hover
  · exact Or.inl ⟨hw, insert_of_not_welcome hw⟩

/-- A store whose indexes are right and which is within its capacity. -/
structure Sound (s : Store) : Prop where
  indexed : s.Indexed
  len : s.len ≤ s.maxEvents

theorem Sound.fresh (maxEvents : Nat) (persistent : Bool) : (fresh maxEvents persistent).Sound :=
  ⟨Indexed.fresh maxEvents persistent, Nat.zero_le _⟩

theorem Sound.insert (h : s.Sound) (ev : Event) : (s.insert ev).1.Sound ∧ (s.insert ev).1.maxEvents = s.maxEvents := by
  rcases insert_cases h.indexed h.len ev with ⟨-, he⟩ | ⟨-, hg, ⟨hle, he⟩ | ⟨hlen, e, -, hold, he⟩⟩
  · rw [he]
    exact ⟨h, rfl⟩
  · rw [he]
    exact ⟨⟨hg.indexed, by rw [hg.maxEvents]; exact hle⟩, hg.maxEvents⟩
  · rw [he]
    have hrem := hg.indexed.removed e.id
    have hl := len_remove hold
    refine ⟨⟨hrem.indexed, ?_⟩, hrem.maxEvents.trans hg.maxEvents⟩
    rw [hrem.maxEvents, hg.maxEvents]
    omega

end Store
end Mistl.Nostr
