import Mistl.NostrStore
/-!
# NostrTables — what holds of a store after any insertions

The bounded tables of deletions have the same keys in their map and in their queue; with the indexes of `Store.Indexed`
this is the whole representation of a store, and insertions keep it.
-/
open List

namespace Mistl.Nostr

/-! ## Bounded tables -/

/-- A table whose queue has each key of its map once, up to a capacity. -/
structure Fifo.Sound {κ ν : Type} [DecidableEq κ] (f : Fifo κ ν) (cap : Nat) : Prop where
  nodup : f.order.Nodup
  keys : ∀ k, k ∈ f.order ↔ ∃ v, f.values.get k = some v
  length : f.order.length ≤ cap

namespace Fifo.Sound

variable {κ ν : Type} [DecidableEq κ] {f : Fifo κ ν} {cap : Nat}

theorem new : (Fifo.new : Fifo κ ν).Sound cap := ⟨nodup_nil, fun _ => ⟨nofun, fun ⟨_, h⟩ => (by cases h)⟩, Nat.zero_le _⟩

theorem size (h : f.Sound cap) : f.values.size = f.order.length := by
  have hkeys : f.values.keys = f.order.toFinset := by
    ext k
    rw [Table.mem_keys, mem_toFinset, h.keys, Option.ne_none_iff_exists']
  rw [← Table.card_keys, hkeys, toFinset_card_of_nodup h.nodup]

theorem push (h : f.Sound cap) {key : κ} (hkey : key ∉ f.order) (value : ν) (hroom : f.order.length < cap) :
    (⟨f.values.insert key value, f.order ++ [key]⟩ : Fifo κ ν).Sound cap := by
  refine ⟨?_, fun k => ?_, ?_⟩
  · refine nodup_append.2 ⟨h.nodup, nodup_singleton _, fun a ha b hb => ?_⟩
    rw [mem_singleton.1 hb]
    rintro rfl
    exact hkey ha
  · rw [Table.get_insert, mem_append, mem_singleton, h.keys]
    by_cases hk : k = key
    · rw [if_pos hk]
      exact iff_of_true (Or.inr hk) ⟨value, rfl⟩
    · rw [if_neg hk]
      exact or_iff_left hk
  · rw [length_append]
    exact hroom

theorem pop {old : κ} {order : List κ} (h : f.Sound cap) (horder : f.order = old :: order) :
    (⟨f.values.erase old, order⟩ : Fifo κ ν).Sound cap ∧ order.length < cap := by
  have hnodup := h.nodup
  have hlength := h.length
  rw [horder] at hnodup hlength
  obtain ⟨hold, hrest⟩ := nodup_cons.1 hnodup
  refine ⟨⟨hrest, fun k => ?_, Nat.le_of_succ_le hlength⟩, hlength⟩
  have hk := h.keys k
  rw [horder, mem_cons] at hk
  rw [Table.get_erase]
  by_cases he : k = old
  · subst he
    rw [if_pos rfl]
    exact ⟨fun hmem => absurd hmem hold, fun ⟨_, hnone⟩ => (by cases hnone)⟩
  · rw [if_neg he, ← hk]
    exact (or_iff_right he).symm

theorem insert (h : f.Sound cap) (key : κ) (value : ν) : (f.insert key value cap).Sound cap := by
  unfold Fifo.insert
  split
  · rename_i hc
    obtain ⟨old, hold⟩ := Table.contains_iff.1 hc
    refine ⟨h.nodup, fun k => ?_, h.length⟩
    rw [h.keys, Table.get_insert]
    by_cases hk : k = key
    · rw [if_pos hk, hk]
      exact iff_of_true ⟨old, hold⟩ ⟨value, rfl⟩
    · rw [if_neg hk]
  · rename_i hc
    have hkey : key ∉ f.order := by
      rw [h.keys]
      exact fun hv => hc (Table.contains_iff.2 hv)
    split
    · exact h
    · rename_i hcap
      split
      · rename_i hroom
        exact h.push hkey value (h.size ▸ hroom)
      · rename_i hfull
        split
        · rename_i hnil
          rw [h.size, hnil] at hfull
          exact absurd (Nat.pos_of_ne_zero hcap) hfull
        · rename_i old order horder
          obtain ⟨hpop, hroom⟩ := h.pop horder
          refine hpop.push (fun hmem => hkey ?_) value hroom
          rw [horder]
          exact mem_cons_of_mem _ hmem

theorem insertEach {α : Type} (key : α → κ) (value : Fifo κ ν → α → ν) : ∀ (l : List α) {f : Fifo κ ν}, f.Sound cap →
    (l.foldl (fun f x => f.insert (key x) (value f x) cap) f).Sound cap
  | [], _, h => h
  | x :: l, _, h => insertEach key value l (h.insert (key x) _)

end Fifo.Sound

/-! ## The store -/

namespace Store

/-- **The representation of a store**: what is in its indexes and its tables. -/
structure Consistent (s : Store) : Prop where
  ascending : s.byTime.Pairwise (· < ·)
  times : ∀ createdAt id, toLex (createdAt, id) ∈ s.byTime ↔ ∃ e, s.events.get id = some e ∧ e.id = id ∧ e.createdAt = createdAt
  single : ∀ e e' a, s.events.get e.id = some e → s.events.get e'.id = some e' → addressOf e = some a → addressOf e' = some a → e = e'
  addresses : ∀ a id, s.addresses.get a = some id ↔ ∃ e, s.events.get id = some e ∧ addressOf e = some a
  len : s.len ≤ s.maxEvents
  deletedIds : s.deletedIds.Sound s.maxEvents
  deletedAddresses : s.deletedAddresses.Sound s.maxEvents

structure Tabled (s : Store) : Prop where
  deletedIds : s.deletedIds.Sound s.maxEvents
  deletedAddresses : s.deletedAddresses.Sound s.maxEvents

variable {s s' : Store}

theorem Tabled.congr (h : s.Tabled) (hids : s'.deletedIds = s.deletedIds) (haddresses : s'.deletedAddresses = s.deletedAddresses)
    (hmax : s'.maxEvents = s.maxEvents) : s'.Tabled :=
  ⟨by rw [hids, hmax]; exact h.deletedIds, by rw [haddresses, hmax]; exact h.deletedAddresses⟩

theorem Tabled.grown (h : s.Tabled) {ev : Event} {g : Store} (hg : Grown s ev g) : g.Tabled := by
  constructor
  · rw [hg.deletedIds, hg.maxEvents]
    split
    · exact Fifo.Sound.insertEach (fun id => (id, ev.pubkey)) (fun _ _ => ()) ev.names h.deletedIds
    · exact h.deletedIds
  · rw [hg.deletedAddresses, hg.maxEvents]
    split
    · exact Fifo.Sound.insertEach id (fun f a => max ((f.values.get a).getD 0) ev.createdAt) ev.targets h.deletedAddresses
    · exact h.deletedAddresses

theorem Tabled.insert (h : s.Tabled) (hs : s.Sound) (ev : Event) : (s.insert ev).1.Tabled := by
  rcases insert_cases hs.indexed hs.len ev with ⟨-, he⟩ | ⟨-, hg, ⟨-, he⟩ | ⟨-, e, -, -, he⟩⟩
  · rw [he]
    exact h
  · rw [he]
    exact h.grown hg
  · rw [he]
    have hrem := remove_removed (s.grown ev) e.id
    exact (h.grown hg).congr hrem.deletedIds hrem.deletedAddresses hrem.maxEvents

theorem Sound.consistent (hs : s.Sound) (ht : s.Tabled) : s.Consistent where
  ascending := hs.indexed.ascending
  times createdAt id := by
    rw [hs.indexed.times]
    constructor
    · rintro ⟨e, he, hkey⟩
      obtain ⟨rfl, rfl⟩ := Prod.mk.inj (toLex.injective hkey)
      exact ⟨e, he, rfl, rfl⟩
    · rintro ⟨e, he, rfl, rfl⟩
      exact ⟨e, he, rfl⟩
  single _ _ _ he he' ha ha' := hs.indexed.address_inj he he' ha ha'
  addresses a id := by
    constructor
    · exact hs.indexed.held a id
    · rintro ⟨e, he, ha⟩
      exact hs.indexed.addressed id e a he ha
  len := hs.len
  deletedIds := ht.deletedIds
  deletedAddresses := ht.deletedAddresses

theorem insertAll_tabled : ∀ (events : List Event) {s : Store}, s.Sound → s.Tabled →
    (s.insertAll events).Sound ∧ (s.insertAll events).Tabled
  | [], _, hs, ht => ⟨hs, ht⟩
  | ev :: events, _, hs, ht => insertAll_tabled events (hs.insert ev).1 (ht.insert hs ev)

/-- **Any insertions keep the representation**, under any capacity. -/
theorem insertAll_consistent (maxEvents : Nat) (persistent : Bool) (events : List Event) :
    ((fresh maxEvents persistent).insertAll events).Consistent ∧
      ((fresh maxEvents persistent).insertAll events).maxEvents = maxEvents := by
  obtain ⟨hs, ht⟩ := insertAll_tabled events (Sound.fresh maxEvents persistent) ⟨Fifo.Sound.new, Fifo.Sound.new⟩
  refine ⟨hs.consistent ht, ?_⟩
  have hmax : ∀ (events : List Event) {s : Store}, s.Sound → (s.insertAll events).maxEvents = s.maxEvents := by
    intro events
    induction events with
    | nil => intro s _; rfl
    | cons ev events ih => intro s hs; exact (ih (hs.insert ev).1).trans (hs.insert ev).2
  exact hmax events (Sound.fresh maxEvents persistent)

end Store

end Mistl.Nostr
