import Mathlib.Data.Set.Function
import Mistl.NostrStore
/-!
# NostrConverge — what a store holds, whatever the order of arrival

What has arrived decides what is stored: the events that no deletion request is about, and of those at one address the
latest, the lower id first.
-/
open List

namespace Mistl.Nostr

/-! ## What has arrived -/

def Event.Outranks (e f : Event) : Prop := f.createdAt < e.createdAt ∨ (e.createdAt = f.createdAt ∧ e.id < f.id)

theorem Event.Outranks.trans {e f g : Event} (h : e.Outranks f) (h' : f.Outranks g) : e.Outranks g := by
  rcases h with h | ⟨h1, h2⟩ <;> rcases h' with h' | ⟨h1', h2'⟩
  · exact Or.inl (h'.trans h)
  · exact Or.inl (by omega)
  · exact Or.inl (by omega)
  · exact Or.inr ⟨h1.trans h1', h2.trans h2'⟩

theorem Event.Outranks.irrefl {e f : Event} (h : e.Outranks f) (h' : f.Outranks e) : False := by
  rcases h.trans h' with h | ⟨-, h⟩
  · exact lt_irrefl _ h
  · exact lt_irrefl _ h

def Deleted (l : List Event) (e : Event) : Prop := ∃ d ∈ l, d.kind = 5 ∧ d.Deletes e

/-- What a set of arrivals must fit into for nothing to be dropped. -/
structure Fits (l : List Event) (cap : Nat) : Prop where
  events : (l.map Event.id).toFinset.card ≤ cap
  names : ((l.filter (fun d => d.kind = 5)).flatMap (fun d => d.names.map (fun id => (id, d.pubkey)))).toFinset.card ≤ cap
  targets : ((l.filter (fun d => d.kind = 5)).flatMap Event.targets).toFinset.card ≤ cap

/-- What is asked of the arrivals: none is ephemeral, no request names a replaceable or addressable event by its id, and
an id stands for one body. -/
structure Plain (l : List Event) : Prop where
  lasting : ∀ e ∈ l, e.kindClass ≠ .ephemeral
  regular : ∀ d ∈ l, d.kind = 5 → ∀ e ∈ l, e.id ∈ d.names → addressOf e = none
  identified : ∀ e ∈ l, ∀ f ∈ l, e.id = f.id → e.body = f.body

variable {cap : Nat}

theorem Fits.sublist {l l' : List Event} (h : Fits l cap) (hl : l' ⊆ l) : Fits l' cap := by
  refine ⟨(Finset.card_le_card ?_).trans h.events, (Finset.card_le_card ?_).trans h.names, (Finset.card_le_card ?_).trans h.targets⟩
  · intro id hid
    simp only [mem_toFinset, mem_map] at hid ⊢
    obtain ⟨e, he, rfl⟩ := hid
    exact ⟨e, hl he, rfl⟩
  · intro k hk
    simp only [mem_toFinset, mem_flatMap, mem_filter] at hk ⊢
    obtain ⟨d, ⟨hd, hkind⟩, hk⟩ := hk
    exact ⟨d, ⟨hl hd, hkind⟩, hk⟩
  · intro a ha
    simp only [mem_toFinset, mem_flatMap, mem_filter] at ha ⊢
    obtain ⟨d, ⟨hd, hkind⟩, ha⟩ := ha
    exact ⟨d, ⟨hl hd, hkind⟩, ha⟩

theorem Plain.sublist {l l' : List Event} (h : Plain l) (hl : l' ⊆ l) : Plain l' :=
  ⟨fun e he => h.lasting e (hl he), fun d hd hk e he => h.regular d (hl hd) hk e (hl he),
    fun e he f hf => h.identified e (hl he) f (hl hf)⟩

variable {e : Event}

theorem addressOf_kind {a : Address} (h : addressOf e = some a) : e.kind ≠ 5 := by
  intro hk
  have hclass : e.kindClass = .regular := by
    unfold Event.kindClass
    rw [hk]
    rfl
  rw [addressOf, hclass] at h
  cases h

theorem not_deletes_request {d e : Event} (hk : e.kind = 5) : ¬d.Deletes e := by
  rintro (⟨-, -, h⟩ | ⟨a, -, h, -⟩)
  · exact h hk
  · exact addressOf_kind h hk

theorem body_congr {e f : Event} (h : e.body = f.body) :
    e.id = f.id ∧ e.pubkey = f.pubkey ∧ e.createdAt = f.createdAt ∧ e.kind = f.kind ∧ addressOf e = addressOf f ∧
    e.names = f.names ∧ e.targets = f.targets := by
  obtain ⟨id', pubkey', createdAt', kind', tags', content', sig'⟩ := f
  obtain ⟨rfl, rfl, rfl, rfl, rfl, rfl, -⟩ := h
  exact ⟨rfl, rfl, rfl, rfl, rfl, rfl, rfl⟩

theorem Event.Deletes.congr {d d' e e' : Event} (hd : d.body = d'.body) (he : e.body = e'.body) (h : d.Deletes e) : d'.Deletes e' := by
  obtain ⟨-, hdkey, hdtime, -, -, hdnames, hdtargets⟩ := body_congr hd
  obtain ⟨heid, hekey, hetime, hekind, headdr, -, -⟩ := body_congr he
  unfold Event.Deletes at h ⊢
  rw [← hdkey, ← hdtime, ← hdnames, ← hdtargets, ← heid, ← hekey, ← hetime, ← hekind, ← headdr]
  exact h

variable {l : List Event}

theorem deleted_append {e f : Event} : Deleted (l ++ [e]) f ↔ Deleted l f ∨ (e.kind = 5 ∧ e.Deletes f) := by
  unfold Deleted
  simp only [mem_append, mem_singleton, or_and_right, exists_or, exists_eq_left]

/-! ## What a store holds -/

/-- A store after the arrivals `l`: it holds nothing that was deleted, and each event not deleted is there or gives way
to a later version that is. -/
structure Holds (l : List Event) (s : Store) : Prop where
  sound : s.Sound
  stored : ∀ e, s.events.get e.id = some e → e ∈ l ∧ ¬Deleted l e
  covered : ∀ e ∈ l, ¬Deleted l e → ∃ f, s.events.get f.id = some f ∧
    (f.id = e.id ∨ ((∃ a, addressOf f = some a ∧ addressOf e = some a) ∧ f.Outranks e))
  ids : ∀ k, s.deletedIds.values.get k = some () ↔ ∃ d ∈ l, d.kind = 5 ∧ k.1 ∈ d.names ∧ k.2 = d.pubkey
  targets_le : ∀ d ∈ l, d.kind = 5 → ∀ a ∈ d.targets, ∃ t, s.deletedAddresses.values.get a = some t ∧ d.createdAt ≤ t
  targets_from : ∀ a t, s.deletedAddresses.values.get a = some t → ∃ d ∈ l, d.kind = 5 ∧ a ∈ d.targets ∧ t = d.createdAt

theorem Holds.nothing (maxEvents : Nat) (persistent : Bool) : Holds [] (Store.fresh maxEvents persistent) :=
  ⟨Store.Sound.fresh _ _, nofun, nofun, fun _ => ⟨nofun, fun ⟨_, h, _⟩ => nomatch h⟩, nofun, nofun⟩

variable {s : Store}

theorem Holds.same (h : Holds l s) (hdeleted : ∀ f, Deleted (l ++ [e]) f ↔ Deleted l f)
    (hcovered : ¬Deleted l e → ∃ f, s.events.get f.id = some f ∧
      (f.id = e.id ∨ ((∃ a, addressOf f = some a ∧ addressOf e = some a) ∧ f.Outranks e)))
    (hrequest : e.kind = 5 → ∃ d ∈ l, d.body = e.body) : Holds (l ++ [e]) s := by
  have hmem : ∀ {d : Event}, d ∈ l ++ [e] → d.kind = 5 → ∃ d' ∈ l, d'.body = d.body := by
    intro d hd hk
    rcases mem_append.1 hd with hd | hd
    · exact ⟨d, hd, rfl⟩
    · rw [mem_singleton.1 hd] at hk ⊢
      exact hrequest hk
  refine ⟨h.sound, fun f hf => ?_, fun f hf hnot => ?_, fun k => ?_, fun d hd hk a ha => ?_, fun a t ht => ?_⟩
  · obtain ⟨hl, hnot⟩ := h.stored f hf
    exact ⟨mem_append_left _ hl, fun hd => hnot ((hdeleted f).1 hd)⟩
  · rw [hdeleted] at hnot
    rcases mem_append.1 hf with hf | hf
    · exact h.covered f hf hnot
    · rw [mem_singleton.1 hf] at hnot ⊢
      exact hcovered hnot
  · rw [h.ids]
    constructor
    · rintro ⟨d, hd, hrest⟩
      exact ⟨d, mem_append_left _ hd, hrest⟩
    · rintro ⟨d, hd, hk, hname, hkey⟩
      obtain ⟨d', hd', hbody⟩ := hmem hd hk
      obtain ⟨-, h2, -, h4, -, h6, -⟩ := body_congr hbody
      exact ⟨d', hd', h4.trans hk, h6 ▸ hname, hkey.trans h2.symm⟩
  · obtain ⟨d', hd', hbody⟩ := hmem hd hk
    obtain ⟨-, -, h3, h4, -, -, h7⟩ := body_congr hbody
    rw [← h3]
    exact h.targets_le d' hd' (h4.trans hk) a (h7 ▸ ha)
  · obtain ⟨d, hd, hrest⟩ := h.targets_from a t ht
    exact ⟨d, mem_append_left _ hd, hrest⟩

/-- **A refused event is one that a store has no room for in its picture**: a copy, a deleted event, or an older
version. -/
theorem Holds.refused (h : Holds l s) (hplain : Plain (l ++ [e])) (hw : ¬s.Welcome e) : Holds (l ++ [e]) s := by
  have hlast : e ∈ l ++ [e] := mem_append_right _ mem_cons_self
  have hother : e.kind ≠ 5 → ∀ f, Deleted (l ++ [e]) f ↔ Deleted l f := fun hk f => by
    rw [deleted_append]
    exact ⟨fun hd => hd.resolve_right (fun hd => hk hd.1), Or.inl⟩
  by_cases hnew : s.events.get e.id = none
  swap
  · obtain ⟨e₀, he₀⟩ := Option.ne_none_iff_exists'.1 hnew
    have hid := h.sound.indexed.keyed _ _ he₀
    rw [← hid] at he₀
    obtain ⟨hmem, -⟩ := h.stored e₀ he₀
    have hbody := hplain.identified e₀ (mem_append_left _ hmem) e hlast hid
    refine h.same (fun f => ?_) (fun _ => ⟨e₀, he₀, Or.inl hid⟩) (fun _ => ⟨e₀, hmem, hbody⟩)
    rw [deleted_append]
    refine ⟨fun hd => hd.elim id (fun hd => ⟨e₀, hmem, ?_, hd.2.congr hbody.symm rfl⟩), Or.inl⟩
    exact (body_congr hbody).2.2.2.1.trans hd.1
  by_cases hdel : Deleted l e
  · have hk : e.kind ≠ 5 := fun hk => by
      obtain ⟨d, -, -, hd⟩ := hdel
      exact not_deletes_request hk hd
    exact h.same (hother hk) (fun hnot => absurd hdel hnot) (fun hk' => absurd hk' hk)
  · have hkept : e.kind ≠ 5 → s.deletedIds.values.get (e.id, e.pubkey) = none := by
      intro hk
      by_contra hne
      obtain ⟨u, hu⟩ := Option.ne_none_iff_exists'.1 hne
      obtain ⟨d, hd, hdk, hname, hkey⟩ := (h.ids _).1 hu
      exact hdel ⟨d, hd, hdk, Or.inl ⟨hname, hkey, hk⟩⟩
    have hlater : ∀ a time, addressOf e = some a → s.deletedAddresses.values.get a = some time → time < e.createdAt := by
      intro a time ha ht
      obtain ⟨d, hd, hdk, hda, rfl⟩ := h.targets_from a time ht
      by_contra hle
      exact hdel ⟨d, hd, hdk, Or.inr ⟨a, hda, ha, not_lt.1 hle⟩⟩
    have hbetter : ∃ a old, addressOf e = some a ∧ s.current a = some old ∧
        ¬(old.createdAt < e.createdAt ∨ (old.createdAt = e.createdAt ∧ e.id ≤ old.id)) := by
      by_contra hno
      refine hw ⟨hnew, hplain.lasting e hlast, hkept, hlater, fun a old ha hold => ?_⟩
      by_contra hb
      exact hno ⟨a, old, ha, hold, hb⟩
    obtain ⟨a, old, ha, hold, hb⟩ := hbetter
    obtain ⟨hin, hao⟩ := h.sound.indexed.current_eq_some.1 hold
    have hk := addressOf_kind ha
    refine h.same (hother hk) (fun _ => ⟨old, hin, Or.inr ⟨⟨a, hao, ha⟩, ?_⟩⟩) (fun hk' => absurd hk' hk)
    rw [not_or, not_and, not_lt, not_le] at hb
    rcases lt_or_eq_of_le hb.1 with hlt | heq
    · exact Or.inl hlt
    · exact Or.inr ⟨heq.symm, hb.2 heq.symm⟩

theorem len_le_arrived (hi : s.Indexed) (hl : ∀ e, s.events.get e.id = some e → e ∈ l) : s.len ≤ (l.map Event.id).toFinset.card := by
  rw [Store.len, ← Table.card_keys]
  refine Finset.card_le_card (fun id hid => ?_)
  obtain ⟨e, he⟩ := Option.ne_none_iff_exists'.1 (Table.mem_keys.1 hid)
  have hx := hi.keyed id e he
  subst hx
  rw [mem_toFinset]
  exact mem_map_of_mem (hl e he)

theorem Holds.ids_room (h : Holds l s) (hk : e.kind = 5) (hfits : Fits (l ++ [e]) cap) :
    (s.deletedIds.values.keys ∪ (e.names.map (fun id => (id, e.pubkey))).toFinset).card ≤ cap := by
  refine (Finset.card_le_card (fun k hmem => ?_)).trans hfits.names
  simp only [mem_toFinset, mem_flatMap, mem_filter, mem_map, decide_eq_true_eq]
  rcases Finset.mem_union.1 hmem with hmem | hmem
  · obtain ⟨u, hu⟩ := Option.ne_none_iff_exists'.1 (Table.mem_keys.1 hmem)
    obtain ⟨d, hd, hdk, hname, hkey⟩ := (h.ids k).1 hu
    exact ⟨d, ⟨mem_append_left _ hd, hdk⟩, k.1, hname, Prod.ext rfl hkey.symm⟩
  · obtain ⟨id, hid, rfl⟩ := mem_map.1 (mem_toFinset.1 hmem)
    exact ⟨e, ⟨mem_append_right _ mem_cons_self, hk⟩, id, hid, rfl⟩

theorem Holds.targets_room (h : Holds l s) (hk : e.kind = 5)
    (hfits : Fits (l ++ [e]) cap) : (s.deletedAddresses.values.keys ∪ e.targets.toFinset).card ≤ cap := by
  refine (Finset.card_le_card (fun a hmem => ?_)).trans hfits.targets
  simp only [mem_toFinset, mem_flatMap, mem_filter, decide_eq_true_eq]
  rcases Finset.mem_union.1 hmem with hmem | hmem
  · obtain ⟨t, ht⟩ := Option.ne_none_iff_exists'.1 (Table.mem_keys.1 hmem)
    obtain ⟨d, hd, hdk, hda, -⟩ := h.targets_from a t ht
    exact ⟨d, ⟨mem_append_left _ hd, hdk⟩, hda⟩
  · exact ⟨e, ⟨mem_append_right _ mem_cons_self, hk⟩, mem_toFinset.1 hmem⟩

theorem Holds.welcomed (h : Holds l s) (hplain : Plain (l ++ [e]))
    (hfits : Fits (l ++ [e]) s.maxEvents) (hw : s.Welcome e) : Holds (l ++ [e]) (s.insert e).1 := by
  have hlast : e ∈ l ++ [e] := mem_append_right _ mem_cons_self
  have hsound := h.sound.insert e
  have hbody : ∀ f g, s.events.get f.id = some f → g ∈ l → f.id = g.id → f.body = g.body := fun f g hf hg hid =>
    hplain.identified f (mem_append_left _ (h.stored f hf).1) g (mem_append_left _ hg) hid
  have hg := Store.grown_spec h.sound.indexed hw
  have hevents : ∀ f, (s.grown e).events.get f.id = some f ↔ f = e ∨ (s.events.get f.id = some f ∧ ¬e.Displaces f) := by
    intro f
    rw [hg.events]
    refine or_congr_left ⟨And.right, fun hf => ⟨by rw [hf], hf⟩⟩
  have harrived : ∀ f, (s.grown e).events.get f.id = some f → f ∈ l ++ [e] := by
    intro f hf
    rcases (hevents f).1 hf with rfl | ⟨hf, -⟩
    · exact hlast
    · exact mem_append_left _ (h.stored f hf).1
  have heq : (s.insert e).1 = s.grown e := by
    have hle := (len_le_arrived hg.indexed harrived).trans hfits.events
    rcases Store.insert_cases h.sound.indexed h.sound.len e with ⟨hn, -⟩ | ⟨-, -, ⟨-, he⟩ | ⟨hlen, -⟩⟩
    · exact absurd hw hn
    · exact he
    · omega
  rw [heq] at hsound ⊢
  have hnot : ¬Deleted (l ++ [e]) e := by
    rw [deleted_append, not_or]
    refine ⟨?_, fun hd => not_deletes_request hd.1 hd.2⟩
    rintro ⟨d, hd, hk, ⟨hname, hkey, hke⟩ | ⟨a, hda, ha, hle⟩⟩
    · have := (h.ids (e.id, e.pubkey)).2 ⟨d, hd, hk, hname, hkey⟩
      rw [hw.kept hke] at this
      cases this
    · obtain ⟨t, ht, hdt⟩ := h.targets_le d hd hk a hda
      exact absurd (hw.later a t ha ht) (not_lt.2 (hle.trans hdt))
  refine ⟨hsound.1, fun f hf => ⟨harrived f hf, ?_⟩, fun f hf hndel => ?_, fun k => ?_, fun d hd hk a ha => ?_, fun a t ht => ?_⟩
  · rcases (hevents f).1 hf with rfl | ⟨hf, hdis⟩
    · exact hnot
    · rw [deleted_append, not_or]
      exact ⟨(h.stored f hf).2, fun hd => hdis (Or.inr hd)⟩
  · have hself : (s.grown e).events.get e.id = some e := (hevents e).2 (Or.inl rfl)
    rcases mem_append.1 hf with hf | hf
    swap
    · rw [mem_singleton.1 hf]
      exact ⟨e, hself, Or.inl rfl⟩
    rw [deleted_append, not_or] at hndel
    obtain ⟨g, hgs, hcover⟩ := h.covered f hf hndel.1
    by_cases hdis : e.Displaces g
    swap
    · exact ⟨g, (hevents g).2 (Or.inr ⟨hgs, hdis⟩), hcover⟩
    rcases hdis with ⟨a, hae, hag⟩ | ⟨hk, hdel⟩
    · -- a later version at the same address
      have houtranks : e.Outranks g := by
        have hne : e.id ≠ g.id := by
          intro hid
          rw [← hid, hw.new] at hgs
          cases hgs
        rcases hw.better a g hae (h.sound.indexed.current_eq_some.2 ⟨hgs, hag⟩) with hlt | ⟨htime, hle⟩
        · exact Or.inl hlt
        · exact Or.inr ⟨htime.symm, lt_of_le_of_ne hle hne⟩
      refine ⟨e, hself, Or.inr ?_⟩
      rcases hcover with hid | ⟨⟨b, hbg, hbf⟩, hrank⟩
      · obtain ⟨hid, -, htime, -, haddr, -, -⟩ := body_congr (hbody g f hgs hf hid)
        refine ⟨⟨a, hae, haddr ▸ hag⟩, ?_⟩
        rcases houtranks with hlt | ⟨heq, hlt⟩
        · exact Or.inl (htime ▸ hlt)
        · exact Or.inr ⟨htime ▸ heq, hid ▸ hlt⟩
      · rw [hag] at hbg
        cases hbg
        exact ⟨⟨a, hae, hbf⟩, houtranks.trans hrank⟩
    · -- a request about the event that stood for this one
      refine absurd ⟨hk, ?_⟩ hndel.2
      rcases hcover with hid | ⟨⟨b, hbg, hbf⟩, hrank⟩
      · exact hdel.congr rfl (hbody g f hgs hf hid)
      · rcases hdel with ⟨hname, -, -⟩ | ⟨a, hda, hag, hle⟩
        · have := hplain.regular e hlast hk g (mem_append_left _ (h.stored g hgs).1) hname
          rw [hbg] at this
          cases this
        · rw [hag] at hbg
          cases hbg
          refine Or.inr ⟨b, hda, hbf, le_trans ?_ hle⟩
          rcases hrank with hlt | ⟨htime, -⟩
          · exact hlt.le
          · exact htime.symm.le
  · rw [hg.deletedIds]
    by_cases hk : e.kind = 5
    · rw [if_pos hk]
      constructor
      · intro hget
        rcases Store.get_foldl_ids _ hget with ⟨hname, hkey⟩ | hget
        · exact ⟨e, hlast, hk, hname, hkey⟩
        · obtain ⟨d, hd, hrest⟩ := (h.ids k).1 hget
          exact ⟨d, mem_append_left _ hd, hrest⟩
      · rintro ⟨d, hd, hdk, hname, hkey⟩
        refine Store.get_foldl_ids_room _ (h.ids_room hk hfits) k ?_
        rcases mem_append.1 hd with hd | hd
        · exact Or.inr ((h.ids k).2 ⟨d, hd, hdk, hname, hkey⟩)
        · rw [mem_singleton.1 hd] at hname hkey
          exact Or.inl ⟨hname, hkey⟩
    · rw [if_neg hk, h.ids]
      constructor
      · rintro ⟨d, hd, hrest⟩
        exact ⟨d, mem_append_left _ hd, hrest⟩
      · rintro ⟨d, hd, hdk, hrest⟩
        rcases mem_append.1 hd with hd | hd
        · exact ⟨d, hd, hdk, hrest⟩
        · rw [mem_singleton.1 hd] at hdk
          exact absurd hdk hk
  · rw [hg.deletedAddresses]
    by_cases hke : e.kind = 5
    · rw [if_pos hke]
      obtain ⟨hnew, hold⟩ := Store.get_foldl_raise_room e.createdAt _ (h.targets_room hke hfits) a
      rcases mem_append.1 hd with hd | hd
      · obtain ⟨t, ht, hdt⟩ := h.targets_le d hd hk a ha
        obtain ⟨t', ht', htt'⟩ := hold t ht
        exact ⟨t', ht', hdt.trans htt'⟩
      · rw [mem_singleton.1 hd] at ha ⊢
        exact hnew ha
    · rw [if_neg hke]
      rcases mem_append.1 hd with hd | hd
      · exact h.targets_le d hd hk a ha
      · rw [mem_singleton.1 hd] at hk
        exact absurd hk hke
  · rw [hg.deletedAddresses] at ht
    by_cases hke : e.kind = 5
    · rw [if_pos hke] at ht
      rcases Store.get_foldl_raise _ ht with ⟨ha, rfl⟩ | ht
      · exact ⟨e, hlast, hke, ha, rfl⟩
      · obtain ⟨d, hd, hrest⟩ := h.targets_from a t ht
        exact ⟨d, mem_append_left _ hd, hrest⟩
    · rw [if_neg hke] at ht
      obtain ⟨d, hd, hrest⟩ := h.targets_from a t ht
      exact ⟨d, mem_append_left _ hd, hrest⟩

theorem holds_insertAll : ∀ (l : List Event) {before : List Event} {s : Store}, Holds before s →
    Plain (before ++ l) → Fits (before ++ l) cap → s.maxEvents = cap → Holds (before ++ l) (s.insertAll l)
  | [], before, s, h, _, _, _ => by
    rw [append_nil]
    exact h
  | e :: l, before, s, h, hplain, hfits, hmax => by
    have happend : before ++ e :: l = (before ++ [e]) ++ l := by rw [append_assoc, singleton_append]
    have hsub : before ++ [e] ⊆ before ++ e :: l := by
      rw [happend]
      exact subset_append_left _ _
    have hstep : Holds (before ++ [e]) (s.insert e).1 := by
      by_cases hw : s.Welcome e
      · exact h.welcomed (hplain.sublist hsub) (hmax ▸ hfits.sublist hsub) hw
      · rw [Store.insert_of_not_welcome hw]
        exact h.refused (hplain.sublist hsub) hw
    rw [happend] at hplain hfits ⊢
    exact holds_insertAll l hstep hplain hfits ((h.sound.insert e).2.trans hmax)

def Kept (l : List Event) (e : Event) : Prop :=
  ¬Deleted l e ∧ ∀ f ∈ l, ∀ a, addressOf e = some a → addressOf f = some a → ¬Deleted l f → ¬f.Outranks e

theorem Holds.stored_iff (h : Holds l s) (hplain : Plain l) {id : String} :
    (∃ e, s.events.get id = some e) ↔ ∃ e ∈ l, e.id = id ∧ Kept l e := by
  constructor
  · rintro ⟨e, he⟩
    have hid := h.sound.indexed.keyed id e he
    subst hid
    obtain ⟨hmem, hnot⟩ := h.stored e he
    refine ⟨e, hmem, rfl, hnot, fun f hf a hae haf hnf hrank => ?_⟩
    obtain ⟨g, hg, hcover⟩ := h.covered f hf hnf
    have hag : addressOf g = some a := by
      rcases hcover with hid | ⟨⟨b, hbg, hbf⟩, -⟩
      · obtain ⟨-, -, -, -, haddr, -, -⟩ := body_congr (hplain.identified g (h.stored g hg).1 f hf hid)
        exact haddr.trans haf
      · rw [haf] at hbf
        cases hbf
        exact hbg
    have hge := h.sound.indexed.address_inj hg he hag hae
    subst hge
    rcases hcover with hid | ⟨-, hrank'⟩
    · obtain ⟨hid, -, htime, -⟩ := body_congr (hplain.identified g hmem f hf hid)
      rcases hrank with hlt | ⟨-, hlt⟩
      · exact absurd htime (Nat.ne_of_lt hlt)
      · exact absurd hid.symm (ne_of_lt hlt)
    · exact hrank.irrefl hrank'
  · rintro ⟨e, he, rfl, hnot, hbest⟩
    obtain ⟨f, hf, hid | ⟨⟨a, haf, hae⟩, hrank⟩⟩ := h.covered e he hnot
    · exact ⟨f, hid ▸ hf⟩
    · obtain ⟨hmem, hnf⟩ := h.stored f hf
      exact absurd hrank (hbest f hmem a hae haf hnf)

theorem Deleted.congr {l l' : List Event} (h : ∀ e, e ∈ l ↔ e ∈ l') (e : Event) : Deleted l e ↔ Deleted l' e := by
  unfold Deleted
  simp only [h]

theorem Kept.congr {l l' : List Event} (h : ∀ e, e ∈ l ↔ e ∈ l') (e : Event) : Kept l e ↔ Kept l' e := by
  unfold Kept
  simp only [h, Deleted.congr h]

/-- **Stores converge**: what the same events leave in an empty store differs at most in signatures, whatever the order
and the repetitions; and from the arrival of a deletion request on, nothing it is about is stored. -/
theorem stores_converge (C : Crates) (schnorr : String → String → String → Bool) {cap : Nat} {persistent : Bool}
    {l₁ l₂ : List Event} (hset : ∀ e, e ∈ l₁ ↔ e ∈ l₂)
    (hvalid : ∀ e ∈ l₁, e.Shaped ∧ e.verify C schnorr = .ok ())
    (hdigest : Set.InjOn C.digest (fun text => ∃ e ∈ l₁, text = Json.utf8 e.canonicalJson))
    (hlasting : ∀ e ∈ l₁, e.kindClass ≠ .ephemeral) (hfits : Fits l₁ cap)
    (hregular : ∀ d ∈ l₁, d.kind = 5 → ∀ e ∈ l₁, e.id ∈ d.tagValues "e" → addressOf e = none) :
    (∀ id, (((Store.fresh cap persistent).insertAll l₁).events.get id).map Event.body =
      (((Store.fresh cap persistent).insertAll l₂).events.get id).map Event.body) ∧
    ∀ before after, l₁ = before ++ after → ∀ d ∈ before, d.kind = 5 → ∀ e ∈ l₁, d.Deletes e →
      ((Store.fresh cap persistent).insertAll before).contains e.id = false := by
  have hplain : Plain l₁ := by
    refine ⟨hlasting, fun d hd hk e he hname => hregular d hd hk e he (mem_of_mem_filter hname), fun e he f hf hid => ?_⟩
    exact Event.body_of_id hdigest (hvalid e he).1 (hvalid f hf).1 (hvalid e he).2 (hvalid f hf).2 ⟨e, he, rfl⟩
      ⟨f, hf, rfl⟩ hid
  have hsub : l₂ ⊆ l₁ := fun e he => (hset e).2 he
  have hholds : ∀ l ⊆ l₁, Holds l ((Store.fresh cap persistent).insertAll l) := fun l hl =>
    holds_insertAll l (Holds.nothing cap persistent) (hplain.sublist hl) (hfits.sublist hl) rfl
  refine ⟨fun id => ?_, fun before after happend d hd hk e he hdel => ?_⟩
  · have h₁ := hholds l₁ (Subset.refl _)
    have h₂ := hholds l₂ hsub
    generalize (Store.fresh cap persistent).insertAll l₁ = s₁ at *
    generalize (Store.fresh cap persistent).insertAll l₂ = s₂ at *
    have hiff : (∃ e, s₁.events.get id = some e) ↔ ∃ e, s₂.events.get id = some e := by
      rw [h₁.stored_iff hplain, h₂.stored_iff (hplain.sublist hsub)]
      simp only [hset, Kept.congr hset]
    cases hget : s₁.events.get id with
    | none =>
      cases hget' : s₂.events.get id with
      | none => rfl
      | some f =>
        obtain ⟨e, he⟩ := hiff.2 ⟨f, hget'⟩
        rw [hget] at he
        cases he
    | some e =>
      obtain ⟨f, hget'⟩ := hiff.1 ⟨e, hget⟩
      have hide := h₁.sound.indexed.keyed id e hget
      have hidf := h₂.sound.indexed.keyed id f hget'
      have hel := (h₁.stored e (hide ▸ hget)).1
      have hfl := (h₂.stored f (hidf ▸ hget')).1
      rw [hget', Option.map_some, Option.map_some, hplain.identified e hel f (hsub hfl) (hide.trans hidf.symm)]
  · have hbefore : before ⊆ l₁ := by
      rw [happend]
      exact subset_append_left _ _
    have hb := hholds before hbefore
    rw [Store.contains, Table.contains_eq_false]
    cases hget : ((Store.fresh cap persistent).insertAll before).events.get e.id with
    | none => rfl
    | some f =>
      have hid := hb.sound.indexed.keyed _ f hget
      obtain ⟨hf, hnot⟩ := hb.stored f (by rw [hid]; exact hget)
      exact absurd ⟨d, hd, hk, hdel.congr rfl (hplain.identified e he f (hbefore hf) hid.symm)⟩ hnot

/-! ## A note and the request to delete it -/

def hexText (c : Char) (n : Nat) : String := String.ofList (List.replicate n c)

theorem isLowerHex_hexText {c : Char} {n : Nat} (hc : (c.isDigit || (decide ('a' ≤ c) && decide (c ≤ 'f'))) = true) :
    isLowerHex (hexText c n) n = true := by
  have := Escrow.hexString_ofList (l := List.replicate n c) (fun d hd => by rw [(mem_replicate.1 hd).2]; exact hc)
  rwa [length_replicate] at this

def noteEvent (sig : Char) : Event := ⟨hexText '1' 64, hexText 'a' 64, 10, 1, [], "", hexText sig 128⟩

def noteDeletion : Event := ⟨hexText '5' 64, hexText 'a' 64, 20, 5, [["e", hexText '1' 64]], "", hexText 'b' 128⟩

def noteCrates : Crates := { sampleCrates [] with
    digest := fun bytes => if bytes[70]? = some 49 then hexText '1' 64 else hexText '5' 64 }

theorem computeId_of_body (C : Crates) {e f : Event} (h : e.body = f.body) : e.computeId C = f.computeId C := by
  have hbody : ∀ g : Event, g.computeId C = g.body.computeId C := fun _ => rfl
  rw [hbody e, h, ← hbody f]

theorem noteEvent_body (sig sig' : Char) : (noteEvent sig).body = (noteEvent sig').body := by
  rw [Event.body, Event.body, noteEvent, noteEvent]

theorem note_valid (sig : Char) (hsig : (sig.isDigit || (decide ('a' ≤ sig) && decide (sig ≤ 'f'))) = true) :
    (noteEvent sig).Shaped ∧ (noteEvent sig).verify noteCrates (fun _ _ _ => true) = .ok () := by
  have hid : (noteEvent sig).computeId noteCrates = (noteEvent sig).id := by
    have : (noteEvent 'b').computeId noteCrates = (noteEvent 'b').id := by decide
    rw [computeId_of_body noteCrates (noteEvent_body sig 'b'), this, noteEvent, noteEvent]
  have hcreated : 10 < 2 ^ 64 := by decide
  have hkind : 1 < 65536 := by decide
  refine ⟨⟨isLowerHex_hexText (by decide), isLowerHex_hexText (by decide), isLowerHex_hexText hsig, hcreated, hkind⟩, ?_⟩
  rw [Event.verify, if_neg (not_not.2 hid)]
  rfl

theorem noteDeletion_valid : noteDeletion.Shaped ∧ noteDeletion.verify noteCrates (fun _ _ _ => true) = .ok () := by
  have hid : noteDeletion.computeId noteCrates = noteDeletion.id := by decide
  refine ⟨⟨isLowerHex_hexText (by decide), isLowerHex_hexText (by decide), isLowerHex_hexText (by decide), by decide, by decide⟩, ?_⟩
  rfl

theorem stores_converge_note : (∀ id, (((Store.fresh 2 false).insertAll [noteEvent 'b', noteDeletion]).events.get id).map Event.body =
      (((Store.fresh 2 false).insertAll [noteDeletion, noteEvent 'b', noteDeletion]).events.get id).map Event.body) ∧
    ∀ before after, [noteEvent 'b', noteDeletion] = before ++ after → ∀ d ∈ before, d.kind = 5 →
      ∀ e ∈ [noteEvent 'b', noteDeletion], d.Deletes e → ((Store.fresh 2 false).insertAll before).contains e.id = false := by
  have hnote := note_valid 'b' (by decide)
  have hdel := noteDeletion_valid
  have hclass : ∀ e ∈ [noteEvent 'b', noteDeletion], e.kindClass = .regular := by
    intro e he
    rcases mem_cons.1 he with rfl | he
    · rfl
    · rw [mem_singleton.1 he]
      rfl
  have hfilter : [noteEvent 'b', noteDeletion].filter (fun d => d.kind = 5) = [noteDeletion] := by rfl
  refine stores_converge noteCrates (fun _ _ _ => true) (fun e => ?_) (fun e he => ?_) ?_ (fun e he => ?_) ⟨?_, ?_, ?_⟩ (fun d _ _ e he _ => ?_)
  · rw [mem_cons, mem_singleton, mem_cons, mem_cons, mem_singleton]
    constructor
    · exact fun h => h.elim (fun h => Or.inr (Or.inl h)) Or.inl
    · exact fun h => h.elim Or.inr id
  · rcases mem_cons.1 he with rfl | he
    · exact hnote
    · rw [mem_singleton.1 he]
      exact hdel
  · have hne : (noteEvent 'b').computeId noteCrates ≠ noteDeletion.computeId noteCrates := by decide
    rintro _ ⟨e, he, rfl⟩ _ ⟨f, hf, rfl⟩ heq
    simp only [mem_cons, not_mem_nil, or_false] at he hf
    rcases he with rfl | rfl <;> rcases hf with rfl | rfl
    · rfl
    · exact absurd heq hne
    · exact absurd heq.symm hne
    · rfl
  · rw [hclass e he]
    decide
  · exact toFinset_card_le _
  · rw [hfilter, flatMap_singleton]
    refine (toFinset_card_le _).trans ?_
    rw [length_map]
    exact (length_filter_le _ _).trans (by decide)
  · decide
  · unfold addressOf
    rw [hclass e he]

/-- Two copies of one event with different signatures: the first to arrive is the one that is stored. -/
theorem copies_keep_first : (∀ e ∈ [noteEvent 'b', noteEvent 'c'], e.Shaped ∧ e.verify noteCrates (fun _ _ _ => true) = .ok ()) ∧
    ((Store.fresh 2 false).insertAll [noteEvent 'b', noteEvent 'c']).events ≠
      ((Store.fresh 2 false).insertAll [noteEvent 'c', noteEvent 'b']).events := by
  have hfirst : ((Store.fresh 2 false).insertAll [noteEvent 'b', noteEvent 'c']).events.get (hexText '1' 64) =
      some (noteEvent 'b') := by decide +kernel
  have hsecond : ((Store.fresh 2 false).insertAll [noteEvent 'c', noteEvent 'b']).events.get (hexText '1' 64) =
      some (noteEvent 'c') := by decide +kernel
  have hne : noteEvent 'b' ≠ noteEvent 'c' := by decide +kernel
  refine ⟨fun e he => ?_, fun heq => ?_⟩
  · rcases mem_cons.1 he with rfl | he
    · exact note_valid _ (by decide)
    · rw [mem_singleton.1 he]
      exact note_valid _ (by decide)
  · rw [heq] at hfirst
    exact hne (Option.some.inj hfirst).symm

end Mistl.Nostr
