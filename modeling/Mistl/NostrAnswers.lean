import Mistl.NostrConverge
import Mistl.NostrQuery
import Mistl.NostrReplay
/-!
# NostrAnswers — which stores answer alike

An answer depends on the events that a store holds and on nothing else of it, so a store answers after a restart as it
did before, and stores that the same events have reached answer alike.
-/
open List

namespace Mistl.Nostr

theorem Store.Listing.congr {s t : Store} {now : Nat} {f : Filter} {l : List Event} (h : s.Listing now f l)
    (hsame : ∀ e, expired e now = false → (s.events.get e.id = some e ↔ t.events.get e.id = some e)) :
    t.Listing now f l where
  ordered := h.ordered
  mem_iff := fun e => by
    rw [h.mem_iff]
    exact and_congr_left fun hlive => hsame e hlive.1

/-- **What is stored decides what is answered.** -/
theorem Store.query_congr {s t : Store} (hs : s.Indexed) (ht : t.Indexed) {now : Nat}
    (hsame : ∀ e, expired e now = false → (s.events.get e.id = some e ↔ t.events.get e.id = some e))
    (filters : List Filter) (cap : Nat) : s.query filters cap now = t.query filters cap now := by
  obtain ⟨listing, union, hlisting, hunion⟩ := hs.answers filters cap now
  exact Answers.eq ⟨listing, union, fun f hf => (hlisting f hf).congr hsame, hunion⟩ (ht.answers filters cap now)

theorem expired_mono {e : Event} {now later : Nat} (hle : now ≤ later) (h : expired e later = false) : expired e now = false := by
  unfold expired at h ⊢
  cases htime : e.expiration with
  | none => rfl
  | some time =>
    rw [htime] at h
    exact decide_eq_false (fun hnow => of_decide_eq_false h (hnow.trans hle))

/-- **A restart changes no answer**: where every deletion request of the run finds room in the tables of deletions, the
store that is read back from the log answers as the one that wrote it would, from the time of reopening on. -/
theorem reopened_answers (cap now₀ now later : Nat) (ops : List Op) (hops : ∀ op ∈ ops, op.Shaped)
    (hroom : (Shelf.start cap now₀).Roomy ops) (hlater : now ≤ later) (filters : List Filter) (limit : Nat) :
    (openLog (((Shelf.start cap now₀).run ops).step .flush).log cap now).query filters limit later =
      (((Shelf.start cap now₀).run ops).step .flush).store.query filters limit later := by
  obtain ⟨written, hl, hlog⟩ := Shelf.run_agrees ops (Shelf.start_agrees now cap now₀) hops hroom
  generalize (Shelf.start cap now₀).run ops = shelf at *
  obtain ⟨hflush, hpending, hrewrite, -⟩ := hl.flush
  have hm := hflush.mirrors hrewrite
  have hlines := hflush.lines
  rw [hpending, append_nil] at hm hlines
  rw [Shelf.step, openLog_write hlines (applyPending_flushed hlog shelf.store)]
  refine Store.query_congr (hm.sound.congr ⟨rfl, rfl, rfl, rfl, rfl, rfl, rfl⟩).indexed hflush.sound.indexed
    (fun e hlive => ?_) filters limit
  exact (hm.events _ e).trans (and_iff_left (expired_mono hlater hlive))

theorem reopened_answers_remembering : (openLog (((Shelf.start 3 0).run remembering).step .flush).log 3 0).query [Filter.default] 2 5 =
      (((Shelf.start 3 0).run remembering).step .flush).store.query [Filter.default] 2 5 := by
  refine reopened_answers 3 0 0 5 remembering (fun op hop => ?_) ⟨by decide, by decide, trivial⟩ (by decide) _ 2
  simp only [remembering, mem_cons, not_mem_nil, or_false] at hop
  rcases hop with rfl | rfl | rfl | rfl
  · exact requestEvent_shaped (by decide) (by decide)
  · trivial
  · exact deletedNote_shaped
  · trivial

/-- What a store holds of the arrivals, none of them signed twice, every other one holds that they have reached. -/
theorem Holds.same_events {l l' : List Event} {s s' : Store} (h : Holds l s) (h' : Holds l' s') (hplain : Plain l)
    (hplain' : Plain l') (hset : ∀ e, e ∈ l ↔ e ∈ l') (honce : ∀ e ∈ l, ∀ f ∈ l, e.id = f.id → e = f) {e : Event}
    (hget : s.events.get e.id = some e) : s'.events.get e.id = some e := by
  obtain ⟨f, hf, hid, hkept⟩ := (h.stored_iff hplain).1 ⟨e, hget⟩
  obtain ⟨g, hg⟩ := (h'.stored_iff hplain').2 ⟨f, (hset f).1 hf, hid, (Kept.congr hset f).1 hkept⟩
  have hgid := h'.sound.indexed.keyed _ g hg
  have hmem := (hset g).2 (h'.stored g (hgid.symm ▸ hg)).1
  rw [hg, honce g hmem e (h.stored e hget).1 hgid]

/-- **Stores that the same events have reached answer alike**, whatever the order of arrival and the repetitions. -/
theorem converged_answers {cap : Nat} {persistent : Bool} {l₁ l₂ : List Event} (hset : ∀ e, e ∈ l₁ ↔ e ∈ l₂)
    (hplain : Plain l₁) (honce : ∀ e ∈ l₁, ∀ f ∈ l₁, e.id = f.id → e = f) (hfits : Fits l₁ cap) (filters : List Filter)
    (limit now : Nat) :
    ((Store.fresh cap persistent).insertAll l₁).query filters limit now =
      ((Store.fresh cap persistent).insertAll l₂).query filters limit now := by
  have hsub : l₂ ⊆ l₁ := fun e he => (hset e).2 he
  have h₁ := holds_insertAll l₁ (Holds.nothing cap persistent) hplain hfits rfl
  have h₂ := holds_insertAll l₂ (Holds.nothing cap persistent) (hplain.sublist hsub) (hfits.sublist hsub) rfl
  refine Store.query_congr h₁.sound.indexed h₂.sound.indexed (fun e _ => ⟨fun hget => ?_, fun hget => ?_⟩) filters limit
  · exact h₁.same_events h₂ hplain (hplain.sublist hsub) hset honce hget
  · exact h₂.same_events h₁ (hplain.sublist hsub) hplain (fun f => (hset f).symm)
      (fun f hf g hg => honce f (hsub hf) g (hsub hg)) hget

theorem converged_answers_deletion : ((Store.fresh 2 false).insertAll [noteEvent 'b', noteDeletion]).query [Filter.default] 2 5 =
      ((Store.fresh 2 false).insertAll [noteDeletion, noteEvent 'b']).query [Filter.default] 2 5 :=
  converged_answers (fun e => by simp [or_comm]) ⟨by decide, by decide, by decide +kernel⟩ (by decide +kernel)
    ⟨by decide, by decide, by decide⟩ _ 2 5

def Filter.unlimited (f : Filter) : Filter := { f with limit := none }

namespace Store

def count (s : Store) (filters : List Filter) (now : Nat) : Nat :=
  (s.events.filter (fun _ ev => !expired ev now && filters.any (fun filter => filter.matches ev))).size

theorem Sound.insertAll {s : Store} (h : s.Sound) : ∀ l : List Event, (s.insertAll l).Sound := fun l =>
  l.foldlRecOn _ h (fun _ hs ev _ => (hs.insert ev).1)

end Store

/-- **An answer to filters without limits has as many events as the count of them**, or as many as may be sent. -/
theorem count_answers (cap : Nat) (persistent : Bool) (l : List Event) (filters : List Filter) (limit now : Nat) :
    (((Store.fresh cap persistent).insertAll l).query (filters.map Filter.unlimited) limit now).length =
      min limit (((Store.fresh cap persistent).insertAll l).count filters now) := by
  have h := ((Store.Sound.fresh cap persistent).insertAll l).indexed
  generalize (Store.fresh cap persistent).insertAll l = s at *
  obtain ⟨listing, union, hlisting, hunion, hmem, hquery⟩ := h.answers (filters.map Filter.unlimited) limit now
  have hin : ∀ e, e ∈ union ↔ s.events.get e.id = some e ∧ expired e now = false ∧ ∃ f ∈ filters, f.matches e = true := by
    intro e
    rw [hmem]
    constructor
    · rintro ⟨_, hf, he⟩
      obtain ⟨f, hfilter, rfl⟩ := mem_map.1 hf
      obtain ⟨hget, hlive, hmatch⟩ := ((hlisting _ hf).mem_iff e).1 he
      exact ⟨hget, hlive, f, hfilter, hmatch⟩
    · rintro ⟨hget, hlive, f, hfilter, hmatch⟩
      have hf : f.unlimited ∈ filters.map Filter.unlimited := mem_map_of_mem hfilter
      exact ⟨_, hf, ((hlisting _ hf).mem_iff e).2 ⟨hget, hlive, hmatch⟩⟩
  have hnodup : (union.map Event.id).Nodup := by
    refine Nodup.map_on (fun a ha b hb hid => ?_) (hunion.imp (fun hlt heq => hlt.ne (congrArg answerKey heq)))
    exact Option.some.inj (((hin a).1 ha).1.symm.trans (hid ▸ ((hin b).1 hb).1))
  rw [hquery, length_take, ← length_map Event.id, ← toFinset_card_of_nodup hnodup, Store.count, ← Table.card_keys]
  congr 2
  ext id
  rw [Table.mem_keys, Table.get_filter, Option.ne_none_iff_exists', mem_toFinset, mem_map]
  simp only [Option.filter_eq_some_iff, hin, Bool.and_eq_true, Bool.not_eq_true', any_eq_true]
  constructor
  · rintro ⟨e, ⟨hget, hp⟩, rfl⟩
    exact ⟨e, hget, hp⟩
  · rintro ⟨e, hget, hp⟩
    obtain rfl := h.keyed id e hget
    exact ⟨e, ⟨hget, hp⟩, rfl⟩

end Mistl.Nostr
