import Mathlib.Data.List.Perm.Basic
import Mistl.BotOutbox
import Mistl.Lib.Lines
/-!
# BotRuns — what any sequence of runs leaves

Every effect of a run keeps to a rule (`Allowed`), whatever the sinks answer; so every cut of every sequence of runs does.
An item leaves the outbox when it is processed, is processed when each occurrence of each sink has its receipt, and no
receipt is lost while the item is queued.
-/
open List

namespace Mistl.Bot

open Journal (Durable Work Ran after Allows Triple allows_append after_append)

/-! ## The rule -/

/-- A queue of one entry for each source id, whose receipts are successes. -/
structure Sound (queue : List PendingDelivery) : Prop where
  nodup : (queue.map PendingDelivery.sourceId).Nodup
  receipts : ∀ entry ∈ queue, ∀ key outcome, entry.succeeded.get key = some outcome → outcome.ok = true

structure Kept (a b : PendingDelivery) : Prop where
  sourceId : b.sourceId = a.sourceId
  article : b.article = a.article
  outcome : b.outcome = a.outcome
  receipts : ∀ key outcome, a.succeeded.get key = some outcome → b.succeeded.get key = some outcome

theorem Kept.refl (a : PendingDelivery) : Kept a a := ⟨rfl, rfl, rfl, fun _ _ h => h⟩

theorem Kept.trans {a b c : PendingDelivery} (h : Kept a b) (h' : Kept b c) : Kept a c :=
  ⟨h'.sourceId.trans h.sourceId, h'.article.trans h.article, h'.outcome.trans h.outcome,
    fun key outcome hget => h'.receipts key outcome (h.receipts key outcome hget)⟩

variable {d : Disk}

section Rule
variable (sha256 : SinkConfig → List UInt8)

def Receipted (sinks : List SinkConfig) (entry : PendingDelivery) : Prop :=
  sinks ≠ [] ∧ ∀ key ∈ sinkKeys sha256 ∅ sinks, ∃ outcome, entry.succeeded.get key = some outcome ∧ outcome.ok = true

def Allowed (v : Visit) (d : Disk) : Event → Prop
  | .save queue => Sound queue ∧ ∀ entry ∈ d.outbox,
      (entry.sourceId ∈ d.processed ∧ entry.sourceId ∉ queue.map PendingDelivery.sourceId) ∨ ∃ entry' ∈ queue, Kept entry entry'
  | .mark ids => ids.length ≤ processedIdsCap ∧ ∀ id ∈ ids, id ∉ d.processed →
      (∃ entry ∈ d.outbox, entry.sourceId = id ∧ Receipted sha256 v.sinks entry) ∨
      (id ∉ d.outbox.map PendingDelivery.sourceId ∧ ∃ candidates, v.candidates = .ok candidates ∧ ⟨id, none⟩ ∈ candidates)
  | .deliver id key => ∃ entry ∈ d.outbox, entry.sourceId = id ∧ entry.succeeded.get key = none
  | .append _ => True

structure Disk.Sound (d : Disk) : Prop where
  outbox : Bot.Sound d.outbox
  processed : d.processed.length ≤ processedIdsCap

theorem Disk.Sound.apply {v : Visit} {e : Event} (h : d.Sound) (he : Allowed sha256 v d e) : (d.apply e).Sound := by
  cases e with
  | save queue => exact ⟨he.1, h.processed⟩
  | mark ids =>
    have hcap : ids.length ≤ processedIdsCap := he.1
    exact ⟨h.outbox, hcap⟩
  | deliver id key => exact h
  | append item =>
    simp only [Disk.apply]
    exact ⟨h.outbox, h.processed⟩

end Rule

/-! ## Queues -/

variable {queue : List PendingDelivery} {f : PendingDelivery → PendingDelivery} {index : Nat} {e : PendingDelivery}

theorem getElem?_modify_self 
    (h : queue[index]? = some e) : (queue.modify index f)[index]? = some (f e) := by
  rw [getElem?_modify, h]
  exact congrArg some (if_pos rfl)

theorem mem_modify 
    (h : e ∈ queue.modify index f) : e ∈ queue ∨ ∃ e₀, queue[index]? = some e₀ ∧ e = f e₀ := by
  obtain ⟨i, hi⟩ := mem_iff_getElem?.1 h
  rw [getElem?_modify] at hi
  obtain ⟨e₀, he₀, hf⟩ := Option.map_eq_some_iff.1 hi
  by_cases hindex : index = i
  · rw [if_pos hindex] at hf
    exact .inr ⟨e₀, hindex ▸ he₀, hf.symm⟩
  · rw [if_neg hindex] at hf
    exact .inl (hf ▸ mem_iff_getElem?.2 ⟨i, he₀⟩)

theorem kept_modify 
    (hf : ∀ e, queue[index]? = some e → Kept e (f e)) : ∀ e ∈ queue, ∃ e' ∈ queue.modify index f, Kept e e' := by
  intro e he
  obtain ⟨i, hi⟩ := mem_iff_getElem?.1 he
  by_cases hindex : index = i
  · subst hindex
    exact ⟨f e, mem_iff_getElem?.2 ⟨index, getElem?_modify_self hi⟩, hf e hi⟩
  · refine ⟨e, mem_iff_getElem?.2 ⟨i, ?_⟩, Kept.refl e⟩
    rw [getElem?_modify, hi]
    exact congrArg some (if_neg hindex)

theorem map_sourceId_modify (hf : ∀ e, (f e).sourceId = e.sourceId) : ∀ (queue : List PendingDelivery) (index : Nat),
      (queue.modify index f).map PendingDelivery.sourceId = queue.map PendingDelivery.sourceId
  | [], _ => by simp
  | e :: queue, 0 => by simp [hf]
  | e :: queue, index + 1 => by simp [map_sourceId_modify hf queue index]

theorem Sound.modify (h : Sound queue)
    (hf : ∀ e, (f e).sourceId = e.sourceId) (hok : ∀ e, queue[index]? = some e → ∀ key outcome,
      (f e).succeeded.get key = some outcome → outcome.ok = true) : Sound (queue.modify index f) := by
  refine ⟨by rw [map_sourceId_modify hf]; exact h.nodup, fun e he => ?_⟩
  rcases mem_modify he with he | ⟨e₀, he₀, rfl⟩
  · exact h.receipts e he
  · exact hok e₀ he₀

theorem Sound.eraseIdx (h : Sound queue) (index : Nat) : Sound (queue.eraseIdx index) :=
  ⟨(List.Sublist.map _ (eraseIdx_sublist queue index)).nodup h.nodup,
    fun e he => h.receipts e ((eraseIdx_sublist queue index).subset he)⟩

variable {entry : PendingDelivery}

theorem not_mem_eraseIdx (h : Sound queue)
    (hentry : queue[index]? = some entry) : entry.sourceId ∉ (queue.eraseIdx index).map PendingDelivery.sourceId := by
  intro hmem
  obtain ⟨e, he, hid⟩ := mem_map.1 hmem
  obtain ⟨i, hne, hi⟩ := mem_eraseIdx_iff_getElem?.1 he
  have hmap : ∀ {k : Nat} {x : PendingDelivery}, queue[k]? = some x →
      (queue.map PendingDelivery.sourceId)[k]? = some x.sourceId := fun hx => by rw [getElem?_map, hx]; rfl
  have hlt : i < (queue.map PendingDelivery.sourceId).length := (List.getElem?_eq_some_iff.1 (hmap hi)).1
  refine hne ((getElem?_inj hlt h.nodup).1 ?_)
  rw [hmap hi, hmap hentry, hid]

theorem mem_eraseIdx_of_ne {entry e : PendingDelivery} (he : e ∈ queue)
    (hentry : queue[index]? = some entry) (hne : e.sourceId ≠ entry.sourceId) : e ∈ queue.eraseIdx index := by
  obtain ⟨i, hi⟩ := mem_iff_getElem?.1 he
  refine mem_eraseIdx_iff_getElem?.2 ⟨i, ?_, hi⟩
  rintro rfl
  rw [hentry] at hi
  cases hi
  exact hne rfl

theorem Sound.snoc (h : Sound queue)
    (hnew : e.sourceId ∉ queue.map PendingDelivery.sourceId) (hempty : e.succeeded = ∅) : Sound (queue ++ [e]) := by
  refine ⟨?_, fun e' he' key outcome hget => ?_⟩
  · rw [map_append]
    exact nodup_append.2 ⟨h.nodup, nodup_singleton _, fun a ha b hb hab => hnew (by rw [mem_singleton.1 hb] at hab; exact hab ▸ ha)⟩
  · rcases mem_append.1 he' with he' | he'
    · exact h.receipts e' he' key outcome hget
    · rw [mem_singleton.1 he', hempty] at hget
      cases hget

theorem Sound.pending (h : Sound d.outbox) : Sound (pendingOf d) := by
  have hperm := perm_insertionSort (fun a b : PendingDelivery => a.lastAttempt ≤ b.lastAttempt)
    (d.outbox.filter (fun entry => !d.processed.contains entry.sourceId))
  refine ⟨((hperm.map _).nodup_iff).2 ((List.Sublist.map _ filter_sublist).nodup h.nodup), fun e he => ?_⟩
  exact h.receipts e (mem_filter.1 (hperm.subset he)).1

theorem mem_pendingOf : e ∈ pendingOf d ↔ e ∈ d.outbox ∧ e.sourceId ∉ d.processed := by
  unfold pendingOf
  rw [(perm_insertionSort _ _).mem_iff, mem_filter, Bool.not_eq_true', contains_eq_mem, decide_eq_false_iff_not]

/-! ## The steps of a run -/

section Steps
variable {sha256 : SinkConfig → List UInt8} {v : Visit}

structure Holds (queue : List PendingDelivery) (d : Disk) : Prop where
  outbox : d.outbox = queue
  sound : Sound queue
  processed : d.processed.length ≤ processedIdsCap

theorem holds_append {item : DeliveredItem} (h : Holds queue d) : Holds queue (d.apply (.append item)) := by
  simp only [Disk.apply]
  exact ⟨h.outbox, h.sound, h.processed⟩

theorem holds_mark {ids : List String} (h : Holds queue d)
    (hids : ids.length ≤ processedIdsCap) : Holds queue (d.apply (.mark ids)) := by
  exact ⟨h.outbox, h.sound, hids⟩

theorem save_triple {P : Disk → Prop} {queue queue' : List PendingDelivery} (hP : ∀ d, P d → Holds queue d)
    (hsound : Sound queue') (hkept : ∀ d, P d → ∀ e ∈ queue,
      (e.sourceId ∈ d.processed ∧ e.sourceId ∉ queue'.map PendingDelivery.sourceId) ∨ ∃ e' ∈ queue', Kept e e') :
    Triple (Allowed sha256 v) P (Work.emit (.save queue')) (fun _ d => Holds queue' d) :=
  Triple.emit (fun d hd => ⟨hsound, (hP d hd).outbox.symm ▸ hkept d hd⟩) (fun d hd => ⟨rfl, hsound, (hP d hd).processed⟩)

theorem modify_triple 
    (hid : ∀ e, (f e).sourceId = e.sourceId) (hf : ∀ e, queue[index]? = some e → Kept e (f e))
    (hok : Sound queue → ∀ e, queue[index]? = some e → ∀ key outcome, (f e).succeeded.get key = some outcome → outcome.ok = true) :
    Triple (Allowed sha256 v) (Holds queue) (Work.emit (.save (queue.modify index f)))
      (fun _ d => Holds (queue.modify index f) d) := by
  refine Triple.of_forall (fun d hd => ?_)
  exact save_triple (fun d' hd' => hd' ▸ hd) (hd.sound.modify hid (hok hd.sound))
    (fun _ _ e he => .inr (kept_modify hf e he))

theorem marked_ids {processed ids : List String} {id : String} (h : processed.length ≤ processedIdsCap)
    (hids : ids = if processed.contains id then processed else processed ++ [id]) :
    (ids.drop (ids.length - processedIdsCap)).length ≤ processedIdsCap ∧ id ∈ ids.drop (ids.length - processedIdsCap) ∧
      ∀ id' ∈ ids.drop (ids.length - processedIdsCap), id' ∉ processed → id' = id := by
  have hlength : (ids.drop (ids.length - processedIdsCap)).length ≤ processedIdsCap := by
    rw [length_drop]
    omega
  refine ⟨hlength, ?_, fun id' hid' hnew => ?_⟩
  · split at hids
    · rename_i hin
      rw [hids, Nat.sub_eq_zero_of_le h]
      exact contains_iff_mem.1 hin
    · have hfew : ids.length - processedIdsCap ≤ processed.length := by
        rw [hids, length_append, length_singleton]
        have : 0 < processedIdsCap := by decide
        omega
      rw [hids] at hfew ⊢
      rw [drop_append_of_le_length hfew]
      exact mem_append_right _ (mem_singleton.2 rfl)
  · have hmem := mem_of_mem_drop hid'
    split at hids
    · rw [hids] at hmem
      exact absurd hmem hnew
    · rw [hids] at hmem
      exact mem_singleton.1 ((mem_append.1 hmem).resolve_left hnew)

theorem mark_triple {P : Disk → Prop} {id : String} (hP : ∀ d, P d → Holds queue d)
    (hwhy : (∃ entry ∈ queue, entry.sourceId = id ∧ Receipted sha256 v.sinks entry) ∨
      (id ∉ queue.map PendingDelivery.sourceId ∧ ∃ candidates, v.candidates = .ok candidates ∧ ⟨id, none⟩ ∈ candidates)) :
    Triple (Allowed sha256 v) P (markProcessed [id]) (fun _ d => Holds queue d ∧ id ∈ d.processed) := by
  unfold markProcessed
  refine Triple.bind (Triple.read (Q := fun d₀ d => d = d₀ ∧ Holds queue d) (fun d hd => ⟨rfl, hP d hd⟩)) (fun d₀ => ?_)
  refine Triple.emit (fun d hd => ?_) (fun d hd => ?_)
  · obtain ⟨rfl, hd⟩ := hd
    obtain ⟨hlength, -, hnew⟩ := @marked_ids _ _ id hd.processed rfl
    refine ⟨hlength, fun id' hid' hfresh => ?_⟩
    rw [hnew id' hid' hfresh, hd.outbox]
    exact hwhy
  · obtain ⟨rfl, hd⟩ := hd
    obtain ⟨hlength, hmem, -⟩ := @marked_ids _ _ id hd.processed rfl
    refine ⟨holds_mark hd hlength, ?_⟩
    simp only [Durable.apply, Disk.apply]
    exact hmem

theorem attemptSinks_triple (attempted index : Nat) : ∀ (sinks : List SinkConfig) (position : Nat)
    (occurrences : Table String Nat) (queue : List PendingDelivery),
    Triple (Allowed sha256 v) (Holds queue) (attemptSinks sha256 v attempted index position occurrences queue sinks)
      (fun r d => Holds r.1 d ∧ ∀ entry', r.1[index]? = some entry' → ∃ entry, queue[index]? = some entry ∧ Kept entry entry' ∧
        (r.2.all SinkOutcome.ok = true → ∀ key ∈ sinkKeys sha256 occurrences sinks,
          ∃ outcome, entry'.succeeded.get key = some outcome ∧ outcome.ok = true))
  | [], position, occurrences, queue =>
    Triple.pure (fun d hd => ⟨hd, fun entry hentry => ⟨entry, hentry, Kept.refl entry, fun _ _ h => (not_mem_nil h).elim⟩⟩)
  | sink :: sinks, position, occurrences, queue => by
    have ih := attemptSinks_triple attempted index sinks
    unfold attemptSinks
    simp only
    split
    · exact Triple.fail
    · rename_i entry hentry
      split
      · rename_i previous hprevious
        refine Triple.bind (ih _ _ _) (fun r => Triple.pure (fun d hd => ⟨hd.1, fun entry' hentry' => ?_⟩))
        obtain ⟨entry₀, hget, hkept, hkeys⟩ := hd.2 entry' hentry'
        rw [hentry] at hget
        cases hget
        refine ⟨entry, hentry, hkept, fun hall key hkey => ?_⟩
        rw [all_cons, Bool.and_eq_true] at hall
        rcases mem_cons.1 hkey with rfl | hkey
        · exact ⟨previous, hkept.receipts _ _ hprevious, hall.1⟩
        · exact hkeys hall.2 key hkey
      · rename_i hnone
        -- The send is made while the saved entry has no receipt for it.
        refine Triple.bind (Q := fun _ d => Holds queue d) (Triple.emit (fun d hd => ?_) (fun d hd => hd)) (fun _ => ?_)
        · refine ⟨entry, ?_, rfl, hnone⟩
          rw [hd.outbox]
          exact mem_of_getElem? hentry
        · split
          · rename_i hok
            have hkept : Kept entry { entry with
                succeeded := entry.succeeded.insert (receiptKey (digest sha256 sink) ((occurrences.get (digest sha256 sink)).getD 0))
                  ((v.deliver attempted position).getD (timedOut sink)) } := by
              refine ⟨rfl, rfl, rfl, fun key outcome hget => ?_⟩
              refine (Table.get_insert_ne ?_ _ _).trans hget
              rintro rfl
              rw [hnone] at hget
              cases hget
            refine Triple.bind (modify_triple (fun e => rfl) (fun e he => ?_) (fun hsound e he key outcome hget => ?_)) (fun _ => ?_)
            · rw [hentry] at he
              cases he
              exact hkept
            · rcases Table.of_get_insert hget with ⟨-, rfl⟩ | ⟨-, hget⟩
              · exact hok
              · exact hsound.receipts e (mem_of_getElem? he) key outcome hget
            · refine Triple.bind (ih _ _ _) (fun r => Triple.pure (fun d hd => ⟨hd.1, fun entry' hentry' => ?_⟩))
              obtain ⟨entry₀, hget, hkept', hkeys⟩ := hd.2 entry' hentry'
              rw [getElem?_modify_self hentry] at hget
              cases hget
              refine ⟨entry, hentry, hkept.trans hkept', fun hall key hkey => ?_⟩
              rw [all_cons, Bool.and_eq_true] at hall
              rcases mem_cons.1 hkey with rfl | hkey
              · exact ⟨_, hkept'.receipts _ _ (Table.get_insert_self _ _ _), hall.1⟩
              · exact hkeys hall.2 key hkey
          · rename_i hbad
            refine Triple.bind (ih _ _ _) (fun r => Triple.pure (fun d hd => ⟨hd.1, fun entry' hentry' => ?_⟩))
            obtain ⟨entry₀, hget, hkept, -⟩ := hd.2 entry' hentry'
            refine ⟨entry₀, hget, hkept, fun hall => ?_⟩
            rw [all_cons, Bool.and_eq_true] at hall
            exact absurd hall.1 hbad

theorem attempt_triple (attempted : Nat) (queue : List PendingDelivery) (index : Nat) :
    Triple (Allowed sha256 v) (Holds queue) (attempt sha256 v attempted queue index) (fun r d => Holds r.1 d) := by
  unfold attempt
  split
  · exact Triple.fail
  · rename_i hsinks
    refine Triple.bind (modify_triple (fun e => rfl) (fun e _ => ⟨rfl, rfl, rfl, fun _ _ h => h⟩)
      (fun hsound e he key outcome hget => hsound.receipts e (mem_of_getElem? he) key outcome hget)) (fun _ => ?_)
    refine Triple.bind (attemptSinks_triple attempted index v.sinks 0 ∅ _) (fun r => ?_)
    obtain ⟨queue', outcomes⟩ := r
    simp only
    split
    · exact Triple.fail
    · rename_i entry hentry
      split
      · rename_i hall
        -- Every occurrence has its receipt in the saved entry: it is marked, then removed.
        refine Triple.of_forall (fun d hd => ?_)
        have hreceipted : Receipted sha256 v.sinks entry := by
          obtain ⟨-, -, -, hkeys⟩ := hd.2 entry hentry
          exact ⟨fun hnil => hsinks (by rw [hnil]; rfl), hkeys hall⟩
        have hmem : entry ∈ queue' := mem_of_getElem? hentry
        refine Triple.bind (mark_triple (fun d' hd' => hd' ▸ hd.1) (.inl ⟨entry, hmem, rfl, hreceipted⟩)) (fun _ => ?_)
        refine Triple.bind (save_triple (fun d' hd' => hd'.1) (hd.1.sound.eraseIdx index) (fun d' hd' e he => ?_))
          (fun _ => Triple.pure (fun d' hd' => hd'))
        by_cases hid : e.sourceId = entry.sourceId
        · refine .inl ⟨hid ▸ hd'.2, ?_⟩
          rw [hid]
          exact not_mem_eraseIdx hd.1.sound hentry
        · exact .inr ⟨e, mem_eraseIdx_of_ne he hentry hid, Kept.refl e⟩
      · exact Triple.pure fun d hd => hd.1

theorem deliverQueued_triple (attempted : Nat) (queue : List PendingDelivery) (index : Nat) :
    Triple (Allowed sha256 v) (Holds queue) (deliverQueued sha256 v attempted queue index) (fun r d => Holds r.1 d) := by
  refine Triple.bind (attempt_triple attempted queue index) (fun r => ?_)
  refine Triple.bind (Q := fun _ d => Holds r.1 d) (Triple.emit (fun _ _ => trivial) (fun d hd => holds_append hd))
    (fun _ => Triple.pure (fun d hd => hd))

theorem enqueue_triple {sourceId : String} (article : Article) (outcome : TransformOutcome)
    (hnew : sourceId ∉ queue.map PendingDelivery.sourceId) :
    Triple (Allowed sha256 v) (Holds queue) (enqueue queue sourceId article outcome) (fun r d => Holds r d) := by
  unfold enqueue
  split
  · exact Triple.pure (fun d hd => hd)
  · split
    · exact Triple.fail
    · refine Triple.of_forall (fun d hd => ?_)
      refine Triple.bind (save_triple (fun d' hd' => hd' ▸ hd) (hd.sound.snoc hnew rfl)
        (fun _ _ e he => .inr ⟨e, mem_append_left _ he, Kept.refl e⟩)) (fun _ => Triple.pure (fun d' hd' => hd'))

theorem retryAll_triple : ∀ (ids : List String) (p : Progress),
    Triple (Allowed sha256 v) (Holds p.queue) (retryAll sha256 v ids p) (fun r d => Holds r.queue d)
  | [], p => Triple.pure (fun d hd => hd)
  | id :: ids, p => by
    unfold retryAll
    split
    · exact Triple.fail
    · refine Triple.bind (deliverQueued_triple _ _ _) (fun r => ?_)
      obtain ⟨queue, complete⟩ := r
      exact retryAll_triple ids (p.attempt queue complete)

theorem importAll_triple {candidates : List Candidate} (hall : v.candidates = .ok candidates) :
    ∀ (rest : List Candidate) (p : Progress), (∀ c ∈ rest, c ∈ candidates) →
    Triple (Allowed sha256 v) (Holds p.queue) (importAll sha256 v rest p) (fun r d => Holds r.queue d)
  | [], p, _ => Triple.pure (fun d hd => hd)
  | candidate :: rest, p, hrest => by
    have hmem := hrest candidate mem_cons_self
    have htail := fun c hc => hrest c (mem_cons_of_mem _ hc)
    unfold importAll
    split
    · exact Triple.pure (fun d hd => hd)
    · split
      · exact importAll_triple hall rest p htail
      · rename_i hnot
        have hnew : candidate.id ∉ p.queue.map PendingDelivery.sourceId := by
          intro hin
          obtain ⟨e, he, hid⟩ := mem_map.1 hin
          exact hnot (any_eq_true.2 ⟨e, he, beq_iff_eq.2 hid⟩)
        split
        · rename_i article harticle
          refine Triple.bind (Triple.lift (Q := fun _ d => Holds p.queue d) (fun _ _ _ hd => hd)) (fun outcome => ?_)
          refine Triple.bind (enqueue_triple article outcome hnew) (fun queue => ?_)
          refine Triple.bind (deliverQueued_triple _ _ _) (fun r => ?_)
          obtain ⟨queue', complete⟩ := r
          exact importAll_triple hall rest ({ p with fetched := p.fetched + 1 }.attempt queue' complete) htail
        · rename_i hnone
          have hcandidate : (⟨candidate.id, none⟩ : Candidate) ∈ candidates := by
            rw [← hnone]
            exact hmem
          refine Triple.bind (mark_triple (fun _ hd => hd) (.inr ⟨hnew, candidates, hall, hcandidate⟩)) (fun _ => ?_)
          exact (importAll_triple hall rest { p with attempted := p.attempted + 1 } htail).mono (fun d' hd' => hd'.1)
            fun _ _ h => h

theorem runPipelineWork_triple : Triple (Allowed sha256 v) Disk.Sound (runPipelineWork sha256 v) (fun _ _ => True) := by
  unfold runPipelineWork
  split
  · exact Triple.fail
  · refine Triple.bind (Triple.read (Q := fun d₀ d => d = d₀ ∧ d.Sound) (fun d hd => ⟨rfl, hd⟩)) (fun d₀ => ?_)
    refine Triple.of_forall (fun d hd => ?_)
    obtain ⟨rfl, hsound⟩ := hd
    have hholds : Holds d.outbox d := ⟨rfl, hsound.outbox, hsound.processed⟩
    refine Triple.bind (save_triple (fun d' hd' => (by rw [hd']; exact hholds : Holds d.outbox d')) hsound.outbox.pending
      (fun d' hd' e he => ?_)) (fun _ => ?_)
    · subst hd'
      by_cases hin : e.sourceId ∈ d'.processed
      · refine .inl ⟨hin, fun hmem => ?_⟩
        obtain ⟨e', he', hid⟩ := mem_map.1 hmem
        exact (mem_pendingOf.1 he').2 (hid ▸ hin)
      · exact .inr ⟨e, mem_pendingOf.2 ⟨he, hin⟩, Kept.refl e⟩
    · refine Triple.bind (retryAll_triple _ ⟨pendingOf d, 0, false, 0, 0⟩) (fun p => ?_)
      split
      · exact Triple.fail
      · refine Triple.bind (Triple.lift (Q := fun _ d => Holds p.queue d) (fun _ _ _ hd => hd)) (fun _ => ?_)
        refine Triple.bind (Triple.lift (Q := fun candidates d => v.candidates = .ok candidates ∧ Holds p.queue d)
          (fun _ _ h hd => ⟨h, hd⟩)) (fun candidates => ?_)
        refine Triple.assume (fun hall => ?_)
        refine Triple.bind (importAll_triple hall candidates p (fun _ hc => hc)) (fun r => ?_)
        split
        · exact Triple.fail
        · exact Triple.pure fun _ _ => trivial

end Steps

/-! ## Any sequence of runs -/

instance : Durable Disk (Visit × Event) := ⟨fun d e => d.apply e.2⟩

theorem after_map (v : Visit) : ∀ (es : List Event) (d : Disk), after d (es.map (fun e => (v, e))) = after d es
  | [], _ => rfl
  | e :: es, d => by
    rw [map_cons, Journal.after_cons, after_map v es]
    rfl

section Histories
variable (sha256 : SinkConfig → List UInt8)

def Rule (d : Disk) (e : Visit × Event) : Prop := Allowed sha256 e.1 d e.2

theorem allows_map {v : Visit} : ∀ {es : List Event} {d : Disk}, Allows (Allowed sha256 v) d es →
    Allows (Rule sha256) d (es.map (fun e => (v, e)))
  | [], _, _ => trivial
  | _ :: _, _, h => ⟨h.1, allows_map h.2⟩

theorem history_allows : ∀ (runs : List (Visit × Nat)) {d : Disk}, d.Sound → Allows (Rule sha256) d (history sha256 d runs)
  | [], _, _ => trivial
  | (v, n) :: runs, d, h => by
    have hrun := ((@runPipelineWork_triple sha256 v) d h).1.take n
    refine allows_append.2 ⟨allows_map sha256 hrun, ?_⟩
    rw [after_map]
    exact history_allows runs (Journal.Allows.invariant (fun _ _ hd he => hd.apply sha256 he) h hrun)

theorem empty_sound : Disk.empty.Sound := ⟨⟨nodup_nil, fun _ h => (not_mem_nil h).elim⟩, Nat.zero_le _⟩

variable {sha256}

theorem sound_after {es : List (Visit × Event)} (h : d.Sound) (hes : Allows (Rule sha256) d es) :
    (after d es).Sound := Journal.Allows.invariant (fun _ e hd he => hd.apply sha256 (v := e.1) he) h hes

theorem kept_apply {v : Visit} {e : Event} (he : Allowed sha256 v d e)
    (hentry : entry ∈ d.outbox) : (entry.sourceId ∈ d.processed ∧ entry.sourceId ∉ (d.apply e).outbox.map PendingDelivery.sourceId) ∨
      ∃ entry' ∈ (d.apply e).outbox, Kept entry entry' := by
  cases e with
  | save queue => exact he.2 entry hentry
  | mark ids | deliver id key => exact .inr ⟨entry, hentry, Kept.refl entry⟩
  | append item =>
    refine .inr ⟨entry, ?_, Kept.refl entry⟩
    simp only [Disk.apply]
    exact hentry

theorem kept_after : ∀ {es : List (Visit × Event)} {d : Disk}, Allows (Rule sha256) d es → ∀ entry ∈ d.outbox,
    (∃ es', es' <+: es ∧ entry.sourceId ∈ (after d es').processed) ∨ ∃ entry' ∈ (after d es).outbox, Kept entry entry'
  | [], _, _, entry, hentry => .inr ⟨entry, hentry, Kept.refl entry⟩
  | (v, e) :: es, d, h, entry, hentry => by
    rcases kept_apply h.1 hentry with ⟨hprocessed, -⟩ | ⟨entry', hentry', hkept⟩
    · exact .inl ⟨[], nil_prefix, hprocessed⟩
    · rcases kept_after h.2 entry' hentry' with ⟨es', hstarts, hprocessed⟩ | ⟨entry'', hentry'', hkept'⟩
      · exact .inl ⟨(v, e) :: es', cons_prefix_cons.2 ⟨rfl, hstarts⟩, hkept.sourceId ▸ hprocessed⟩
      · exact .inr ⟨entry'', hentry'', hkept.trans hkept'⟩

theorem receipt_after : ∀ {es : List (Visit × Event)} {d : Disk}, Allows (Rule sha256) d es → ∀ entry ∈ d.outbox,
    (∀ es', es' <+: es → entry.sourceId ∈ (after d es').outbox.map PendingDelivery.sourceId) →
    ∃ entry' ∈ (after d es).outbox, Kept entry entry'
  | [], _, _, entry, hentry, _ => ⟨entry, hentry, Kept.refl entry⟩
  | (v, e) :: es, d, h, entry, hentry, hqueued => by
    rcases kept_apply h.1 hentry with ⟨-, hgone⟩ | ⟨entry', hentry', hkept⟩
    · exact absurd (hqueued [(v, e)] (cons_prefix_cons.2 ⟨rfl, nil_prefix⟩)) hgone
    · obtain ⟨entry'', hentry'', hkept'⟩ := receipt_after h.2 entry' hentry' (fun es' hstarts => by
        rw [hkept.sourceId]
        exact hqueued ((v, e) :: es') (cons_prefix_cons.2 ⟨rfl, hstarts⟩))
      exact ⟨entry'', hentry'', hkept.trans hkept'⟩

theorem eq_of_sourceId (h : Sound queue) {a b : PendingDelivery} (ha : a ∈ queue) (hb : b ∈ queue)
    (hid : a.sourceId = b.sourceId) : a = b := inj_on_of_nodup_map h.nodup ha hb hid

theorem processed_apply {v : Visit} {e : Event} (he : Allowed sha256 v d e) {id : String} (hnew : id ∉ d.processed)
    (hin : id ∈ (d.apply e).processed) :
    (∃ entry ∈ d.outbox, entry.sourceId = id ∧ Receipted sha256 v.sinks entry) ∨
      (id ∉ d.outbox.map PendingDelivery.sourceId ∧ ∃ candidates, v.candidates = .ok candidates ∧ ⟨id, none⟩ ∈ candidates) := by
  cases e with
  | save queue | deliver id key => exact absurd hin hnew
  | mark ids => exact he.2 id hin hnew
  | append item =>
    simp only [Disk.apply] at hin
    exact absurd hin hnew

/-! ## Receipt keys -/

theorem colon_notMem_digest (sink : SinkConfig) : ':' ∉ (digest sha256 sink).toList := by
  unfold digest
  rw [String.toList_ofList, mem_flatMap]
  rintro ⟨b, -, hb⟩
  have hdigit : ∀ n < 16, Nat.digitChar n ≠ ':' := by decide
  have hb256 : b.toNat < 256 := b.toNat_lt
  rcases mem_cons.1 hb with hb | hb
  · exact hdigit _ (by omega) hb.symm
  · exact hdigit _ (by omega) (mem_singleton.1 hb).symm

theorem receiptKey_inj {a b : String} {m n : Nat} (ha : ':' ∉ a.toList) (hb : ':' ∉ b.toList)
    (h : receiptKey a m = receiptKey b n) : a = b ∧ m = n := by
  have hlist := congrArg String.toList h
  unfold receiptKey at hlist
  rw [String.toList_append, String.toList_append, String.toList_append, String.toList_append, append_assoc,
    append_assoc, show (toString m).toList = Nat.toDigits 10 m from String.toList_ofList,
    show (toString n).toList = Nat.toDigits 10 n from String.toList_ofList] at hlist
  obtain ⟨hab, hmn⟩ := Lines.cut_inj ha hb hlist
  have hmn : Nat.toDigits 10 m = Nat.toDigits 10 n := hmn
  refine ⟨String.toList_inj.1 hab, ?_⟩
  have hvalue := congrArg (fun l => Nat.ofDigitChars 10 l 0) hmn
  simpa only [Nat.ofDigitChars_ten_toDigits] using hvalue

theorem sinkKeys_spec : ∀ (sinks : List SinkConfig) (occurrences : Table String Nat),
    (sinkKeys sha256 occurrences sinks).Nodup ∧ ∀ key ∈ sinkKeys sha256 occurrences sinks, ∃ sink n,
      key = receiptKey (digest sha256 sink) n ∧ (occurrences.get (digest sha256 sink)).getD 0 ≤ n
  | [], _ => ⟨nodup_nil, fun _ h => (not_mem_nil h).elim⟩
  | sink :: sinks, occurrences => by
    obtain ⟨hnodup, hkeys⟩ := sinkKeys_spec sinks
      (occurrences.insert (digest sha256 sink) ((occurrences.get (digest sha256 sink)).getD 0 + 1))
    refine ⟨nodup_cons.2 ⟨fun hmem => ?_, hnodup⟩, fun key hkey => ?_⟩
    · obtain ⟨sink', n, hkey, hn⟩ := hkeys _ hmem
      obtain ⟨hdigest, rfl⟩ := receiptKey_inj (colon_notMem_digest sink) (colon_notMem_digest sink') hkey
      rw [← hdigest, Table.get_insert_self] at hn
      exact Nat.not_succ_le_self _ hn
    · rcases mem_cons.1 hkey with rfl | hkey
      · exact ⟨sink, _, rfl, Nat.le_refl _⟩
      · obtain ⟨sink', n, rfl, hn⟩ := hkeys key hkey
        refine ⟨sink', n, rfl, ?_⟩
        rw [Table.get_insert] at hn
        split at hn
        · rename_i heq
          rw [heq]
          exact Nat.le_of_succ_le hn
        · exact hn

/-! ## Delivery -/

/-- **Items are delivered at least once and never marked early**, in every sequence of runs, each stopped after any
number of its effects: a queued item stays queued with its receipts until it is processed, is processed with the
receipt of every occurrence of every sink, and an occurrence with a receipt is not sent to again. -/
theorem delivered_at_least_once (sha256 : SinkConfig → List UInt8) (runs : List (Visit × Nat)) (n : Nat) :
    let es := history sha256 Disk.empty runs
    let d := after Disk.empty (es.take n)
    (d.outbox.map PendingDelivery.sourceId).Nodup ∧
    (∀ m, ∀ entry ∈ d.outbox, (∃ k ≤ m, entry.sourceId ∈ (after d ((es.drop n).take k)).processed) ∨
      ∃ entry' ∈ (after d ((es.drop n).take m)).outbox, Kept entry entry') ∧
    (∀ v e, es[n]? = some (v, e) → ∀ id, id ∉ d.processed → id ∈ (d.apply e).processed →
      (∃ entry ∈ d.outbox, entry.sourceId = id ∧ v.sinks ≠ [] ∧
        ∀ key ∈ sinkKeys sha256 ∅ v.sinks, ∃ outcome, entry.succeeded.get key = some outcome ∧ outcome.ok = true) ∨
      (id ∉ d.outbox.map PendingDelivery.sourceId ∧ ∃ candidates, v.candidates = .ok candidates ∧ ⟨id, none⟩ ∈ candidates)) ∧
    (∀ m v id key, es[n + m]? = some (v, .deliver id key) → ∀ entry ∈ d.outbox, entry.sourceId = id →
      (∀ k ≤ m, id ∈ (after d ((es.drop n).take k)).outbox.map PendingDelivery.sourceId) →
      entry.succeeded.get key = none) ∧
    ∀ sinks, (sinkKeys sha256 ∅ sinks).Nodup := by
  intro es d
  have hallows : Allows (Rule sha256) Disk.empty es := history_allows sha256 runs empty_sound
  obtain ⟨hpre, hpost⟩ := allows_append.1 (by rw [take_append_drop n es]; exact hallows)
  have hsound : d.Sound := sound_after empty_sound hpre
  refine ⟨hsound.outbox.nodup, fun m entry hentry => ?_, fun v e he id hnew hin => ?_,
    fun m v id key he entry hentry hid hqueued => ?_, fun sinks => (sinkKeys_spec sinks ∅).1⟩
  · rcases kept_after (hpost.take m) entry hentry with ⟨es', hstarts, hprocessed⟩ | hkept
    · refine .inl ⟨es'.length, ?_, ?_⟩
      · exact hstarts.length_le.trans (length_take_le _ _)
      · rw [prefix_iff_eq_take.1 (hstarts.trans ( take_prefix _ _))] at hprocessed
        exact hprocessed
    · exact .inr hkept
  · have hhead : (es.drop n)[0]? = some (v, e) := by rw [getElem?_drop]; exact he
    cases hrest : es.drop n with
    | nil =>
      rw [hrest] at hhead
      cases hhead
    | cons x rest =>
      rw [hrest] at hhead hpost
      cases hhead
      exact processed_apply hpost.1 hnew hin
  · -- The send is allowed where the saved entry has no receipt, and that entry has all that `entry` had.
    have hsplit : es.drop n = (es.drop n).take m ++ (v, .deliver id key) :: (es.drop n).drop (m + 1) := by
      have hlt : m < (es.drop n).length := by
        have := (List.getElem?_eq_some_iff.1 he).1
        rw [length_drop]
        omega
      have hget : (es.drop n)[m] = (v, .deliver id key) := by
        rw [getElem_drop]
        exact (List.getElem?_eq_some_iff.1 he).2
      rw [← hget, ← drop_eq_getElem_cons hlt, take_append_drop]
    rw [hsplit] at hpost
    obtain ⟨hmid, hsend⟩ := allows_append.1 hpost
    obtain ⟨entry', hentry', hkept⟩ := receipt_after hmid entry hentry (fun es' hstarts => by
      rw [prefix_iff_eq_take.1 (hstarts.trans ( take_prefix _ _)), hid]
      exact hqueued es'.length (hstarts.length_le.trans (length_take_le _ _)))
    obtain ⟨entry'', hentry'', hid'', hnone⟩ := hsend.1
    have heq : entry'' = entry' := eq_of_sourceId (sound_after hsound hmid).outbox hentry'' hentry'
      (by rw [hid'', hkept.sourceId, hid])
    cases hget : entry.succeeded.get key with
    | none => rfl
    | some outcome =>
      rw [heq, hkept.receipts key outcome hget] at hnone
      cases hnone

end Histories

def twoSinks (deliver : Nat → Nat → Option SinkOutcome) (candidates : List Candidate) : Visit where
  pipelineId := "pipeline"
  sinks := [.chatPost "a", .chatPost "a"]
  now := fun _ => 1
  deliveredAt := fun _ => ""
  deliver := deliver
  resolves := .ok ()
  candidates := .ok candidates
  transform := fun _ _ => .ok ⟨none, none, none, none⟩

/-- The first run imports an item and reaches one of the sinks, the second retries. -/
def retriedRuns : List (Visit × Nat) :=
  [(twoSinks (fun _ position => if position = 0 then some ⟨"chat-post", "a", true, none⟩ else none)
      [⟨"wire-id", some ⟨"body-id", "title", "", "", [], "", 0⟩⟩], 7),
    (twoSinks (fun _ _ => some ⟨"chat-post", "a", true, none⟩) [], 7)]

theorem delivered_at_least_once_retried : (∃ v, (history (fun _ => []) Disk.empty retriedRuns)[11]? = some (v, .mark ["wire-id"]) ∧
      (history (fun _ => []) Disk.empty retriedRuns)[9]? = some (v, .deliver "wire-id" ":1")) ∧
    ∃ entry ∈ (after Disk.empty ((history (fun _ => []) Disk.empty retriedRuns).take 11)).outbox, entry.sourceId = "wire-id" ∧
      ∀ key ∈ [":0", ":1"], ∃ outcome, entry.succeeded.get key = some outcome ∧ outcome.ok = true := by
  obtain ⟨-, -, hmark, -⟩ := delivered_at_least_once (fun _ => []) retriedRuns 11
  refine ⟨⟨_, rfl, rfl⟩, ?_⟩
  rcases hmark _ (.mark ["wire-id"]) rfl "wire-id" (by decide) (by decide) with
    ⟨entry, hentry, hid, -, hkeys⟩ | ⟨hnot, -⟩
  · exact ⟨entry, hentry, hid, hkeys⟩
  · exact absurd (by decide) hnot

end Mistl.Bot
