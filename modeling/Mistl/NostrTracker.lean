import Mathlib.Data.Finset.Card
import Mathlib.Data.List.Nodup
import Mathlib.Data.List.Range
import Mistl.Lib.Machine
/-!
# NostrTracker — the numbered live stream of a room's leader

`Tracker`: the leader numbers the events it sends in its epoch, a follower keeps the next number it expects and one
gap it has asked for.
-/
open List

namespace Mistl.Nostr

def maxPageEvents : Nat := 500
def fetchTimeout : Nat := 10000

abbrev Bytes := List UInt8

/-! ## The follower -/

structure PendingFetch where
  next : Nat
  end_ : Nat
  seen : Finset Nat
  deadline : Nat
  resync : Bool

structure Tracker where
  epoch : Option String := none
  next : Nat := 0
  last : Nat := 0
  fetch : Option PendingFetch := none

inductive TrackerAction where
  | none
  | sync
  | fetch (start : Nat)

/-- The loop of `on_seq` that takes what was seen off the front of a gap; `fuel` bounds what it can take. -/
def advance : Nat → Nat → Finset Nat → Nat × Finset Nat
  | 0, next, seen => (next, seen)
  | fuel + 1, next, seen => if next ∈ seen then advance fuel (next + 1) (seen.erase next) else (next, seen)

namespace PendingFetch

def Takes (f : PendingFetch) (n : Nat) : Prop := f.next ≤ n ∧ n ≤ f.end_ ∧ f.seen.card < maxPageEvents

instance (f : PendingFetch) (n : Nat) : Decidable (f.Takes n) := by unfold Takes; infer_instance

def see (f : PendingFetch) (n : Nat) : PendingFetch := if f.Takes n then
    let r := advance (insert n f.seen).card f.next (insert n f.seen)
    { f with next := r.1, seen := r.2 }
  else f

/-- What `on_seq` leaves of the fetch in flight, `next` being the number expected. -/
def onSeq (f : PendingFetch) (next n : Nat) : Option PendingFetch :=
  let f := { f.see n with resync := f.resync || decide (next < n) }
  if f.end_ < f.next ∧ f.resync = false then none else some f

end PendingFetch

namespace Tracker

def onSeq (t : Tracker) (epoch : String) (n now : Nat) : Tracker × TrackerAction :=
  if t.epoch ≠ some epoch then (⟨some epoch, satAdd n 1, n, none⟩, .sync)
  else
    let fetch := t.fetch.bind (fun f => f.onSeq t.next n)
    if n < t.next then ({ t with fetch }, .none)
    else if t.next < n ∧ fetch = none then
      (⟨t.epoch, satAdd n 1, n, some ⟨t.next, n - 1, ∅, now + fetchTimeout, false⟩⟩, .fetch t.next)
    else (⟨t.epoch, satAdd n 1, n, fetch⟩, .none)

def expired (t : Tracker) (now : Nat) : Tracker × Bool :=
  if t.fetch.any (fun f => decide (f.deadline ≤ now)) then ({ t with fetch := none }, true) else (t, false)

/-- A number is new to the tracker: it opens an epoch, is at or past the number expected, or fills the gap asked for. -/
def IsNew (t : Tracker) (epoch : String) (n : Nat) : Prop := t.epoch ≠ some epoch ∨ t.next ≤ n ∨ ∃ f ∈ t.fetch, f.Takes n ∧ n ∉ f.seen

instance (t : Tracker) (epoch : String) (n : Nat) : Decidable (t.IsNew epoch n) := by
  unfold IsNew
  cases h : t.fetch with
  | none => exact decidable_of_iff (t.epoch ≠ some epoch ∨ t.next ≤ n) (by simp)
  | some f => exact decidable_of_iff (t.epoch ≠ some epoch ∨ t.next ≤ n ∨ (f.Takes n ∧ n ∉ f.seen)) (by simp)

end Tracker

/-- What happens at a follower: a numbered message of one epoch arrives, or the timer asks about the fetch. -/
inductive Turn where
  | message (n now : Nat)
  | poll (now : Nat)

def numbers : List Turn → List Nat
  | [] => []
  | .message n _ :: turns => n :: numbers turns
  | .poll _ :: turns => numbers turns

namespace Tracker

variable (epoch : String)

def turn (t : Tracker) : Turn → Tracker
  | .message n now => (t.onSeq epoch n now).1
  | .poll now => (t.expired now).1

def feed (t : Tracker) (turns : List Turn) : Tracker := turns.foldl (turn epoch) t

def Quiet : Tracker → List Turn → Prop
  | _, [] => True
  | t, .message n now :: turns => Quiet (t.onSeq epoch n now).1 turns
  | t, .poll now :: turns => (t.expired now).2 = false ∧ Quiet t turns

def news : Tracker → List Turn → List Nat
  | _, [] => []
  | t, .message n now :: turns =>
    if t.IsNew epoch n then n :: news (t.onSeq epoch n now).1 turns else news (t.onSeq epoch n now).1 turns
  | t, .poll now :: turns => news (t.expired now).1 turns

end Tracker

/-! ## One gap -/

theorem advance_spec : ∀ (fuel next : Nat) (seen : Finset Nat), seen.card ≤ fuel →
    next ≤ (advance fuel next seen).1 ∧ (advance fuel next seen).1 ∉ (advance fuel next seen).2 ∧
    (∀ k, next ≤ k → k < (advance fuel next seen).1 → k ∈ seen) ∧
    ∀ k, k ∈ (advance fuel next seen).2 ↔ k ∈ seen ∧ ¬(next ≤ k ∧ k < (advance fuel next seen).1)
  | 0, next, seen, h => by
    have hs : seen = ∅ := Finset.card_eq_zero.1 (Nat.le_zero.1 h)
    subst hs
    refine ⟨le_rfl, Finset.notMem_empty _, fun k h1 h2 => absurd (h1.trans_lt h2) (lt_irrefl _), fun k => ?_⟩
    simp [advance]
  | fuel + 1, next, seen, h => by
    unfold advance
    by_cases hn : next ∈ seen
    · rw [if_pos hn]
      have hcard : (seen.erase next).card ≤ fuel := by rw [Finset.card_erase_of_mem hn]; omega
      obtain ⟨h1, h2, h3, h4⟩ := advance_spec fuel (next + 1) (seen.erase next) hcard
      refine ⟨by omega, h2, fun k hk hlt => ?_, fun k => ?_⟩
      · by_cases hkn : k = next
        · rw [hkn]; exact hn
        · exact Finset.mem_of_mem_erase (h3 k (by omega) hlt)
      · rw [h4, Finset.mem_erase]
        constructor
        · rintro ⟨⟨hne, hk⟩, hout⟩
          exact ⟨hk, fun hin => hout ⟨by omega, hin.2⟩⟩
        · rintro ⟨hk, hout⟩
          exact ⟨⟨fun he => hout (by omega), hk⟩, fun hin => hout ⟨by omega, hin.2⟩⟩
    · rw [if_neg hn]
      refine ⟨le_rfl, hn, fun k h1 h2 => absurd (h1.trans_lt h2) (lt_irrefl _), fun k => ?_⟩
      constructor
      · exact fun hk => ⟨hk, by omega⟩
      · exact And.left

variable {k : Nat}

namespace PendingFetch

variable (f : PendingFetch) (n : Nat)

@[simp] theorem see_end : (f.see n).end_ = f.end_ := by unfold see; split <;> rfl


theorem see_next_le : f.next ≤ (f.see n).next := by
  unfold see
  split
  · exact (advance_spec _ _ _ le_rfl).1
  · exact le_rfl

theorem see_passed (h1 : f.next ≤ k) (h2 : k < (f.see n).next) : k = n ∨ k ∈ f.seen := by
  unfold see at h2
  split at h2
  · exact Finset.mem_insert.1 ((advance_spec _ _ _ le_rfl).2.2.1 k h1 h2)
  · omega

theorem see_seen (h : k ∈ (f.see n).seen) : k = n ∨ k ∈ f.seen := by
  unfold see at h
  split at h
  · exact Finset.mem_insert.1 (((advance_spec _ _ _ le_rfl).2.2.2 k).1 h).1
  · exact Or.inr h

theorem see_keeps (hk : k ∈ f.seen ∨ (k = n ∧ f.Takes n)) (hnext : (f.see n).next ≤ k) : k ∈ (f.see n).seen := by
  unfold see at hnext ⊢
  split at hnext
  · rename_i ht
    rw [if_pos ht]
    refine ((advance_spec _ _ _ le_rfl).2.2.2 k).2 ⟨Finset.mem_insert.2 ?_, fun hin => absurd hnext (not_le.2 hin.2)⟩
    exact hk.elim Or.inr (fun h => Or.inl h.1)
  · rename_i ht
    rw [if_neg ht]
    exact hk.elim id fun h => absurd h.2 ht

theorem onSeq_cases (next : Nat) : (f.onSeq next n = none ∧ f.end_ < (f.see n).next ∧ f.resync = false ∧ n ≤ next) ∨
    (f.onSeq next n = some { f.see n with resync := f.resync || decide (next < n) }) := by
  unfold onSeq
  simp only [see_end]
  split
  · rename_i h
    simp only [Bool.or_eq_false_iff, decide_eq_false_iff_not, Nat.not_lt] at h
    exact Or.inl ⟨rfl, h.1, h.2.1, h.2.2⟩
  · exact Or.inr rfl

end PendingFetch

/-! ## The stream of one epoch -/

namespace Tracker

variable {epoch : String}

/-- What a tracker knows of the numbers that arrived in its epoch, the first of them `first`. -/
structure Follows (epoch : String) (first : Nat) (received : List Nat) (t : Tracker) : Prop where
  epoch : t.epoch = some epoch
  /-- Without a fetch nothing is missing. -/
  whole : t.fetch = none → ∀ k, first ≤ k → k < t.next → k ∈ received
  below : ∀ f, t.fetch = some f → f.end_ < t.next
  seen : ∀ f, t.fetch = some f → ∀ k ∈ f.seen, k ∈ received
  /-- With one gap asked for, and no other, all but the gap has arrived. -/
  gap : ∀ f, t.fetch = some f → f.resync = false → ∀ k, first ≤ k → k < t.next → k < f.next ∨ f.end_ < k → k ∈ received

/-- The numbers found new so far are below the one expected, and seen where they lie in the gap. -/
structure Counts (news : List Nat) (t : Tracker) : Prop where
  below : ∀ k ∈ news, k < u64Max → k < t.next
  gap : ∀ f, t.fetch = some f → ∀ k ∈ news, k < u64Max → f.next ≤ k → k ≤ f.end_ → k ∈ f.seen

theorem next_satAdd {n k : Nat} (h : k < satAdd n 1) : k ≤ n := by
  have : satAdd n 1 ≤ n + 1 := Nat.min_le_left _ _
  omega

theorem lt_satAdd {n : Nat} (h : n < u64Max) : n < satAdd n 1 := by
  unfold satAdd
  omega

variable {t : Tracker}

theorem Follows.first (hepoch : t.epoch ≠ some epoch) (n now : Nat) : Follows epoch n [n] (t.onSeq epoch n now).1 := by
  unfold onSeq
  rw [if_pos hepoch]
  refine ⟨rfl, fun _ k h1 h2 => ?_, nofun, nofun, nofun⟩
  have := next_satAdd h2
  rw [mem_singleton]
  omega

/-- What a message leaves of the fetch in flight, `next` being still the number expected before it. -/
structure Fetched (first : Nat) (received : List Nat) (next n : Nat) (fetch : Option PendingFetch) : Prop where
  whole : fetch = none → ∀ k, first ≤ k → k < next → k ∈ received
  below : ∀ f, fetch = some f → f.end_ < next
  seen : ∀ f, fetch = some f → ∀ k ∈ f.seen, k ∈ received
  gap : ∀ f, fetch = some f → f.resync = false → n ≤ next ∧ ∀ k, first ≤ k → k < next → k < f.next ∨ f.end_ < k → k ∈ received

variable {first : Nat}

theorem Follows.fetched {received : List Nat} (h : Follows epoch first received t) (n : Nat) :
    Fetched first (n :: received) t.next n (t.fetch.bind (fun f => f.onSeq t.next n)) := by
  cases hf : t.fetch with
  | none => exact ⟨fun _ k h1 h2 => mem_cons_of_mem _ (h.whole hf k h1 h2), nofun, nofun, nofun⟩
  | some f =>
    rw [Option.bind_some]
    have hpass : f.resync = false → ∀ k, first ≤ k → k < t.next → k < (f.see n).next ∨ f.end_ < k → k ∈ n :: received := by
      intro hr k h1 h2 hk
      by_cases hin : f.next ≤ k ∧ k < (f.see n).next
      · rcases f.see_passed n hin.1 hin.2 with rfl | hs
        · exact mem_cons_self
        · exact mem_cons_of_mem _ (h.seen f hf k hs)
      · refine mem_cons_of_mem _ (h.gap f hf hr k h1 h2 ?_)
        omega
    rcases f.onSeq_cases n t.next with ⟨he, hend, hr, -⟩ | he
    · rw [he]
      refine ⟨fun _ k h1 h2 => hpass hr k h1 h2 ?_, nofun, nofun, nofun⟩
      omega
    · rw [he]
      refine ⟨nofun, ?_, ?_, ?_⟩
      · rintro _ ⟨⟩
        rw [PendingFetch.see_end]
        exact h.below f hf
      · rintro _ ⟨⟩ k hk
        rcases f.see_seen n hk with rfl | hs
        · exact mem_cons_self
        · exact mem_cons_of_mem _ (h.seen f hf k hs)
      · rintro _ ⟨⟩ hr
        rw [Bool.or_eq_false_iff, decide_eq_false_iff_not, Nat.not_lt] at hr
        refine ⟨hr.2, fun k h1 h2 hk => hpass hr.1 k h1 h2 ?_⟩
        rwa [PendingFetch.see_end] at hk

theorem Follows.message {received : List Nat} (h : Follows epoch first received t)
    {n : Nat} (hn : n ≤ u64Max) (now : Nat) : Follows epoch first (n :: received) (t.onSeq epoch n now).1 := by
  have hfetched := h.fetched n
  unfold onSeq
  rw [if_neg (not_not.2 h.epoch)]
  simp only
  split
  · exact ⟨h.epoch, hfetched.whole, hfetched.below, hfetched.seen, fun f hf hr => (hfetched.gap f hf hr).2⟩
  · rename_i hlt
    split
    · rename_i hgap
      refine ⟨h.epoch, nofun, ?_, ?_, ?_⟩
      · rintro _ ⟨⟩
        simp only [satAdd]
        omega
      · rintro _ ⟨⟩ k hk
        cases Finset.notMem_empty k hk
      · rintro _ ⟨⟩ - k h1 h2 hk
        have := next_satAdd h2
        simp only at hk
        by_cases hkn : k < t.next
        · exact hfetched.whole hgap.2 k h1 hkn
        · have : k = n := by omega
          rw [this]
          exact mem_cons_self
    · rename_i hgap
      refine ⟨h.epoch, fun hnone k h1 h2 => ?_, fun f hf => ?_, hfetched.seen, fun f hf hr k h1 h2 hk => ?_⟩
      · have := next_satAdd h2
        have : ¬t.next < n := fun hlt => hgap ⟨hlt, hnone⟩
        by_cases hkn : k < t.next
        · exact hfetched.whole hnone k h1 hkn
        · have : k = n := by omega
          rw [this]
          exact mem_cons_self
      · have := hfetched.below f hf
        simp only [satAdd]
        omega
      · have := next_satAdd h2
        obtain ⟨hle, hin⟩ := hfetched.gap f hf hr
        by_cases hkn : k < t.next
        · exact hin k h1 hkn hk
        · have : k = n := by omega
          rw [this]
          exact mem_cons_self

theorem Counts.notMem {news : List Nat} (h : Counts news t) (hepoch : t.epoch = some epoch) {n : Nat}
    (hnew : t.IsNew epoch n) (hn : n < u64Max) : n ∉ news := by
  intro hmem
  rcases hnew with hne | hle | ⟨f, hf, ht, hs⟩
  · exact hne hepoch
  · exact absurd (h.below n hmem hn) (not_lt.2 hle)
  · exact hs (h.gap f hf n hmem hn ht.1 ht.2.1)

theorem Counts.fetched {received news : List Nat} (hf : Follows epoch first received t)
    (h : Counts news t) (n : Nat) {f' : PendingFetch} (hf' : t.fetch.bind (fun f => f.onSeq t.next n) = some f')
    (hk : k ∈ news ∨ (k = n ∧ t.IsNew epoch n)) (hlt : k < u64Max) (h1 : f'.next ≤ k) (h2 : k ≤ f'.end_) : k ∈ f'.seen := by
  obtain ⟨f, hfetch, hon⟩ := Option.bind_eq_some_iff.1 hf'
  rcases f.onSeq_cases n t.next with ⟨he, -⟩ | he
  · rw [he] at hon
    cases hon
  · rw [he] at hon
    cases hon
    simp only [PendingFetch.see_end] at h1 h2 ⊢
    have hnext := f.see_next_le n
    have hend := hf.below f hfetch
    refine f.see_keeps n ?_ h1
    rcases hk with hk | ⟨rfl, hne | hle | ⟨g, hg, ht, -⟩⟩
    · exact Or.inl (h.gap f hfetch k hk hlt (by omega) h2)
    · exact absurd hf.epoch hne
    · omega
    · rw [hfetch] at hg
      cases hg
      exact Or.inr ⟨rfl, ht⟩

theorem Counts.message {received news : List Nat} (hf : Follows epoch first received t)
    (h : Counts news t) (n now : Nat) :
    Counts (if t.IsNew epoch n then n :: news else news) (t.onSeq epoch n now).1 := by
  have hmem : ∀ k, k ∈ (if t.IsNew epoch n then n :: news else news) → k ∈ news ∨ (k = n ∧ t.IsNew epoch n) := by
    intro k hk
    split at hk
    · rename_i hnew
      exact (mem_cons.1 hk).elim (fun he => Or.inr ⟨he, hnew⟩) Or.inl
    · exact Or.inl hk
  generalize (if t.IsNew epoch n then n :: news else news) = news' at hmem ⊢
  have hfetched : ∀ f', t.fetch.bind (fun f => f.onSeq t.next n) = some f' → ∀ k, k ∈ news ∨ (k = n ∧ t.IsNew epoch n) →
      k < u64Max → f'.next ≤ k → k ≤ f'.end_ → k ∈ f'.seen := fun _ hf' _ => h.fetched hf n hf'
  unfold onSeq
  rw [if_neg (not_not.2 hf.epoch)]
  simp only
  have hpast : ¬n < t.next → ∀ k, k ∈ news ∨ (k = n ∧ t.IsNew epoch n) → k < u64Max → k < satAdd n 1 := by
    intro hn k hk hlt
    rcases hk with hk | ⟨rfl, -⟩
    · have := h.below k hk hlt
      simp only [satAdd]
      omega
    · exact lt_satAdd hlt
  split
  · rename_i hn
    refine ⟨fun k hk hlt => ?_, fun f' hf' k hk hlt => hfetched f' hf' k (hmem k hk) hlt⟩
    rcases hmem k hk with hk | ⟨rfl, -⟩
    · exact h.below k hk hlt
    · exact hn
  · rename_i hn
    split
    · refine ⟨fun k hk hlt => hpast hn k (hmem k hk) hlt, ?_⟩
      rintro _ ⟨⟩ k hk hlt h1 h2
      simp only at h1 h2
      rcases hmem k hk with hk | ⟨rfl, -⟩
      · exact absurd (h.below k hk hlt) (not_lt.2 h1)
      · omega
    · exact ⟨fun k hk hlt => hpast hn k (hmem k hk) hlt, fun f' hf' k hk hlt => hfetched f' hf' k (hmem k hk) hlt⟩

theorem expired_quiet {now : Nat} (h : (t.expired now).2 = false) : (t.expired now).1 = t := by
  unfold expired at h ⊢
  split at h
  · cases h
  · rename_i he
    rw [if_neg he]

theorem feed_poll {now : Nat} (h : (t.expired now).2 = false) (turns : List Turn) :
    t.feed epoch (.poll now :: turns) = t.feed epoch turns := by
  rw [feed, foldl_cons, turn, expired_quiet h, feed]

theorem Follows.feed : ∀ (turns : List Turn) {first : Nat} {received news : List Nat} {t : Tracker},
    Follows epoch first received t → Counts news t → (∀ n ∈ numbers turns, n ≤ u64Max) → t.Quiet epoch turns →
    (news.filter (fun n => decide (n < u64Max))).Nodup →
    Follows epoch first ((numbers turns).reverse ++ received) (t.feed epoch turns) ∧
    (((t.news epoch turns).reverse ++ news).filter (fun n => decide (n < u64Max))).Nodup
  | [], _, _, _, _, hf, _, _, _, hnodup => ⟨hf, hnodup⟩
  | .message n now :: turns, first, received, news, t, hf, hc, hw, hq, hnodup => by
    have hn : n ≤ u64Max := hw n mem_cons_self
    have hnodup' : ((if t.IsNew epoch n then n :: news else news).filter (fun n => decide (n < u64Max))).Nodup := by
      split
      · rename_i hnew
        rw [filter_cons]
        split
        · rename_i hlt
          rw [decide_eq_true_eq] at hlt
          refine nodup_cons.2 ⟨fun hmem => ?_, hnodup⟩
          exact hc.notMem hf.epoch hnew hlt (mem_of_mem_filter hmem)
        · exact hnodup
      · exact hnodup
    obtain ⟨h1, h2⟩ := Follows.feed turns (hf.message hn now) (hc.message hf n now)
      (fun k hk => hw k (mem_cons_of_mem _ hk)) hq hnodup'
    refine ⟨?_, ?_⟩
    · rw [numbers, reverse_cons, append_assoc]
      exact h1
    · rw [Tracker.news]
      by_cases hnew : t.IsNew epoch n
      · rw [if_pos hnew] at h2 ⊢
        rw [reverse_cons, append_assoc]
        exact h2
      · rw [if_neg hnew] at h2 ⊢
        exact h2
  | .poll now :: turns, first, received, news, t, hf, hc, hw, hq, hnodup => by
    rw [feed_poll hq.1, Tracker.news, expired_quiet hq.1]
    exact Follows.feed turns hf hc hw hq.2 hnodup

theorem news_subset : ∀ (turns : List Turn) (t : Tracker), t.news epoch turns ⊆ numbers turns
  | [], _ => nil_subset _
  | .message n now :: turns, t => by
    have ih := news_subset turns (t.onSeq epoch n now).1
    rw [news]
    split
    · exact cons_subset_cons n ih
    · exact subset_cons_of_subset n ih
  | .poll now :: turns, t => news_subset turns (t.expired now).1

/-- **No silent gap**: from the message that opens an epoch on, and while no fetch times out, a tracker without a fetch
has received every number from the first to the one before the next it expects; and no number but the largest word is
found new twice. -/
theorem no_silent_gap {t : Tracker} (hepoch : t.epoch ≠ some epoch) {first : Nat} (hfirst : first ≤ u64Max) (opened : Nat)
    {turns : List Turn} (hwords : ∀ n ∈ numbers turns, n ≤ u64Max)
    (hquiet : (t.onSeq epoch first opened).1.Quiet epoch turns) :
    (((t.onSeq epoch first opened).1.feed epoch turns).fetch = none →
      ∀ k, first ≤ k → k < ((t.onSeq epoch first opened).1.feed epoch turns).next → k ∈ numbers (.message first opened :: turns)) ∧
    ((t.news epoch (.message first opened :: turns)).filter (fun n => decide (n ≠ u64Max))).Nodup := by
  have hnew : t.IsNew epoch first := Or.inl hepoch
  have hcounts : Counts [first] (t.onSeq epoch first opened).1 := by
    have hnext : (t.onSeq epoch first opened).1 = ⟨some epoch, satAdd first 1, first, none⟩ := by
      rw [onSeq, if_pos hepoch]
    rw [hnext]
    refine ⟨fun k hk hlt => ?_, nofun⟩
    rw [mem_singleton.1 hk] at hlt ⊢
    exact lt_satAdd hlt
  obtain ⟨hf, hn⟩ := Follows.feed turns (Follows.first hepoch first opened) hcounts hwords hquiet
    ((nodup_singleton first).filter _)
  refine ⟨fun hfetch k h1 h2 => ?_, ?_⟩
  · have hk := hf.whole hfetch k h1 h2
    rw [mem_append, mem_reverse, mem_singleton] at hk
    exact mem_cons.2 hk.symm
  · have hle : ∀ n ∈ t.news epoch (.message first opened :: turns), n ≤ u64Max := fun n hmem => by
      rcases mem_cons.1 (news_subset _ t hmem) with rfl | hmem
      · exact hfirst
      · exact hwords n hmem
    rw [news, if_pos hnew] at hle ⊢
    have hperm : ((t.onSeq epoch first opened).1.news epoch turns).reverse ++ [first] =
        (first :: (t.onSeq epoch first opened).1.news epoch turns).reverse := reverse_cons.symm
    rw [hperm, filter_reverse, nodup_reverse] at hn
    rw [filter_congr (fun n hmem => ?_)]
    · exact hn
    · have := hle n hmem
      rw [decide_eq_decide]
      omega

theorem no_silent_gap_closed :
    (({} : Tracker).onSeq "0123456789abcdef" 1 0).1.Quiet "0123456789abcdef" [.message 3 5, .poll 10, .message 2 20] ∧
    ((({} : Tracker).onSeq "0123456789abcdef" 1 0).1.feed "0123456789abcdef"
      [.message 3 5, .poll 10, .message 2 20]).fetch = none ∧
    ∀ k, 1 ≤ k → k < 4 → k ∈ [1, 3, 2] := by
  have hquiet : (({} : Tracker).onSeq "0123456789abcdef" 1 0).1.Quiet "0123456789abcdef"
      [.message 3 5, .poll 10, .message 2 20] := ⟨by decide, trivial⟩
  have hfetch : ((({} : Tracker).onSeq "0123456789abcdef" 1 0).1.feed "0123456789abcdef"
      [.message 3 5, .poll 10, .message 2 20]).fetch = none := by decide
  have hwords : ∀ n ∈ numbers [.message 3 5, .poll 10, .message 2 20], n ≤ u64Max := by decide
  exact ⟨hquiet, hfetch, (no_silent_gap (by decide) (by decide) 0 hwords hquiet).1 hfetch⟩

/-- The largest word has no successor to expect: it is found new each time it arrives. -/
theorem largest_word_new_again : ¬(({} : Tracker).news "0123456789abcdef"
    [.message u64Max 0, .message u64Max 0]).Nodup := by
  decide

end Tracker
end Mistl.Nostr
