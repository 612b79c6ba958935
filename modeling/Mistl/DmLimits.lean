import Mistl.Lib.FixedWindow
import Mistl.Lib.Table
/-!
# DmLimits — the replay cache and the rate limiter

`dm/limits.rs`.  Instants are nanoseconds.  The limiter lets too few messages through for the cap of the replay cache to matter:
what `insert` forgets is older than `DEDUPE_TTL`.
-/
open List

namespace Mistl.Dm

def nsPerMs : Nat := 1000000

def dedupeTtl : Nat := 25 * 60 * 1000 * nsPerMs

def dedupeMax : Nat := 16384

/-- `WINDOW` -/
def windowNs : Nat := 60 * 1000 * nsPerMs

def perSenderPerWindow : Nat := 30

def globalPerWindow : Nat := 300

def maxSenders : Nat := 2048

/-! ## The replay cache -/

structure Dedupe where
  order : List (Nat × String)
  seen : Finset String

namespace Dedupe

/-- `Dedupe::default` -/
def empty : Dedupe := ⟨[], ∅⟩

def key (fromDid id : String) : String := fromDid ++ "\n" ++ id

/-- The loop of `prune`. -/
def pruneLoop (now : Nat) : List (Nat × String) → Finset String → Dedupe
  | [], seen => ⟨[], seen⟩
  | (instant, key) :: order, seen =>
    if now - instant ≤ dedupeTtl ∧ ((instant, key) :: order).length < dedupeMax then ⟨(instant, key) :: order, seen⟩
    else pruneLoop now order (seen.erase key)

def prune (d : Dedupe) (now : Nat) : Dedupe := pruneLoop now d.order d.seen

def contains (d : Dedupe) (fromDid id : String) : Bool := decide (key fromDid id ∈ d.seen)

def insert (d : Dedupe) (fromDid id : String) (now : Nat) : Dedupe × Bool :=
  let d := d.prune now
  let key := key fromDid id
  if key ∈ d.seen then (d, false) else (⟨d.order ++ [(now, key)], Insert.insert key d.seen⟩, true)

end Dedupe

/-! ## The rate limiter -/

structure RateLimiter where
  senders : Table String Window
  overall : Window

namespace RateLimiter

def new (now : Nat) : RateLimiter := ⟨∅, .fresh now⟩

/-- The end of `allow`: the charge of a sender that has a window, or a place for one. -/
def chargeSender (senders : Table String Window) (overall : Window) (sender : String) (now : Nat) : RateLimiter × Bool :=
  let window := ((senders.get sender).getD (.fresh now)).refresh windowNs now
  if perSenderPerWindow ≤ window.count then (⟨senders.insert sender window, overall⟩, false)
  else (⟨senders.insert sender window.charge, overall.charge⟩, true)

def allow (l : RateLimiter) (sender : String) (now : Nat) : RateLimiter × Bool :=
  let overall := l.overall.refresh windowNs now
  if globalPerWindow ≤ overall.count then (⟨l.senders, overall⟩, false)
  else if l.senders.contains sender = false ∧ maxSenders ≤ l.senders.size then
    let senders := l.senders.filter fun _ window => !window.expired windowNs now
    if maxSenders ≤ senders.size then (⟨senders, overall⟩, false) else chargeSender senders overall sender now
  else chargeSender l.senders overall sender now

theorem allow_overall (l : RateLimiter) (sender : String) (now : Nat) :
    ((l.allow sender now).2 = true ∧ (l.overall.refresh windowNs now).count < globalPerWindow ∧
        (l.allow sender now).1.overall = (l.overall.refresh windowNs now).charge) ∨
      ((l.allow sender now).2 = false ∧ (l.allow sender now).1.overall = l.overall.refresh windowNs now) := by
  have hcharge : ∀ senders overall, overall.count < globalPerWindow →
      ((chargeSender senders overall sender now).2 = true ∧ overall.count < globalPerWindow ∧
        (chargeSender senders overall sender now).1.overall = overall.charge) ∨
      ((chargeSender senders overall sender now).2 = false ∧ (chargeSender senders overall sender now).1.overall = overall) := by
    intro senders overall hcount
    unfold chargeSender
    dsimp only
    split
    · exact .inr ⟨rfl, rfl⟩
    · exact .inl ⟨rfl, hcount, rfl⟩
  unfold allow
  dsimp only
  split
  · exact .inr ⟨rfl, rfl⟩
  rename_i hcount
  split
  · split
    · exact .inr ⟨rfl, rfl⟩
    · exact hcharge _ _ (not_le.1 hcount)
  · exact hcharge _ _ (not_le.1 hcount)

end RateLimiter

/-! ## What the cache forgets -/

/-- **The cache beside the limiter that fills it**, at an instant. -/
structure Paired (d : Dedupe) (overall : Window) (now : Nat) : Prop where
  nodup : (d.order.map Prod.snd).Nodup
  seen : ∀ key, key ∈ d.seen ↔ key ∈ d.order.map Prod.snd
  paced : Window.Paced globalPerWindow windowNs overall (d.order.map Prod.fst)
  started : overall.start ≤ now

variable {d : Dedupe} {overall : Window} {now now' : Nat} {l : RateLimiter} {sender fromDid id : String}

theorem Paired.new (now : Nat) : Paired .empty (RateLimiter.new now).overall now :=
  ⟨nodup_nil, fun _ => ⟨fun h => absurd h (Finset.notMem_empty _), nofun⟩, .fresh _ _ _, Nat.le_refl _⟩

theorem Paired.refresh (h : Paired d overall now) (hnow : now ≤ now') : Paired d (overall.refresh windowNs now') now' :=
  ⟨h.nodup, h.seen, h.paced.refresh (by decide), Window.refresh_start_le (h.started.trans hnow)⟩

theorem Paired.front_old {instant : Nat} {key : String} {order : List (Nat × String)} {seen : Finset String}
    (h : Paired ⟨(instant, key) :: order, seen⟩ overall now)
    (hpop : ¬(now - instant ≤ dedupeTtl ∧ ((instant, key) :: order).length < dedupeMax)) : instant + dedupeTtl < now := by
  by_cases httl : now - instant ≤ dedupeTtl
  · -- so many entries take more windows than the lifetime of one
    have hlen : dedupeMax ≤ ((instant, key) :: order).length := not_lt.1 fun hlt => hpop ⟨httl, hlt⟩
    have hmany : globalPerWindow * (26 + 1) < (order.map Prod.fst).length + 1 := by
      rw [length_map]
      exact lt_of_lt_of_le (by decide) hlen
    have hold := Window.Paced.old h.paced hmany
    have hstarted := h.started
    have : dedupeTtl < 26 * windowNs := by decide
    omega
  · omega

theorem pruneLoop_suffix : ∀ (order : List (Nat × String)) (seen : Finset String), (Dedupe.pruneLoop now order seen).order <:+ order
  | [], _ => suffix_refl _
  | _ :: order, seen => by
    unfold Dedupe.pruneLoop
    split
    · exact suffix_refl _
    · exact (pruneLoop_suffix order _).trans (suffix_cons ..)

theorem Paired.pruneLoop : ∀ {order : List (Nat × String)} {seen : Finset String},
    Paired ⟨order, seen⟩ overall now → Paired (Dedupe.pruneLoop now order seen) overall now ∧
      (∀ e ∈ order, e ∈ (Dedupe.pruneLoop now order seen).order ∨ e.1 + dedupeTtl < now)
  | [], seen, h => ⟨h, nofun⟩
  | (_, key) :: order, seen, h => by
    unfold Dedupe.pruneLoop
    split
    · exact ⟨h, fun e he => .inl he⟩
    · rename_i hpop
      have hnd := nodup_cons.1 h.nodup
      have htail : Paired ⟨order, seen.erase key⟩ overall now := by
        refine ⟨hnd.2, fun k => ?_, h.paced.tail, h.started⟩
        have hk := h.seen k
        simp only [map_cons, mem_cons] at hk
        rw [Finset.mem_erase, hk]
        constructor
        · rintro ⟨hne, hk⟩
          exact hk.resolve_left hne
        · exact fun hmem => ⟨fun he => hnd.1 (he ▸ hmem), .inr hmem⟩
      obtain ⟨hpaired, hold⟩ := Paired.pruneLoop htail
      refine ⟨hpaired, fun e he => ?_⟩
      rcases mem_cons.1 he with rfl | he
      · exact .inr (h.front_old hpop)
      · exact hold e he

theorem Paired.prune (h : Paired d overall now) : Paired (d.prune now) overall now := (Paired.pruneLoop h).1

theorem Paired.contains_iff (h : Paired d overall now) (fromDid id : String) :
    d.contains fromDid id = true ↔ ∃ instant, (instant, Dedupe.key fromDid id) ∈ d.order := by
  unfold Dedupe.contains
  rw [decide_eq_true_eq, h.seen, mem_map]
  exact ⟨fun ⟨e, he, hkey⟩ => ⟨e.1, hkey ▸ he⟩, fun ⟨instant, he⟩ => ⟨_, he, rfl⟩⟩

theorem Paired.insert (h : Paired d overall now) (hcount : overall.count < globalPerWindow)
    (hfresh : overall.expired windowNs now = false) :
    Paired (d.insert fromDid id now).1 overall.charge now ∧
      (∀ e ∈ d.order, e ∈ (d.insert fromDid id now).1.order ∨ e.1 + dedupeTtl < now) ∧
      (d.contains fromDid id = false → (d.insert fromDid id now).2 = true ∧
        (now, Dedupe.key fromDid id) ∈ (d.insert fromDid id now).1.order) := by
  have hprune := h.prune
  have hold : ∀ e ∈ d.order, e ∈ (d.prune now).order ∨ e.1 + dedupeTtl < now := (Paired.pruneLoop h).2
  unfold Dedupe.insert
  dsimp only
  split
  · rename_i hseen
    refine ⟨⟨hprune.nodup, hprune.seen, hprune.paced.charge_other hcount, hprune.started⟩, hold, fun hnew => ?_⟩
    obtain ⟨e, he, hkey⟩ := mem_map.1 ((hprune.seen _).1 hseen)
    have hmem : (e.1, Dedupe.key fromDid id) ∈ d.order := hkey ▸ (pruneLoop_suffix d.order d.seen).subset he
    rw [(h.contains_iff fromDid id).2 ⟨_, hmem⟩] at hnew
    cases hnew
  · rename_i hnew
    refine ⟨⟨?_, fun k => ?_, ?_, hprune.started⟩, fun e he => (hold e he).imp_left (mem_append_left _), fun _ =>
      ⟨rfl, mem_append_right _ mem_cons_self⟩⟩
    · rw [map_append]
      exact hprune.nodup.append (nodup_singleton _) fun k hk hk' => by
        rw [mem_singleton.1 hk'] at hk
        exact hnew ((hprune.seen _).2 hk)
    · rw [Finset.mem_insert, hprune.seen, map_append, mem_append, or_comm]
      exact or_congr_right mem_singleton.symm
    · rw [map_append]
      exact hprune.paced.charge hcount hfresh

end Mistl.Dm
