import Mathlib.Data.Prod.Lex
import Mathlib.Data.Set.Finite.Lemmas
import Mathlib.Data.String.Basic
import Mistl.EscrowRepository
/-!
# MeshPlan — which providers hold a slot

`escrow/mesh/placement.rs`, `escrow/mesh/decision.rs`, `Mesh::plan`: a provider keeps a copy it is placed for among those it
believes alive, and releases any other when all placed ones have confirmed theirs and the grace is over.  The score is a
parameter.
-/
open List

namespace Mistl.Mesh

open Escrow (Head Delete)

structure Entry where
  slot : String
  seq : Nat
  hash : String
  kind : String
  held : Bool
  deriving DecidableEq

structure MeshRecord where
  head : Head
  deleted : Option Delete
  home : Option String
  held : Bool
  deriving DecidableEq

structure Peer where
  did : String
  seen : Nat
  free : Nat
  entries : Table String Entry
  digest : String
  heldDigest : String
  syncing : Bool
  after : Option String
  requested : Nat
  pending : Finset String

def onlineMs : Nat := 45000

/-! ## Placement -/

structure Candidate where
  did : String
  available : Nat

def upsertMax (did : String) (available : Nat) : List (String × Nat) → List (String × Nat)
  | [] => [(did, available)]
  | (d, a) :: l => if d = did then (d, max a available) :: l else (d, a) :: upsertMax did available l

/-- The members of `place` -/
def members (bytes : Nat) (home : Option String) (candidates : List Candidate) : List (String × Nat) :=
  candidates.foldl (fun m c => if c.available < bytes ∨ home = some c.did then m else upsertMax c.did c.available m) []

def rankLe (a b : String × Int) : Prop := toLex (a.2, a.1) ≤ toLex (b.2, b.1)

instance : DecidableRel rankLe := fun a b => inferInstanceAs (Decidable (toLex (a.2, a.1) ≤ toLex (b.2, b.1)))

variable (score : String → String → Nat → Int)

/-- The ranked members of `place` -/
def ranked (owner : String) (bytes : Nat) (home : Option String) (candidates : List Candidate) : List (String × Int) :=
  ((members bytes home candidates).map (fun m => (m.1, score owner m.1 m.2))).insertionSort rankLe

def place (owner : String) (bytes replicas : Nat) (home : Option String) (candidates : List Candidate) : List String :=
  if replicas = 0 then []
  else home.toList ++ ((ranked score owner bytes home candidates).take (replicas - home.toList.length)).map Prod.fst

/-! ## Decisions -/

structure ProviderInput where
  did : String
  free : Nat
  lastSeen : Nat
  held : Bool

def placementInputs (providers : List ProviderInput) (now deadAfter size replicas : Nat) (home : Option String) :
    Nat × List Candidate × Option String :=
  let candidates := (providers.filter (fun p => decide (now - p.lastSeen ≤ deadAfter))).map
    (fun p => Candidate.mk p.did (satAdd p.free (if p.held then size else 0)))
  (min replicas candidates.length, candidates, home.filter (fun home => candidates.any (fun p => p.did == home)))

def graceMs : Nat := 24 * 60 * 60 * 1000

def informed (since now known hello : Nat) : Bool := decide (60000 ≤ now - since) || (decide (0 < known) && known == hello)

def holding (placed held informed allConfirmed : Bool) (release : Option Nat) (now : Nat) : Bool × Option Nat :=
  if placed then (held || informed, none)
  else if !held then (false, none)
  else if !allConfirmed then (true, none)
  else
    let release := release.getD (satAdd now graceMs)
    (decide (now < release), some release)

def needsHead (local_ : Option Entry) (remote : Entry) : Bool := local_.all (fun l => decide (l.seq < remote.seq)
    || (remote.seq == l.seq && (remote.hash != l.hash || remote.kind != l.kind)))

/-! ## The plan of a provider -/

variable (C : Crates)

def deleteJson (d : Delete) : Json := .obj [("slot", .str d.slot), ("seq", .int d.seq), ("head", .str d.head), ("sig", .str d.sig)]

def MeshRecord.entry (r : MeshRecord) : Entry where
  slot := r.head.slot
  seq := r.head.seq
  hash := match r.deleted with
    | none => r.head.hash C
    | some d => C.digest (Json.utf8 (Wiresign.stableStringify (deleteJson d)))
  kind := if r.deleted.isSome then "tombstone" else "head"
  held := r.held && r.deleted.isNone

structure View where
  me : String
  free : Nat
  peers : List Peer
  replicas : Nat
  deadAfterSecs : Nat
  since : Nat
  release : Option Nat
  record : MeshRecord
  now : Nat

namespace View

variable (v : View)

def confirms (p : Peer) : Bool := decide (v.now - p.seen ≤ onlineMs) && (p.entries.get (v.record.entry C).slot).any (fun e =>
    e.kind == "head" && e.hash == (v.record.entry C).hash && e.seq == (v.record.entry C).seq && e.held)

def confirmed : List String := (v.peers.filter (v.confirms C)).map Peer.did ++ if v.record.held then [v.me] else []

def inputs : List ProviderInput := ⟨v.me, v.free, v.now, v.record.held⟩ :: v.peers.map fun p => ⟨p.did, p.free, p.seen, v.confirms C p⟩

def placement : Nat × List Candidate × Option String :=
  placementInputs (v.inputs C) v.now (min (v.deadAfterSecs * 1000) u64Max) v.record.head.size v.replicas v.record.home

def plan (room : String) : Nat × List String × List String :=
  let (target, candidates, home) := v.placement C
  (target, place score (room ++ "/" ++ v.record.head.slot) v.record.head.size target home candidates, v.confirmed C)

/-- The decision of `Mesh::tick` on a slot: whether to hold it, and when to release it -/
def retention (room : String) : Bool × Option Nat :=
  let (target, desired, confirmed) := v.plan score C room
  holding (desired.contains v.me) v.record.held (informed v.since v.now 0 0)
    (desired.length == target && desired.all (fun did => confirmed.contains did)) v.release v.now

end View

/-! ## The members -/

theorem mem_upsertMax {did d : String} {available a : Nat} : ∀ {l : List (String × Nat)},
    (d, a) ∈ upsertMax did available l → (d, a) ∈ l ∨ d = did ∧ (a = available ∨ ∃ b, (did, b) ∈ l ∧ a = max b available)
  | [], h => by
    obtain ⟨rfl, rfl⟩ := Prod.mk.inj (mem_singleton.1 h)
    exact .inr ⟨rfl, .inl rfl⟩
  | (e, b) :: l, h => by
    rw [upsertMax] at h
    split at h
    · rename_i heq
      rcases mem_cons.1 h with h | h
      · obtain ⟨rfl, rfl⟩ := Prod.mk.inj h
        exact .inr ⟨heq, .inr ⟨b, by rw [← heq]; exact mem_cons_self, rfl⟩⟩
      · exact .inl (mem_cons_of_mem _ h)
    · rcases mem_cons.1 h with h | h
      · exact .inl (h ▸ mem_cons_self)
      · rcases mem_upsertMax h with h | ⟨hd, h | ⟨c, hc, hm⟩⟩
        · exact .inl (mem_cons_of_mem _ h)
        · exact .inr ⟨hd, .inl h⟩
        · exact .inr ⟨hd, .inr ⟨c, mem_cons_of_mem _ hc, hm⟩⟩

theorem upsertMax_keys {did : String} {available : Nat} : ∀ {l : List (String × Nat)} {d : String},
    d ∈ (upsertMax did available l).map Prod.fst ↔ d = did ∨ d ∈ l.map Prod.fst
  | [], d => by simp [upsertMax]
  | (e, b) :: l, d => by
    rw [upsertMax]
    split
    · rename_i heq
      subst heq
      simp
    · rw [map_cons, mem_cons, upsertMax_keys, map_cons, mem_cons]
      tauto

def Agree (available : String → Nat) (candidates : List Candidate) : Prop := ∀ c ∈ candidates, c.available = available c.did

section members

variable {available : String → Nat} {bytes : Nat} {home : Option String}

theorem foldl_members : ∀ (candidates : List Candidate) (m : List (String × Nat)), Agree available candidates →
    (∀ d a, (d, a) ∈ m → a = available d) →
    (∀ d a, (d, a) ∈ candidates.foldl (fun m c => if c.available < bytes ∨ home = some c.did then m
        else upsertMax c.did c.available m) m → a = available d) ∧
    ∀ d, d ∈ (candidates.foldl (fun m c => if c.available < bytes ∨ home = some c.did then m
        else upsertMax c.did c.available m) m).map Prod.fst ↔
      d ∈ m.map Prod.fst ∨ ∃ c ∈ candidates, c.did = d ∧ bytes ≤ c.available ∧ home ≠ some c.did
  | [], m, _, hm => ⟨hm, fun d => by simp⟩
  | c :: candidates, m, hagree, hm => by
    have hrest : Agree available candidates := fun c' hc' => hagree c' (mem_cons_of_mem _ hc')
    rw [foldl_cons]
    by_cases hskip : c.available < bytes ∨ home = some c.did
    · rw [if_pos hskip]
      obtain ⟨h1, h2⟩ := foldl_members candidates m hrest hm
      refine ⟨h1, fun d => (h2 d).trans (or_congr_right ?_)⟩
      simp only [exists_mem_cons_iff]
      constructor
      · exact .inr
      · rintro (⟨-, hle, hne⟩ | h)
        · rcases hskip with hlt | heq
          · omega
          · exact absurd heq hne
        · exact h
    · rw [if_neg hskip]
      rw [not_or, not_lt] at hskip
      have hm' : ∀ d a, (d, a) ∈ upsertMax c.did c.available m → a = available d := by
        intro d a hda
        rcases mem_upsertMax hda with h | ⟨rfl, h | ⟨b, hb, h⟩⟩
        · exact hm d a h
        · rw [h, hagree c mem_cons_self]
        · rw [h, hm _ _ hb, hagree c mem_cons_self, max_self]
      obtain ⟨h1, h2⟩ := foldl_members candidates _ hrest hm'
      refine ⟨h1, fun d => (h2 d).trans ?_⟩
      rw [upsertMax_keys]
      simp only [exists_mem_cons_iff]
      constructor
      · rintro ((rfl | h) | h)
        · exact .inr (.inl ⟨rfl, hskip.1, hskip.2⟩)
        · exact .inl h
        · exact .inr (.inr h)
      · rintro (h | ⟨rfl, -⟩ | h)
        · exact .inl (.inr h)
        · exact .inl (.inl rfl)
        · exact .inr h

variable {score : String → String → Nat → Int} {owner : String} {candidates : List Candidate}

section

variable (hagree : Agree available candidates)

include hagree

theorem mem_ranked {d : String} {x : Int}
    (h : (d, x) ∈ ranked score owner bytes home candidates) : x = score owner d (available d) := by
  have hmem := (perm_insertionSort _ _).subset h
  obtain ⟨⟨d', a⟩, hm, he⟩ := mem_map.1 hmem
  obtain ⟨rfl, rfl⟩ := Prod.mk.inj he
  rw [(foldl_members candidates [] hagree nofun).1 _ _ hm]

theorem ranked_of_candidate {c : Candidate} (hc : c ∈ candidates)
    (hroom : bytes ≤ c.available) (hhome : home ≠ some c.did) :
    (c.did, score owner c.did (available c.did)) ∈ ranked score owner bytes home candidates := by
  have hkey := ((foldl_members candidates [] hagree nofun).2 c.did).2
    (.inr ⟨c, hc, rfl, hroom, hhome⟩)
  obtain ⟨⟨d, a⟩, hm, rfl⟩ := mem_map.1 hkey
  have ha := (foldl_members candidates [] hagree nofun).1 _ _ hm
  refine (perm_insertionSort _ _).symm.subset (mem_map.2 ⟨_, hm, ?_⟩)
  rw [ha]

theorem placed_before {replicas : Nat} {c : Candidate} (hc : c ∈ candidates)
    (hroom : bytes ≤ c.available) (hnot : c.did ∉ place score owner bytes replicas none candidates) {d : String}
    (hd : d ∈ place score owner bytes replicas none candidates) :
    toLex (score owner d (available d), d) < toLex (score owner c.did (available c.did), c.did) := by
  have hsorted : (ranked score owner bytes none candidates).Pairwise rankLe := by
    have : IsTrans (String × Int) rankLe := ⟨fun _ _ _ h h' => le_trans h h'⟩
    have : Std.Total (α := String × Int) rankLe := ⟨fun x y => le_total _ _⟩
    exact pairwise_insertionSort rankLe _
  have hrank : _ ∈ ranked score owner bytes none candidates := ranked_of_candidate hagree hc hroom nofun
  unfold place at hd hnot
  split at hd
  · cases hd
  rename_i hpos
  rw [if_neg hpos] at hnot
  obtain ⟨⟨d', x⟩, hdx, rfl⟩ := mem_map.1 hd
  have hx := mem_ranked hagree (mem_of_mem_take hdx)
  have hdrop : (c.did, score owner c.did (available c.did)) ∈ (ranked score owner bytes none candidates).drop replicas := by
    rw [← take_append_drop replicas (ranked score owner bytes none candidates)] at hrank
    rcases mem_append.1 hrank with h | h
    · exact absurd (mem_map.2 ⟨_, h, rfl⟩) hnot
    · exact h
  rw [← take_append_drop replicas (ranked score owner bytes none candidates)] at hsorted
  have hle : rankLe (d', x) (c.did, score owner c.did (available c.did)) := (pairwise_append.1 hsorted).2.2 _ hdx _ hdrop
  rw [hx] at hle
  refine lt_of_le_of_ne hle (fun heq => hnot ?_)
  have : d' = c.did := (Prod.mk.inj (toLex.injective heq)).2
  rw [← this]
  exact hd

end

end members

/-! ## Views -/

section views

variable {score : String → String → Nat → Int} {C : Crates} {room : String} {v : View}

def View.desired (score : String → String → Nat → Int) (C : Crates) (room : String) (v : View) : List String :=
  place score (room ++ "/" ++ v.record.head.slot) v.record.head.size (v.placement C).1 (v.placement C).2.2
    (v.placement C).2.1

theorem holding_released {placed held informed all : Bool} {release : Option Nat} {now : Nat} (hheld : held = true)
    (h : (holding placed held informed all release now).1 = false) : placed = false ∧ all = true := by
  subst hheld
  cases placed with
  | true => cases h
  | false =>
    cases all with
    | true => exact ⟨rfl, rfl⟩
    | false => cases h

/-- **A holder that gives its copy up** is not placed, and all that are placed have confirmed theirs. -/
theorem released (hheld : v.record.held = true) (h : (v.retention score C room).1 = false) :
    v.me ∉ v.desired score C room ∧ (v.desired score C room).length = (v.placement C).1 ∧
      ∀ d ∈ v.desired score C room, d ∈ v.confirmed C := by
  obtain ⟨hplaced, hall⟩ := holding_released hheld h
  rw [Bool.and_eq_true, beq_iff_eq, List.all_eq_true] at hall
  refine ⟨fun hmem => ?_, hall.1, fun d hd => contains_iff_mem.1 (hall.2 d hd)⟩
  exact absurd (contains_iff_mem.2 hmem) (Bool.eq_false_iff.1 hplaced)

theorem self_candidate (C : Crates) (v : View) :
    ⟨v.me, satAdd v.free (if v.record.held then v.record.head.size else 0)⟩ ∈ (v.placement C).2.1 := by
  refine mem_map.2 ⟨⟨v.me, v.free, v.now, v.record.held⟩, mem_filter.2 ⟨mem_cons_self, ?_⟩, rfl⟩
  rw [Nat.sub_self]
  exact decide_eq_true (Nat.zero_le _)

theorem target_pos (hreplicas : 1 ≤ v.replicas) : 1 ≤ (v.placement C).1 := le_min hreplicas (length_pos_of_mem (self_candidate C v))

theorem home_mem_desired (hreplicas : 1 ≤ v.replicas) {home : String} (h : (v.placement C).2.2 = some home) :
    home ∈ v.desired score C room := by
  have := target_pos (C := C) hreplicas
  unfold View.desired place
  rw [if_neg (by omega), h]
  exact mem_append_left _ mem_cons_self

theorem placement_home {home : String} (h : (v.placement C).2.2 = some home) : v.record.home = some home :=
  (Option.filter_eq_some_iff.1 h).1

theorem placement_home_self (h : v.record.home = some v.me) : (v.placement C).2.2 = some v.me := by
  refine Option.filter_eq_some_iff.2 ⟨h, any_eq_true.2 ⟨_, self_candidate C v, ?_⟩⟩
  exact beq_self_eq_true _

end views

/-- **Copies are never all released at once.**  Providers that agree on the home and on the figure of every provider
they list and whose confirmations are true, each with its own view, replicas, clock and timer: if any of them holds
the head, one of those that hold it keeps it. -/
theorem some_copy_kept (score : String → String → Nat → Int) (C : Crates) (room : String) (head : Head)
    (home : Option String) (available : String → Nat) (providers : List View)
    (hrecord : ∀ v ∈ providers, v.record.head = head ∧ v.record.deleted = none ∧ v.record.home = home)
    (hsize : head.size ≤ u64Max) (hreplicas : ∀ v ∈ providers, 1 ≤ v.replicas)
    (hagree : ∀ v ∈ providers, Agree available (v.placement C).2.1)
    (haccurate : ∀ v ∈ providers, ∀ p ∈ v.peers, v.confirms C p = true → ∃ w ∈ providers, w.me = p.did ∧ w.record.held = true)
    (hheld : ∃ v ∈ providers, v.record.held = true) :
    ∃ v ∈ providers, v.record.held = true ∧ (v.retention score C room).1 = true := by
  by_contra hnone
  have hreleased : ∀ v ∈ providers, v.record.held = true → (v.retention score C room).1 = false := by
    intro v hv hh
    by_contra hkeep
    exact hnone ⟨v, hv, hh, Bool.not_eq_false _ ▸ hkeep⟩
  have hconfirmed : ∀ v ∈ providers, ∀ d ∈ v.confirmed C, ∃ w ∈ providers, w.me = d ∧ w.record.held = true := by
    intro v hv d hd
    rcases mem_append.1 hd with hd | hd
    · obtain ⟨p, hp, rfl⟩ := mem_map.1 hd
      exact haccurate v hv p (mem_filter.1 hp).1 (mem_filter.1 hp).2
    · split at hd
      · rename_i hh
        exact ⟨v, hv, (mem_singleton.1 hd).symm, hh⟩
      · cases hd
  -- a home that is alive somewhere is a holder, and the home itself never releases
  have hhomeless : ∀ v ∈ providers, v.record.held = true → (v.placement C).2.2 = none := by
    intro v hv hh
    cases hhome : (v.placement C).2.2 with
    | none => rfl
    | some h =>
      obtain ⟨-, -, hall⟩ := released hh (hreleased v hv hh)
      obtain ⟨w, hw, rfl, hwh⟩ := hconfirmed v hv h (hall h (home_mem_desired (hreplicas v hv) hhome))
      have hsame : w.record.home = some w.me := by
        rw [(hrecord w hw).2.2, ← (hrecord v hv).2.2]
        exact placement_home hhome
      exact absurd (home_mem_desired (hreplicas w hw) (placement_home_self hsame)) (released hwh (hreleased w hw hwh)).1
  -- the best of the holders
  obtain ⟨v, ⟨hv, hvh⟩, hbest⟩ := Set.exists_min_image {v | v ∈ providers ∧ v.record.held = true}
    (fun v => toLex (score (room ++ "/" ++ head.slot) v.me (available v.me), v.me))
    (providers.finite_toSet.subset (fun v hv => hv.1)) hheld
  obtain ⟨hnot, hlen, hall⟩ := released hvh (hreleased v hv hvh)
  have hpos : 0 < (v.desired score C room).length := by
    rw [hlen]
    exact target_pos (hreplicas v hv)
  obtain ⟨d, hd⟩ := exists_mem_of_length_pos hpos
  obtain ⟨w, hw, hme, hwh⟩ := hconfirmed v hv d (hall d hd)
  have hself := self_candidate C v
  rw [hvh] at hself
  have hroom : v.record.head.size ≤ satAdd v.free v.record.head.size := by
    rw [(hrecord v hv).1]
    exact le_min (Nat.le_add_left _ _) hsize
  have hdesired : v.desired score C room
      = place score (room ++ "/" ++ head.slot) v.record.head.size (v.placement C).1 none (v.placement C).2.1 := by
    unfold View.desired
    rw [hhomeless v hv hvh, (hrecord v hv).1]
  rw [hdesired] at hnot hd
  have hlt := placed_before (hagree v hv) hself hroom hnot hd
  rw [← hme] at hlt
  exact absurd (hbest w ⟨hw, hwh⟩) (not_le.2 hlt)

/-- A provider that holds the head of the note and has another one's word that it holds it too. -/
def noteView (me other : String) : View where
  me := me
  free := 10
  peers := [⟨other, 90000, 10, (∅ : Table String Entry).insert Escrow.noteHead.slot
    (MeshRecord.entry (sampleCrates []) ⟨Escrow.noteHead, none, none, true⟩), "", "", false, none, 0, ∅⟩]
  replicas := 1
  deadAfterSecs := 60
  since := 0
  release := some 0
  record := ⟨Escrow.noteHead, none, none, true⟩
  now := 90000

theorem some_copy_kept_pair : ∃ v ∈ [noteView "a" "b", noteView "b" "a"], v.record.held = true ∧
    (v.retention (fun _ did _ => if did = "a" then 0 else 1) (sampleCrates []) "notes").1 = true := by
  refine some_copy_kept _ _ _ Escrow.noteHead none (fun _ => 14) _ ?_ (by decide) ?_ ?_ ?_ ?_
  · intro v hv
    simp only [mem_cons, not_mem_nil, or_false] at hv
    rcases hv with rfl | rfl <;> exact ⟨rfl, rfl, rfl⟩
  · intro v hv
    simp only [mem_cons, not_mem_nil, or_false] at hv
    rcases hv with rfl | rfl <;> exact le_refl 1
  · have hall : ∀ c ∈ ((noteView "a" "b").placement (sampleCrates [])).2.1
        ++ ((noteView "b" "a").placement (sampleCrates [])).2.1, c.available = 14 := by decide
    intro v hv c hc
    simp only [mem_cons, not_mem_nil, or_false] at hv
    rcases hv with rfl | rfl
    · exact hall c (mem_append_left _ hc)
    · exact hall c (mem_append_right _ hc)
  · intro v hv p hp _
    simp only [mem_cons, not_mem_nil, or_false] at hv
    rcases hv with rfl | rfl
    · rw [mem_singleton.1 hp]
      exact ⟨noteView "b" "a", by simp, rfl, rfl⟩
    · rw [mem_singleton.1 hp]
      exact ⟨noteView "a" "b", by simp, rfl, rfl⟩
  · exact ⟨noteView "a" "b", by simp, rfl⟩

end Mistl.Mesh
