import Mistl.EscrowRepository
import Mathlib.Data.Prod.Lex
import Mathlib.Order.Bounds.Basic
/-!
# EscrowConverge — the mesh agrees on a slot

What a provider shows of a slot after learning any messages of an honest writer, in any order and however often each:
the greatest of them, by sequence number and with a tombstone above the head it deletes.
-/
open Option

namespace Mistl.Escrow

/-- A head or tombstone message, as it reaches `learn`. -/
structure MeshMessage where
  head : Head
  home : Option String
  deleted : Option Delete

def MeshMessage.claim (m : MeshMessage) : Head × Bool := (m.head, m.deleted.isSome)

def claimRank (p : Head × Bool) : ℕ ×ₗ Bool := toLex (p.1.seq, p.2)

theorem claimRank_le {p q : Head × Bool} :
    claimRank p ≤ claimRank q ↔ p.1.seq < q.1.seq ∨ p.1.seq = q.1.seq ∧ p.2 ≤ q.2 := Prod.Lex.toLex_le_toLex

variable (C : Crates) (cfg : Config) (room : String)

def Index.shown (i : Index) (key : String) : Option (Head × Bool) := (i.records.get key).map (fun r => (r.current, r.deleted.isSome))

def Index.learnAll (i : Index) (messages : List MeshMessage) : Index :=
  messages.foldl (fun i m => (i.learn C cfg room m.head m.home m.deleted .done).1) i

def Learnable (m : MeshMessage) : Prop := learnable C room m.head m.home m.deleted = .ok ()

/-- **An honest writer of a slot**, in the messages that pass their checks: one writer, one head for each sequence number,
and the head after a deleted one names it as its parent. -/
structure Honest (slot : String) (M : Set MeshMessage) : Prop where
  slot : ∀ m ∈ M, Learnable C room m → m.head.slot = slot
  writer : ∀ m ∈ M, ∀ m' ∈ M, Learnable C room m → Learnable C room m' → m.head.writer = m'.head.writer
  unique : ∀ m ∈ M, ∀ m' ∈ M, Learnable C room m → Learnable C room m' → m.head.seq = m'.head.seq → m.head = m'.head
  parent : ∀ m ∈ M, ∀ m' ∈ M, Learnable C room m → Learnable C room m' → m.deleted.isSome = true →
    m'.head.seq = m.head.seq + 1 → m'.head.parent = some (m.head.hash C)

def claims (M : Set MeshMessage) : Set (Head × Bool) := {p | ∃ m ∈ M, Learnable C room m ∧ m.claim = p}

variable {C cfg room} {i : Index} {slot : String} {M : Set MeshMessage}

variable {m : MeshMessage}

theorem Learnable.valid (h : Learnable C room m) : m.head.Valid C gib := learnable_valid h

theorem succ_word {n : Nat} (h : n ≤ maxSafe) : satAdd n 1 = n + 1 ∧ checkedAdd n 1 = some (n + 1) := by
  have hle : n + 1 ≤ u64Max := by
    unfold maxSafe at h
    unfold u64Max
    omega
  exact ⟨satAdd_of_le hle, if_pos hle⟩

/-- **What one message does to a record of the same writer**: it is replaced where the message is above it, and left where
it is not. -/
theorem learnOver_honest {r : Record} {head : Head} {deleted : Option Delete} (hseq : r.current.seq ≤ maxSafe)
    (hwriter : r.current.writer = head.writer) (hunique : r.current.seq = head.seq → r.current = head)
    (hparent : r.deleted.isSome = true → head.seq = r.current.seq + 1 → head.parent = some (r.current.hash C)) :
    (claimRank (r.current, r.deleted.isSome) < claimRank (head, deleted.isSome) → learnOver C (some r) head deleted = .ok none) ∧
    (claimRank (head, deleted.isSome) ≤ claimRank (r.current, r.deleted.isSome) → learnOver C (some r) head deleted ≠ .ok none) := by
  obtain ⟨hsat, hchecked⟩ := succ_word hseq
  by_cases hsame : r.current = head
  · -- the same head: only a tombstone over a live record is above it
    subst hsame
    have hacc : acceptance (some r.current) r.current = .same := by simp [acceptance]
    have hsucc : successor C r.current r.current = .error ⟨.deleted, some r.current⟩ := by
      simp [successor, hchecked]
    rw [lt_iff_not_ge, claimRank_le]
    cases hd : r.deleted <;> cases hm : deleted <;>
      simp [learnOver, hacc, hd, hsat, hsucc]
  · have hne : r.current.seq ≠ head.seq := fun h => hsame (hunique h)
    rcases Nat.lt_or_gt_of_ne hne with hlt | hgt
    · have hacc : acceptance (some r.current) head = .new := by
        simp [acceptance, hwriter, hsame, Nat.not_lt.2 (Nat.le_of_lt hlt), hne.symm]
      have hsucc : r.deleted.isSome = true → head.seq ≤ r.current.seq + 1 → successor C head r.current = .ok () := by
        intro hd hle
        have heq : head.seq = r.current.seq + 1 := by omega
        simp [successor, hwriter, hchecked, heq, hparent hd heq]
      refine ⟨fun _ => ?_, fun hle => ?_⟩
      · simp only [learnOver, map_some, hacc, hsat]
        cases hd : r.deleted with
        | none => simp
        | some d =>
          rw [hd] at hsucc
          by_cases hle : head.seq ≤ r.current.seq + 1
          · simp [hsame, hsucc rfl hle]
          · simp [hsame, hle]
      · rw [claimRank_le] at hle
        dsimp only at hle
        omega
    · have hacc : acceptance (some r.current) head = .stale := by
        simp [acceptance, hwriter, hsame, hgt]
      refine ⟨fun hlt => ?_, fun _ => ?_⟩
      · rw [lt_iff_not_ge, claimRank_le] at hlt
        exact absurd (.inl hgt) hlt
      · simp [learnOver, hacc]

/-! ## One message -/

/-- **One message**: a record that is missing or below it is replaced, one that is not is left. -/
theorem learn_step (hw : i.writeFailed = false) (hfull : i.records.get (slotKey C room slot) = none → i.full cfg room = false)
    (hslot : m.head.slot = slot) (hm : Learnable C room m)
    (hold : ∀ r, i.records.get (slotKey C room slot) = some r → r.current.seq ≤ maxSafe ∧
      r.current.writer = m.head.writer ∧ (r.current.seq = m.head.seq → r.current = m.head) ∧
      (r.deleted.isSome = true → m.head.seq = r.current.seq + 1 → m.head.parent = some (r.current.hash C))) :
    (i.learn C cfg room m.head m.home m.deleted .done).1.writeFailed = false ∧
    (i.learn C cfg room m.head m.home m.deleted .done).1.shown (slotKey C room slot) = match i.shown (slotKey C room slot) with
      | none => some m.claim
      | some p => some (if claimRank p < claimRank m.claim then m.claim else p) := by
  subst hslot
  have hreplaced : ∀ old, (i.insert C (slotKey C room m.head.slot) (learned C old room m.head m.home m.deleted) none).shown
      (slotKey C room m.head.slot) = some m.claim := by
    intro old
    show ((i.records.insert _ _).get _).map _ = _
    rw [Table.get_insert_self]
    rfl
  cases hr : i.records.get (slotKey C room m.head.slot) with
  | none =>
    have hshown : i.shown (slotKey C room m.head.slot) = none := by rw [Index.shown, hr]; rfl
    have hover : learnOver C (i.records.get (slotKey C room m.head.slot)) m.head m.deleted = .ok none := by
      rw [hr]
      simp [learnOver, acceptance]
    rw [hshown, learn_published hw hm hover hfull]
    exact ⟨hw, hreplaced _⟩
  | some r =>
    have hshown : i.shown (slotKey C room m.head.slot) = some (r.current, r.deleted.isSome) := by rw [Index.shown, hr]; rfl
    obtain ⟨hseq, hwriter, hunique, hparent⟩ := hold r hr
    obtain ⟨habove, hbelow⟩ := @learnOver_honest C r m.head m.deleted hseq hwriter hunique hparent
    rw [hshown]
    dsimp only
    by_cases hlt : claimRank (r.current, r.deleted.isSome) < claimRank m.claim
    · rw [if_pos hlt, learn_published hw hm (by rw [hr]; exact habove hlt) hfull]
      exact ⟨hw, hreplaced _⟩
    · rw [if_neg hlt]
      rcases @learn_cases C i cfg room m.head .done m.home m.deleted with
        ⟨hi, -⟩ | ⟨-, -, hover, -⟩
      · rw [hi]
        exact ⟨hw, hshown⟩
      · rw [hr] at hover
        exact absurd hover (hbelow (not_lt.1 hlt))

theorem learn_unlearnable (h : ¬ Learnable C room m) : (i.learn C cfg room m.head m.home m.deleted .done).1 = i := by
  rcases @learn_cases C i cfg room m.head .done m.home m.deleted with
    ⟨hi, -⟩ | ⟨-, hl, -⟩
  · exact hi
  · exact absurd hl h

/-! ## Any messages -/

/-- What a provider shows is the greatest of the claims it learned, and nothing where there is none. -/
structure Shows (shown : Option (Head × Bool)) (P : Set (Head × Bool)) : Prop where
  greatest : ∀ p, shown = some p → p ∈ P ∧ ∀ q ∈ P, claimRank q ≤ claimRank p
  none : shown = none → P = ∅

theorem Honest.claims_inj (h : Honest C room slot M) {p q : Head × Bool} (hp : p ∈ claims C room M) (hq : q ∈ claims C room M)
    (hr : claimRank p = claimRank q) : p = q := by
  obtain ⟨m, hm, hl, rfl⟩ := hp
  obtain ⟨m', hm', hl', rfl⟩ := hq
  have hrank : (m.head.seq, m.deleted.isSome) = (m'.head.seq, m'.deleted.isSome) := toLex.injective hr
  rw [Prod.mk.injEq] at hrank
  exact Prod.ext (h.unique m hm m' hm' hl hl' hrank.1) hrank.2

theorem Shows.unique (h : Honest C room slot M) {s s' : Option (Head × Bool)} (hs : Shows s (claims C room M))
    (hs' : Shows s' (claims C room M)) : s = s' := by
  cases s with
  | none =>
    cases s' with
    | none => rfl
    | some p =>
      have hp := (hs'.greatest p rfl).1
      rw [hs.none rfl] at hp
      exact absurd hp (Set.notMem_empty p)
  | some p =>
    cases s' with
    | none =>
      have hp := (hs.greatest p rfl).1
      rw [hs'.none rfl] at hp
      exact absurd hp (Set.notMem_empty p)
    | some q =>
      obtain ⟨hp, hple⟩ := hs.greatest p rfl
      obtain ⟨hq, hqle⟩ := hs'.greatest q rfl
      exact congrArg some (h.claims_inj hp hq (le_antisymm (hqle p hp) (hple q hq)))

variable (C cfg room slot) in
/-- A provider after the messages of `M`: it can still be written, and shows the greatest of them. -/
structure Learned (M : Set MeshMessage) (i : Index) : Prop where
  writable : i.writeFailed = false
  full : i.records.get (slotKey C room slot) = none → i.full cfg room = false
  shows : Shows (i.shown (slotKey C room slot)) (claims C room M)

theorem claims_insert : claims C room (insert m M) = {p | Learnable C room m ∧ m.claim = p} ∪ claims C room M := by
  ext p
  constructor
  · rintro ⟨x, rfl | hx, hl, hc⟩
    · exact .inl ⟨hl, hc⟩
    · exact .inr ⟨x, hx, hl, hc⟩
  · rintro (⟨hl, hc⟩ | ⟨x, hx, hl, hc⟩)
    · exact ⟨m, .inl rfl, hl, hc⟩
    · exact ⟨x, .inr hx, hl, hc⟩

theorem Learned.step (h : Honest C room slot (insert m M)) (hi : Learned C cfg room slot M i) :
    Learned C cfg room slot (insert m M) (i.learn C cfg room m.head m.home m.deleted .done).1 := by
  by_cases hm : Learnable C room m
  · have hmem : m ∈ insert m M := .inl rfl
    obtain ⟨hw, hshown⟩ := learn_step hi.writable hi.full (h.slot m hmem hm) hm (fun r hr => by
      have hrshown : i.shown (slotKey C room slot) = some (r.current, r.deleted.isSome) := by rw [Index.shown, hr]; rfl
      obtain ⟨⟨x, hx, hxl, hxc⟩, -⟩ := hi.shows.greatest _ hrshown
      obtain ⟨hxh, hxd⟩ := Prod.mk.inj hxc
      have hx' : x ∈ insert m M := .inr hx
      rw [← hxh, ← hxd]
      exact ⟨hxl.valid.seq_le, h.writer x hx' m hmem hxl hm, h.unique x hx' m hmem hxl hm, h.parent x hx' m hmem hxl hm⟩)
    refine ⟨hw, fun hnone => ?_, fun p hp => ?_, fun hnone => ?_⟩
    · rw [Index.shown, hnone] at hshown
      split at hshown <;> cases hshown
    · rw [claims_insert]
      cases hs : i.shown (slotKey C room slot) with
      | none =>
        rw [hshown, hs] at hp
        cases hp
        rw [hi.shows.none hs]
        refine ⟨.inl ⟨hm, rfl⟩, ?_⟩
        rintro q (⟨-, rfl⟩ | hq)
        · exact le_refl _
        · exact absurd hq (Set.notMem_empty q)
      | some old =>
        rw [hshown, hs] at hp
        obtain ⟨hold, holdle⟩ := hi.shows.greatest old hs
        dsimp only at hp
        split at hp
        · rename_i hlt
          cases hp
          refine ⟨.inl ⟨hm, rfl⟩, ?_⟩
          rintro q (⟨-, rfl⟩ | hq)
          · exact le_refl _
          · exact (holdle q hq).trans hlt.le
        · rename_i hlt
          cases hp
          refine ⟨.inr hold, ?_⟩
          rintro q (⟨-, rfl⟩ | hq)
          · exact not_lt.1 hlt
          · exact holdle q hq
    · rw [hshown] at hnone
      split at hnone <;> cases hnone
  · rw [learn_unlearnable hm]
    have hclaims : claims C room (insert m M) = claims C room M := by
      rw [claims_insert]
      refine Set.union_eq_self_of_subset_left ?_
      rintro p ⟨hl, -⟩
      exact absurd hl hm
    exact ⟨hi.writable, hi.full, hclaims ▸ hi.shows⟩

theorem Honest.mono {M' : Set MeshMessage} (h : Honest C room slot M') (hsub : M ⊆ M') : Honest C room slot M where
  slot := fun m hm => h.slot m (hsub hm)
  writer := fun m hm m' hm' => h.writer m (hsub hm) m' (hsub hm')
  unique := fun m hm m' hm' => h.unique m (hsub hm) m' (hsub hm')
  parent := fun m hm m' hm' => h.parent m (hsub hm) m' (hsub hm')

theorem learned_append : ∀ (messages : List MeshMessage) {M : Set MeshMessage} {i : Index},
    Honest C room slot (M ∪ {m | m ∈ messages}) → Learned C cfg room slot M i →
      Learned C cfg room slot (M ∪ {m | m ∈ messages}) (i.learnAll C cfg room messages)
  | [], M, i, _, hi => by
    simpa [Index.learnAll] using hi
  | m :: messages, M, i, h, hi => by
    have hset : M ∪ {x | x ∈ m :: messages} = insert m M ∪ {x | x ∈ messages} := by
      ext x
      simp only [Set.mem_union, Set.mem_ofPred_eq, List.mem_cons, Set.mem_insert_iff]
      tauto
    rw [hset] at h ⊢
    exact learned_append messages h (hi.step (h.mono Set.subset_union_left))

/-- A provider that has room and knows nothing of the slot. -/
structure Fresh (C : Crates) (cfg : Config) (room slot : String) (i : Index) : Prop where
  writable : i.writeFailed = false
  absent : i.records.get (slotKey C room slot) = none
  room : i.full cfg room = false

theorem Fresh.learned (h : Fresh C cfg room slot i) : Learned C cfg room slot ∅ i where
  writable := h.writable
  full := fun _ => h.room
  shows := by
    refine ⟨fun p hp => ?_, fun _ => Set.eq_empty_iff_forall_notMem.2 (fun p ⟨m, hm, _⟩ => hm)⟩
    rw [Index.shown, h.absent] at hp
    cases hp

theorem Fresh.learnAll (hi : Fresh C cfg room slot i) {messages : List MeshMessage}
    (h : Honest C room slot {m | m ∈ messages}) :
    Learned C cfg room slot {m | m ∈ messages} (i.learnAll C cfg room messages) := by
  have := @learned_append C cfg room slot messages ∅ i (by rwa [Set.empty_union]) hi.learned
  rwa [Set.empty_union] at this

/-- **The mesh agrees.**  For a slot of an honest writer, a provider that learns any messages, in any order and
however often, shows the greatest of those that pass their checks; two that learned the same show the same; and a
deleted head is never shown again. -/
theorem mesh_converges (C : Crates) (room slot : String) (messages : List MeshMessage)
    (h : Honest C room slot {m | m ∈ messages}) (cfg : Config) (i : Index) (hi : Fresh C cfg room slot i) :
    ((i.learnAll C cfg room messages).shown (slotKey C room slot) = none ∧ claims C room {m | m ∈ messages} = ∅ ∨
      ∃ p, (i.learnAll C cfg room messages).shown (slotKey C room slot) = some p ∧
        p ∈ claims C room {m | m ∈ messages} ∧ ∀ q ∈ claims C room {m | m ∈ messages}, claimRank q ≤ claimRank p) ∧
    (∀ cfg' i' messages', Fresh C cfg' room slot i' → (∀ m, m ∈ messages' ↔ m ∈ messages) →
      (i'.learnAll C cfg' room messages').shown (slotKey C room slot)
        = (i.learnAll C cfg room messages).shown (slotKey C room slot)) ∧
    ∀ m ∈ messages, Learnable C room m → m.deleted.isSome = true → (i.learnAll C cfg room messages).head C room slot ≠ some m.head := by
  have hl := hi.learnAll h
  refine ⟨?_, fun cfg' i' messages' hi' hsame => ?_, fun m hm hlearn hdel hshow => ?_⟩
  · cases hs : (i.learnAll C cfg room messages).shown (slotKey C room slot) with
    | none => exact .inl ⟨rfl, hl.shows.none hs⟩
    | some p => exact .inr ⟨p, rfl, hl.shows.greatest p hs⟩
  · have hset : {m | m ∈ messages'} = {m | m ∈ messages} := Set.ext hsame
    have hl' := hi'.learnAll (hset ▸ h)
    rw [hset] at hl'
    exact hl'.shows.unique h hl.shows
  · obtain ⟨r, hr, hcur⟩ := map_eq_some_iff.1 hshow
    obtain ⟨hget, hlive⟩ := filter_eq_some_iff.1 hr
    have hshown : (i.learnAll C cfg room messages).shown (slotKey C room slot) = some (m.head, false) := by
      rw [Index.shown, hget, map_some, hcur, isNone_iff_eq_none.1 hlive]
      rfl
    have hle := (hl.shows.greatest _ hshown).2 m.claim ⟨m, hm, hlearn, rfl⟩
    rw [claimRank_le] at hle
    simp [MeshMessage.claim, hdel] at hle
    exact absurd hle (by decide)

def noteMessages : List MeshMessage := [⟨noteHead, none, some noteDelete⟩, ⟨noteHead, none, none⟩]

theorem note_learnable : learnable noteCrates "notes" noteHead none (some noteDelete) = .ok () := by decide +kernel

theorem mesh_converges_note : Learnable noteCrates "notes" ⟨noteHead, none, some noteDelete⟩ ∧
    (Index.default.learnAll noteCrates .default "notes" noteMessages).head noteCrates "notes" noteHead.slot
      ≠ some noteHead := by
  have hall : ∀ m ∈ {m | m ∈ noteMessages}, m.head = noteHead := by
    intro m hm
    rcases List.mem_cons.1 hm with rfl | hm
    · rfl
    · rw [List.mem_singleton.1 hm]
  have honest : Honest noteCrates "notes" noteHead.slot {m | m ∈ noteMessages} := by
    refine ⟨fun m hm _ => ?_, fun m hm m' hm' _ _ => ?_, fun m hm m' hm' _ _ _ => ?_, fun m hm m' hm' _ _ _ hs => ?_⟩
    · rw [hall m hm]
    · rw [hall m hm, hall m' hm']
    · rw [hall m hm, hall m' hm']
    · rw [hall m hm, hall m' hm'] at hs
      exact absurd hs (by decide)
  have fresh : Fresh noteCrates .default "notes" noteHead.slot Index.default := ⟨rfl, rfl, by decide⟩
  have hlearn : Learnable noteCrates "notes" ⟨noteHead, none, some noteDelete⟩ := note_learnable
  exact ⟨hlearn, (mesh_converges noteCrates "notes" noteHead.slot noteMessages honest .default .default
    fresh).2.2 _ List.mem_cons_self hlearn rfl⟩

end Mistl.Escrow
