import Mistl.EscrowState
import Mathlib.Logic.Relation
/-!
# EscrowHistory — a slot's history is linear

Over every log from the default state: a slot that was used stays live or deleted, never both, and its current head
moves only to a direct successor, also across a deletion.
-/
open Mistl.Table Option

namespace Mistl.Escrow

variable (C : Crates)

def State.current (s : State) (slot : String) : Option Head := (s.heads.get slot).or (s.deleted.get slot)

def Keyed (m : Table String Head) : Prop := ∀ slot h, m.get slot = some h → h.slot = slot ∧ h.Valid C gib

variable {slot : String} {m : Table String Head}

theorem Keyed.insert (hm : Keyed C m) {h : Head} (hs : h.slot = slot)
    (hv : h.Valid C gib) : Keyed C (m.insert slot h) := by
  intro k x hx
  rcases of_get_insert hx with ⟨hk, rfl⟩ | ⟨-, hx⟩
  · exact ⟨hs.trans hk.symm, hv⟩
  · exact hm k x hx

theorem Keyed.erase (hm : Keyed C m) (slot : String) : Keyed C (m.erase slot) := by
  intro k x hx
  obtain ⟨-, hx⟩ := of_get_erase hx
  exact hm k x hx

theorem Keyed.insertAll (hm : Keyed C m) {heads : List Head}
    (hv : ∀ h ∈ heads, h.Valid C gib) : Keyed C (insertAll Head.slot heads m) := by
  intro k x hx
  rcases get_insertAll Head.slot heads m hx with ⟨hmem, hk⟩ | hg
  · exact ⟨hk, hv x hmem⟩
  · exact hm k x hg

/-- **The invariant of the state.** -/
structure State.Linear (s : State) : Prop where
  heads : Keyed C s.heads
  previous : Keyed C s.previous
  deleted : Keyed C s.deleted
  apart : ∀ slot h, s.heads.get slot = some h → s.deleted.get slot = none
  parent : ∀ slot p, s.previous.get slot = some p → ∃ h, s.heads.get slot = some h ∧ Extends C h p
  flags : s.migrationFinished = true → s.migrationStarted = true
  fresh : s.migrating = true → s.deleted = ∅ ∧ s.previous = ∅

theorem State.Linear.default : State.default.Linear C where
  heads := nofun
  previous := nofun
  deleted := nofun
  apart := nofun
  parent := nofun
  flags := fun h => h
  fresh := fun _ => ⟨rfl, rfl⟩

variable {C} in
theorem State.Linear.previous_none {s : State} (hl : s.Linear C) (h : s.heads.get slot = none) : s.previous.get slot = none := by
  cases hp : s.previous.get slot with
  | none => rfl
  | some p =>
    obtain ⟨x, hx, -⟩ := hl.parent slot p hp
    rw [h] at hx
    cases hx

variable {C} in
theorem State.Linear.heads_none {s : State} (hl : s.Linear C) {h : Head}
    (hd : s.deleted.get slot = some h) : s.heads.get slot = none := by
  cases hh : s.heads.get slot with
  | none => rfl
  | some x =>
    rw [hl.apart slot x hh] at hd
    cases hd

/-! ## The invariant along a step -/

variable {C} {maxSlots : Nat} {s t : State}

section

variable (hl : s.Linear C)

include hl

theorem linear_recreate {head old : Head} (hv : head.Valid C gib) (hm : s.migrating = false)
    (hold : s.deleted.get head.slot = some old) (bytes : Nat) :
    State.Linear C { s with metadataBytes := bytes, deleted := s.deleted.erase head.slot, heads := s.heads.insert head.slot head } where
  heads := hl.heads.insert C rfl hv
  previous := hl.previous
  deleted := hl.deleted.erase C _
  apart := by
    intro slot h hh
    rw [get_erase]
    split
    · rfl
    · rename_i hne
      rw [get_insert_ne hne] at hh
      exact hl.apart slot h hh
  parent := by
    intro slot p hp
    have hne : slot ≠ head.slot := by
      rintro rfl
      have hp' : s.previous.get head.slot = some p := hp
      rw [hl.previous_none (hl.heads_none hold)] at hp'
      cases hp'
    rw [get_insert_ne hne]
    exact hl.parent slot p hp
  flags := hl.flags
  fresh := fun h => absurd h (Bool.eq_false_iff.1 hm)

theorem linear_put {head : Head} (hv : head.Valid C gib) (hm : s.migrating = false)
    (hd : s.deleted.get head.slot = none) {previous : Table String Head} (hk : Keyed C previous)
    (hself : ∀ p, previous.get head.slot = some p → Extends C head p)
    (hother : ∀ slot, slot ≠ head.slot → previous.get slot = s.previous.get slot) (bytes : Nat) :
    State.Linear C { s with metadataBytes := bytes, heads := s.heads.insert head.slot head, previous := previous } where
  heads := hl.heads.insert C rfl hv
  previous := hk
  deleted := hl.deleted
  apart := by
    intro slot h hh
    rw [get_insert] at hh
    split at hh
    · rename_i he
      rw [he, hd]
    · exact hl.apart slot h hh
  parent := by
    intro slot p hp
    rw [get_insert]
    split
    · rename_i he
      exact ⟨head, rfl, hself p (he ▸ hp)⟩
    · rename_i hne
      exact hl.parent slot p (hother slot hne ▸ hp)
  flags := hl.flags
  fresh := fun h => absurd h (Bool.eq_false_iff.1 hm)

theorem linear_remove {head : Head} (hm : s.migrating = false) (hh : s.heads.get slot = some head) (bytes : Nat) :
    State.Linear C { s with heads := s.heads.erase slot, deleted := s.deleted.insert slot head,
                            previous := s.previous.erase slot, metadataBytes := bytes } where
  heads := hl.heads.erase C _
  previous := hl.previous.erase C _
  deleted := hl.deleted.insert C (hl.heads slot head hh).1 (hl.heads slot head hh).2
  apart := by
    intro k h hk
    obtain ⟨hne, hk⟩ := of_get_erase hk
    rw [get_insert_ne hne]
    exact hl.apart k h hk
  parent := by
    intro k p hp
    obtain ⟨hne, hp⟩ := of_get_erase hp
    rw [get_erase_ne hne]
    exact hl.parent k p hp
  flags := hl.flags
  fresh := fun h => absurd h (Bool.eq_false_iff.1 hm)

theorem linear_bootstrap {heads : List Head} (hv : ∀ h ∈ heads, h.Valid C gib)
    (hm : s.migrating = true) (bytes : Nat) :
    State.Linear C { s with metadataBytes := bytes, heads := insertAll Head.slot heads s.heads } where
  heads := hl.heads.insertAll C hv
  previous := hl.previous
  deleted := hl.deleted
  apart := fun slot h _ => by rw [(hl.fresh hm).1, get_empty]
  parent := fun slot p hp => by
    rw [(hl.fresh hm).2] at hp
    cases hp
  flags := hl.flags
  fresh := fun _ => hl.fresh hm

theorem linear_begin (h : s.migrationStarted = true ∨ s.isEmpty = true)
    (hf : s.migrationFinished = false) : State.Linear C { s with migrationStarted := true } where
  heads := hl.heads
  previous := hl.previous
  deleted := hl.deleted
  apart := hl.apart
  parent := hl.parent
  flags := fun _ => rfl
  fresh := fun _ => by
    rcases h with h | h
    · exact hl.fresh (by simp [State.migrating, h, hf])
    · simp only [State.isEmpty, Bool.and_eq_true, beq_iff_eq, size_eq_zero] at h
      refine ⟨h.2, eq_empty_iff.2 (fun k => hl.previous_none ?_)⟩
      rw [h.1, get_empty]

end

theorem Step.linear (h : Step C maxSlots s t) (hl : s.Linear C) : t.Linear C := by
  cases h with
  | stay => exact hl
  | recreate head old hv hm hold hx hb => exact linear_recreate hl hv hm hold _
  | create head hv hm hd hh hq hb =>
    refine linear_put hl hv hm hd hl.previous (fun p hp => ?_) (fun _ _ => rfl) _
    rw [hl.previous_none hh] at hp
    cases hp
  | extend head old hv hm hd hh hx hb =>
    refine linear_put hl hv hm hd (hl.previous.insert C (hl.heads _ _ hh).1 (hl.heads _ _ hh).2) (fun p hp => ?_)
      (fun slot hne => get_insert_ne hne _ _) _
    rw [get_insert_self] at hp
    cases hp
    exact hx
  | remove slot head hm hh => exact linear_remove hl hm hh _
  | bootstrap heads hv hnd hm hsame hq hlen hb => exact linear_bootstrap hl hv hm _
  | begin hf h => exact linear_begin hl h hf
  | complete h => exact { hl with flags := fun _ => h, fresh := fun hm => by simp [State.migrating] at hm }

theorem run_linear (maxSlots : Nat) : ∀ (log : Log) {s : State}, s.Linear C → (s.run C maxSlots log).Linear C
  | [], _, hl => hl
  | c :: log, s, hl => by
    exact run_linear maxSlots log ((apply_step C maxSlots s c.1 c.2).linear hl)

/-! ## The current head along a step -/

theorem Step.current (h : Step C maxSlots s t) (hl : s.Linear C) {x : Head}
    (hx : s.current slot = some x) : ∃ y, t.current slot = some y ∧ (y = x ∨ Extends C y x) := by
  have keep : ∀ u : State, u.heads.get slot = s.heads.get slot → u.deleted.get slot = s.deleted.get slot →
      ∃ y, u.current slot = some y ∧ (y = x ∨ Extends C y x) := by
    intro u h1 h2
    exact ⟨x, by rw [State.current, h1, h2]; exact hx, .inl rfl⟩
  cases h with
  | stay | begin hf h | complete h => exact keep _ rfl rfl
  | recreate head old hv hm hold hxt hb =>
    by_cases he : slot = head.slot
    · subst he
      rw [State.current, hl.heads_none hold, hold] at hx
      cases hx
      exact ⟨head, by simp [State.current], .inr hxt⟩
    · exact keep _ (get_insert_ne he _ _) (get_erase_ne he _)
  | create head hv hm hd hh hq hb =>
    by_cases he : slot = head.slot
    · subst he
      rw [State.current, hh, hd] at hx
      cases hx
    · exact keep _ (get_insert_ne he _ _) rfl
  | extend head old hv hm hd hh hxt hb =>
    by_cases he : slot = head.slot
    · subst he
      rw [State.current, hh] at hx
      cases hx
      exact ⟨head, by simp [State.current], .inr hxt⟩
    · exact keep _ (get_insert_ne he _ _) rfl
  | remove k head hm hh =>
    by_cases he : slot = k
    · subst he
      rw [State.current, hh] at hx
      cases hx
      exact ⟨x, by simp [State.current], .inl rfl⟩
    · exact keep _ (get_erase_ne he _) (get_insert_ne he _ _)
  | bootstrap heads hv hnd hm hsame hq hlen hb =>
    have hg : s.heads.get slot = some x := by
      rwa [State.current, (hl.fresh hm).1, get_empty, or_none] at hx
    refine ⟨x, ?_, .inl rfl⟩
    rw [State.current, get_insertAll_of_agrees Head.slot heads s.heads (fun h hh hk => ?_) hg]
    · rfl
    · exact (hsame h hh x (hk ▸ hg)).symm

variable (C) in
def Descends : Head → Head → Prop := Relation.ReflTransGen fun a b => Extends C b a

theorem Descends.writer {a b : Head} (h : Descends C a b) : b.writer = a.writer := by
  induction h with
  | refl => rfl
  | tail _ hx ih => exact hx.writer.trans ih

theorem run_current (maxSlots : Nat) : ∀ (log : Log) {s : State}, s.Linear C → ∀ {slot : String} {x : Head},
    s.current slot = some x → ∃ y, (s.run C maxSlots log).current slot = some y ∧ Descends C x y
  | [], _, _, _, x, hx => ⟨x, hx, .refl⟩
  | c :: log, s, hl, slot, x, hx => by
    have hstep := apply_step C maxSlots s c.1 c.2
    obtain ⟨y, hy, hxy⟩ := hstep.current hl hx
    obtain ⟨z, hz, hyz⟩ := run_current maxSlots log (hstep.linear hl) hy
    refine ⟨z, hz, ?_⟩
    rcases hxy with rfl | hxy
    · exact hyz
    · exact .head hxy hyz

theorem State.Linear.exactly_one (hl : s.Linear C) {x : Head} (hx : s.current slot = some x) :
    Xor (s.heads.contains slot = true) (s.deleted.contains slot = true) := by
  cases hh : s.heads.get slot with
  | some h =>
    refine .inl ⟨contains_iff.2 ⟨h, hh⟩, ?_⟩
    rw [contains_eq_false.2 (hl.apart slot h hh)]
    decide
  | none =>
    rw [State.current, hh] at hx
    refine .inr ⟨contains_iff.2 ⟨x, hx⟩, ?_⟩
    rw [contains_eq_false.2 hh]
    decide

/-- **A slot's history is linear.**  After any log: a used slot is live or deleted, exactly one of the two, after
every further log; one more command leaves the current head or replaces it by its direct successor; and a retained
previous head is the direct predecessor of a live one. -/
theorem slot_history (C : Crates) (maxSlots : Nat) (log : Log) (slot : String) : let s := State.default.run C maxSlots log
    (∀ x, s.current slot = some x → ∀ later, ∃ y,
      (s.run C maxSlots later).current slot = some y ∧ Descends C x y ∧ y.writer = x.writer ∧
      Xor ((s.run C maxSlots later).heads.contains slot = true)
        ((s.run C maxSlots later).deleted.contains slot = true)) ∧
    (∀ x, s.current slot = some x → ∀ command id, ∃ y, (s.apply C command id maxSlots).1.current slot = some y ∧
      (y = x ∨ (y.writer = x.writer ∧ y.seq = x.seq + 1 ∧ y.parent = some (x.hash C)))) ∧
    (∀ p, s.previous.get slot = some p → ∃ x, s.heads.get slot = some x ∧ x.writer = p.writer ∧
      x.seq = p.seq + 1 ∧ x.parent = some (p.hash C)) := by
  intro s
  have hl : s.Linear C := run_linear maxSlots log (.default C)
  refine ⟨fun x hx later => ?_, fun x hx command id => ?_, fun p hp => ?_⟩
  · obtain ⟨y, hy, hxy⟩ := run_current maxSlots later hl hx
    exact ⟨y, hy, hxy, hxy.writer, (run_linear maxSlots later hl).exactly_one hy⟩
  · obtain ⟨y, hy, hxy⟩ := (apply_step C maxSlots s command id).current hl hx
    refine ⟨y, hy, hxy.imp_right (fun h => ⟨h.writer, h.seq, h.parent⟩)⟩
  · obtain ⟨x, hx, h⟩ := hl.parent slot p hp
    exact ⟨x, hx, h.writer, h.seq, h.parent⟩

end Mistl.Escrow
