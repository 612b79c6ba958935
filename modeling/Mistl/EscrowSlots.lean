import Mathlib.Order.BooleanAlgebra.Basic
import Mistl.EscrowConverge
import Mistl.EscrowQuota
/-!
# EscrowSlots — the history of a slot only goes on

`commit` relies on what `reserve` found, and on the lock of the slot in between; `import` and `learn` may pass over heads.
What all the same holds of a record that is not removed is `slot_record_history`.
-/
open Mistl.Table Option

namespace Mistl.Escrow

variable (C : Crates)

structure Record.Linked (r : Record) : Prop where
  signed : r.current.verify C = .ok ()
  previous : ∀ p, r.previous = some p → Extends C r.current p ∧ p.verify C = .ok ()

/-- The same head or a later one of the same writer, and no tombstone lifted. -/
structure Record.Advances (r r' : Record) : Prop where
  writer : r'.current.writer = r.current.writer
  order : toLex (r.current.seq, r.deleted.isSome) ≤ toLex (r'.current.seq, r'.deleted.isSome)
  current : r'.current = r.current ∨ r.current.seq < r'.current.seq

def Index.Linked (i : Index) : Prop := ∀ key r, i.records.get key = some r → r.Linked C

/-- What an operation on a slot does to the records: the others stay, and its own stays, goes or goes on. -/
structure Index.Moves (key : String) (i i' : Index) : Prop where
  others : ∀ k, k ≠ key → i'.records.get k = i.records.get k
  own : i'.records.get key = i.records.get key ∨ i'.records.get key = none ∨
    ∃ r', i'.records.get key = some r' ∧ r'.Linked C ∧ ∀ r, i.records.get key = some r → r.Advances r'

variable {C} {i i' : Index} {cfg : Config} {room : String} {head : Head} {io : Io} {key : String}

/-! ## Records -/

theorem Record.Advances.refl (r : Record) : r.Advances r := ⟨rfl, le_rfl, .inl rfl⟩

theorem Record.Advances.trans {a b c : Record} (h : a.Advances b) (h' : b.Advances c) : a.Advances c := by
  refine ⟨h'.writer.trans h.writer, h.order.trans h'.order, ?_⟩
  rcases h.current with he | hlt
  · rw [← he]
    exact h'.current
  · rcases h'.current with he' | hlt'
    · rw [he']
      exact .inr hlt
    · exact .inr (hlt.trans hlt')

variable {r r' : Record}

theorem Record.advances_of_lt (hw : r'.current.writer = r.current.writer)
    (hlt : r.current.seq < r'.current.seq) : r.Advances r' :=
  ⟨hw, le_of_lt (Prod.Lex.toLex_lt_toLex.2 (.inl hlt)), .inr hlt⟩

theorem Record.advances_of_eq (hc : r'.current = r.current)
    (hd : r.deleted.isSome = true → r'.deleted.isSome = true) : r.Advances r' := by
  refine ⟨by rw [hc], Prod.Lex.toLex_le_toLex.2 (.inr ⟨by rw [hc], ?_⟩), .inl hc⟩
  exact Bool.le_iff_imp.2 hd

theorem Record.advances_of_extends (h : Extends C r'.current r.current) : r.Advances r' :=
  Record.advances_of_lt h.writer (by rw [h.seq]; exact Nat.lt_succ_self _)

theorem successor_extends {deleted : Head} (h : successor C head deleted = .ok ()) : Extends C head deleted := by
  unfold successor at h
  split at h
  · cases h
  rename_i hw
  split at h
  · cases h
  rename_i hn
  rw [not_or, not_not, not_not] at hn
  exact ⟨not_not.1 hw, (checkedAdd_eq_some.1 hn.1).1.symm, hn.2⟩

/-! ## Operations -/

theorem Index.Moves.same (h : i'.records = i.records) (key : String) : i.Moves C key i' := ⟨fun k _ => by rw [h], .inl (by rw [h])⟩

theorem Index.Moves.linked (h : i.Moves C key i') (hi : i.Linked C) : i'.Linked C := by
  intro k r hr
  by_cases hk : k = key
  · subst hk
    rcases h.own with he | hn | ⟨r', hr', hl, -⟩
    · exact hi k r (he ▸ hr)
    · rw [hn] at hr
      cases hr
    · rw [hr'] at hr
      cases hr
      exact hl
  · exact hi k r (h.others k hk ▸ hr)

theorem Index.Moves.advances (h : i.Moves C key i') {k : String} (hr : i.records.get k = some r)
    (hr' : i'.records.get k = some r') : r.Advances r' := by
  by_cases hk : k = key
  · subst hk
    rcases h.own with he | hn | ⟨r'', hr'', -, ha⟩
    · rw [he, hr] at hr'
      cases hr'
      exact .refl r
    · rw [hn] at hr'
      cases hr'
    · rw [hr''] at hr'
      cases hr'
      exact ha r hr
  · rw [h.others k hk, hr] at hr'
    cases hr'
    exact .refl r

theorem moves_publish {r' : Record} {manifest : Option (FileManifest × Nat)} (hl : r'.Linked C)
    (ha : ∀ r, i.records.get key = some r → r.Advances r') : i.Moves C key (i.publish (i.insert C key r' manifest) io) := by
  have hdone : i.Moves C key (i.insert C key r' manifest) :=
    ⟨fun k hk => get_insert_ne hk i.records r', .inr (.inr ⟨r', get_insert_self _ _ _, hl, ha⟩)⟩
  cases io with
  | done => exact hdone
  | unpublished => exact ⟨fun _ _ => rfl, .inl rfl⟩
  | uncleaned => exact ⟨hdone.others, hdone.own⟩

theorem moves_erase : i.Moves C key (i.publish (Index.rebuild C { i with records := i.records.erase key }) io) := by
  have hdone : i.Moves C key (Index.rebuild C { i with records := i.records.erase key }) :=
    ⟨fun k hk => get_erase_ne hk i.records, .inr (.inl (get_erase_self _ _))⟩
  cases io with
  | done => exact hdone
  | unpublished => exact ⟨fun _ _ => rfl, .inl rfl⟩
  | uncleaned => exact ⟨hdone.others, hdone.own⟩

theorem Trimmed.moves {out : Index × List Effect × Except Error Unit} (hi : i.Linked C) (h : Trimmed C i io key out) :
    i.Moves C key out.1 := by
  rcases h with ⟨he, -⟩ | ⟨r, r', hr, ht, -, hout, -⟩
  · exact .same (by rw [he]) key
  · rw [hout]
    have hl := hi key r hr
    refine moves_publish ⟨ht.current ▸ hl.signed, fun p hp => ?_⟩ (fun s hs => ?_)
    · rcases ht.previous with ⟨hprev, -⟩ | ⟨hnone, -⟩
      · rw [ht.current]
        exact hl.previous p (hprev ▸ hp)
      · rw [hnone] at hp
        cases hp
    · rw [hr] at hs
      cases hs
      exact Record.advances_of_eq ht.current (by rw [ht.deleted]; exact id)

theorem learnOver_advances {r : Record} {deleted : Option Delete} (hseq : head.seq ≤ maxSafe)
    (h : learnOver C (some r) head deleted = .ok none) :
    head.writer = r.current.writer ∧ (r.current.seq < head.seq ∨ head = r.current ∧ r.deleted = none) := by
  have hwriter : r.current.writer = head.writer := by
    by_contra hw
    simp [learnOver, acceptance, hw] at h
  refine ⟨hwriter.symm, ?_⟩
  by_cases hsame : r.current = head
  · -- the same head is taken in only as the tombstone of a live record
    subst hsame
    refine .inr ⟨rfl, ?_⟩
    have hchecked := (succ_word hseq).2
    have hsat := (succ_word hseq).1
    have hsucc : successor C r.current r.current = .error ⟨.deleted, some r.current⟩ := by
      simp [successor, hchecked]
    by_contra hd
    obtain ⟨d, hd⟩ := ne_none_iff_exists'.1 hd
    cases hm : deleted <;> simp [learnOver, acceptance, hd, hm, hsat, hsucc] at h
  · rcases Nat.lt_trichotomy r.current.seq head.seq with hlt | heq | hgt
    · exact .inl hlt
    · simp [learnOver, acceptance, hwriter, hsame, heq] at h
    · simp [learnOver, acceptance, hwriter, hsame, hgt] at h

theorem learned_linked {home : Option String} {deleted : Option Delete} (hv : head.Valid C gib) (hi : i.Linked C)
    (h : learnOver C (i.records.get key) head deleted = .ok none) :
    (learned C (i.records.get key) room head home deleted).Linked C := by
  refine ⟨hv.signed, fun p hp => ?_⟩
  obtain ⟨r, hr, rfl⟩ := map_eq_some_iff.1 hp
  obtain ⟨hget, hcond⟩ := filter_eq_some_iff.1 hr
  simp only [Bool.and_eq_true, decide_eq_true_eq] at hcond
  rw [hget] at h
  have hnum : head.seq = r.current.seq + 1 := by
    have h1 := hcond.1.2
    have h2 := hv.seq_le
    simp only [satAdd] at h1
    unfold maxSafe at h2
    unfold u64Max at h1
    omega
  exact ⟨⟨(learnOver_advances hv.seq_le h).1, hnum, hcond.2⟩, (hi key r hget).signed⟩

theorem learn_moves (hi : i.Linked C) (home : Option String) (deleted : Option Delete) :
    i.Moves C (slotKey C room head.slot) (i.learn C cfg room head home deleted io).1 := by
  rcases @learn_cases C i cfg room head io home deleted with ⟨he, -⟩ | ⟨-, hl, hover, -, hout, -⟩
  · exact .same (by rw [he]) _
  · have hv := learnable_valid hl
    rw [hout]
    refine moves_publish (learned_linked hv hi hover) (fun r hr => ?_)
    rw [hr] at hover
    obtain ⟨hw, hlt | ⟨rfl, hd⟩⟩ := learnOver_advances hv.seq_le hover
    · exact Record.advances_of_lt hw hlt
    · exact Record.advances_of_eq rfl (by rw [hd]; nofun)

theorem meshDelete_moves (hi : i.Linked C) (delete : Delete) :
    i.Moves C (slotKey C room delete.slot) (i.meshDelete C cfg room delete io).1 := by
  rcases @meshDelete_cases C i cfg room io delete with ⟨he, -⟩ | ⟨r, -, hslot, hout, -⟩
  · exact .same (by rw [he]) _
  · rw [hout, ← hslot]
    exact learn_moves hi r.home (some delete)

theorem importOver_advances {r : Record} {previous : Option Head} {previousHeld : Bool} (hl : r.Linked C)
    (h : importOver C (some r) head = .ok (previous, previousHeld)) :
    head.writer = r.current.writer ∧ (r.current.seq < head.seq ∨ head = r.current ∧ r.deleted = none) ∧
      ∀ p, previous = some p → Extends C head p ∧ p.verify C = .ok () := by
  unfold importOver at h
  dsimp only at h
  split at h
  · cases h
  rename_i hrefused
  have hdel : r.deleted.isSome = true → Extends C head r.current := by
    intro hd
    obtain ⟨d, hd⟩ := isSome_iff_exists.1 hd
    rw [hd] at hrefused
    dsimp only at hrefused
    split at hrefused
    · cases hrefused
    · rename_i hs
      exact successor_extends hs
  split at h
  · cases h
  split at h
  · cases h
  rename_i hw
  split at h
  · cases h
  split at h
  · cases h
  rename_i hconflict
  have hwriter : head.writer = r.current.writer := (not_not.1 hw).symm
  have horder : r.current.seq < head.seq ∨ head = r.current ∧ r.deleted = none := by
    by_cases hlt : r.current.seq < head.seq
    · exact .inl hlt
    · have heq : head.seq = r.current.seq := by omega
      have hsame : r.current = head := by
        by_contra hne
        exact hconflict ⟨heq, hne⟩
      refine .inr ⟨hsame.symm, ?_⟩
      by_contra hd
      have := (hdel (isSome_iff_ne_none.2 hd)).seq
      omega
  refine ⟨hwriter, horder, ?_⟩
  split at h
  · rename_i hsame
    cases h
    rw [← hsame.2]
    exact hl.previous
  split at h
  · rename_i hnext
    cases h
    intro p hp
    cases hp
    exact ⟨⟨hwriter, (checkedAdd_eq_some.1 hnext.2.1).1.symm, hnext.2.2⟩, hl.signed⟩
  · cases h
    exact nofun

theorem importHead_moves (hi : i.Linked C) (blob bytes : List UInt8) :
    i.Moves C (slotKey C room head.slot) (i.importHead C cfg room head blob bytes io).1 := by
  rcases @importHead_cases C i cfg room head io blob bytes with
    ⟨he, -⟩ | ⟨-, -, hv, manifest, previous, previousHeld, -, hover, -, -, hout, -⟩
  · exact .same (by rw [he]) _
  · rw [hout]
    cases hr : i.records.get (slotKey C room head.slot) with
    | none =>
      rw [hr] at hover
      cases hover
      exact moves_publish ⟨hv.signed, nofun⟩ (fun r h => by rw [hr] at h; cases h)
    | some r =>
      rw [hr] at hover
      obtain ⟨hw, horder, hprev⟩ := importOver_advances (hi _ r hr) hover
      refine moves_publish ⟨hv.signed, hprev⟩ (fun r' h => ?_)
      rw [hr] at h
      cases h
      rcases horder with hlt | ⟨heq, hd⟩
      · exact Record.advances_of_lt hw hlt
      · exact Record.advances_of_eq heq (by rw [hd]; nofun)

theorem delete_moves (request : Delete) : i.Moves C (slotKey C room request.slot) (i.delete C room request io).1 := by
  rcases @delete_cases C i room io request with ⟨he, -⟩ | ⟨-, -, hout, -⟩
  · exact .same (by rw [he]) _
  · rw [hout]
    exact moves_erase

/-! ## A reservation and its commit -/

/-- What `reserve` found of a head that it reserves for: it is the current one, or it extends it, deleted or not. -/
def Extending (C : Crates) (record : Option Record) (head : Head) : Prop :=
  ∀ r, record = some r → head = r.current ∧ r.deleted = none ∨ Extends C head r.current

theorem isRetry_extending {record : Option Record} {retry : Bool} (h : isRetry C record head = .ok retry) :
    Extending C record head := by
  rintro r rfl
  unfold isRetry at h
  dsimp only at h
  split at h
  · split at h
    · cases h
    · rename_i hs
      exact .inr (successor_extends hs)
  · rename_i hd
    cases retry with
    | true => exact .inl ⟨checkCas_true C h, by simpa using hd⟩
    | false => exact .inr (checkCas_false C h)

theorem kept_linked (hl : ∀ r, i.records.get key = some r → r.Linked C) {p : Head}
    (h : (kept C (i.records.get key) head).1 = some p) : Extends C head p ∧ p.verify C = .ok () := by
  unfold kept at h
  split at h
  · rename_i r hr
    have hlinked := hl r (filter_eq_some_iff.1 hr).1
    split at h
    · rename_i heq
      rw [← heq]
      exact hlinked.previous p h
    · split at h
      · rename_i hcas
        cases h
        exact ⟨checkCas_false C hcas, hlinked.signed⟩
      · cases h
  · cases h

theorem commit_stores (blob bytes : List UInt8) {r : Record}
    (h : (i.commit C room head blob bytes io).1.records.get (slotKey C room head.slot) = some r) :
    i.records.get (slotKey C room head.slot) = some r ∨ r.current = head := by
  rcases @commit_cases C i room head io blob bytes with ⟨he, -, -⟩ | ⟨-, manifest, -, hout⟩
  · rw [he] at h
    exact .inl h
  · rw [hout] at h
    cases io with
    | unpublished => exact .inl h
    | done =>
      rw [show (Index.commitInner C i room head _ _ _ blob bytes manifest .done).1.records = i.records.insert _ _ from rfl,
        get_insert_self] at h
      cases h
      exact .inr rfl
    | uncleaned =>
      rw [show (Index.commitInner C i room head _ _ _ blob bytes manifest .uncleaned).1.records = i.records.insert _ _ from rfl,
        get_insert_self] at h
      cases h
      exact .inr rfl

theorem commit_moves (hi : i.Linked C) (hs : head.verify C = .ok ())
    (he : Extending C (i.records.get (slotKey C room head.slot)) head) (blob bytes : List UInt8) :
    i.Moves C (slotKey C room head.slot) (i.commit C room head blob bytes io).1 := by
  rcases @commit_cases C i room head io blob bytes with ⟨hsame, -, -⟩ | ⟨-, manifest, -, hout⟩
  · exact .same (by rw [hsame]) _
  · rw [hout]
    refine moves_publish ⟨hs, fun p hp => kept_linked (hi _) hp⟩ (fun r hr => ?_)
    rcases he r hr with ⟨heq, hd⟩ | hext
    · exact Record.advances_of_eq heq (by rw [hd]; nofun)
    · exact Record.advances_of_extends hext

/-! ## Runs -/

namespace Desk

/-- An operation on the repository, or the retirement of a room, which takes some of its records away. -/
inductive Turn (C : Crates) (cfg : Config) (K : Callers) (d : Desk) : Desk → Prop
  | step {readable : String → Head → Bool} {io : Io} {effects : List Effect} {d' : Desk} :
      Step C cfg K readable io d effects d' → Turn C cfg K d d'
  | retireRoom (room : String) (i : Index) : (∀ k, i.records.get k = d.index.records.get k ∨
      i.records.get k = none ∧ ∃ r, d.index.records.get k = some r ∧ r.room = room) → Turn C cfg K d ⟨i, d.bookings⟩

def Keeps (C : Crates) (cfg : Config) (K : Callers) (key : String) : Desk → Desk → Prop :=
  Relation.ReflTransGen (fun d d' => Turn C cfg K d d' ∧ (d'.index.records.get key).isSome = true)

structure Awaited (C : Crates) (i : Index) (b : Booking) : Prop where
  key : b.reservation.key = slotKey C b.room b.head.slot
  signed : b.head.verify C = .ok ()
  extending : Extending C (i.records.get b.reservation.key) b.head

structure Sound (C : Crates) (d : Desk) : Prop where
  linked : d.index.Linked C
  awaited : ∀ b ∈ d.bookings, b.committed = false → Awaited C d.index b
  keys : (d.bookings.map (fun b => b.reservation.key)).Nodup

variable {K : Callers} {d d' : Desk}

variable {b : Booking}

theorem Awaited.congr (h : Awaited C i b)
    (hsame : i'.records.get b.reservation.key = i.records.get b.reservation.key) : Awaited C i' b :=
  ⟨h.key, h.signed, by rw [hsame]; exact h.extending⟩

section

variable (hd : d.Sound C)

include hd

theorem Sound.moves {i : Index} (h : d.index.Moves C key i) (hidle : d.Idle key) : Sound C { d with index := i } := by
  refine ⟨h.linked hd.linked, fun b hb hc => ?_, hd.keys⟩
  refine (hd.awaited b hb hc).congr (h.others _ (fun hk => ?_))
  rw [hidle b hb hk] at hc
  cases hc

theorem Sound.records {i : Index} (h : i.records = d.index.records) : Sound C { d with index := i } := by
  refine ⟨?_, fun b hb hc => (hd.awaited b hb hc).congr (by rw [h]), hd.keys⟩
  intro k r hr
  rw [h] at hr
  exact hd.linked k r hr

theorem Sound.commit {rest : Multiset Booking} (hb : d.bookings = b ::ₘ rest)
    (hc : b.committed = false) (blob bytes : List UInt8) :
    Sound C ⟨(d.index.commit C b.room b.head blob bytes io).1,
      { b with committed := (d.index.commit C b.room b.head blob bytes io).2.2.isOk } ::ₘ rest⟩ := by
  have haw := hd.awaited b (by rw [hb]; exact Multiset.mem_cons_self _ _) hc
  have hkeys := hd.keys
  rw [hb, Multiset.map_cons, Multiset.nodup_cons] at hkeys
  have hmoves := @commit_moves C d.index b.room b.head io hd.linked haw.signed (haw.key ▸ haw.extending) blob bytes
  refine ⟨hmoves.linked hd.linked, fun x hx hxc => ?_, ?_⟩
  · rcases Multiset.mem_cons.1 hx with rfl | hx
    · -- a commit that is still awaited has failed, and left the record
      have hsame : (d.index.commit C b.room b.head blob bytes io).1.records = d.index.records := by
        rcases @commit_cases C d.index b.room b.head io blob bytes with ⟨he, -, -⟩ | ⟨-, manifest, -, hout⟩
        · rw [he]
        · cases io with
          | unpublished => rw [hout]; rfl
          | done | uncleaned =>
            rw [hout] at hxc
            cases hxc
      exact ⟨haw.key, haw.signed, fun r hr => haw.extending r (by rw [← hsame]; exact hr)⟩
    · refine (hd.awaited x (by rw [hb]; exact Multiset.mem_cons_of_mem hx) hxc).congr (hmoves.others _ (fun hk => ?_))
      rw [← haw.key] at hk
      exact hkeys.1 (Multiset.mem_map.2 ⟨x, hx, hk⟩)
  · rw [Multiset.map_cons, Multiset.nodup_cons]
    exact hkeys

theorem Sound.reserve {owner : Option String} {ownerLimit : Option Nat} {reservation : Reservation}
    (hfree : d.Free (slotKey C room head.slot))
    (h : d.index.reserve C cfg room head owner ownerLimit = (i, .ok (some reservation))) :
    Sound C ⟨i, ⟨reservation, room, head, false⟩ ::ₘ d.bookings⟩ := by
  rcases @reserve_cases C d.index cfg room head owner ownerLimit with ⟨-, hno⟩ | ⟨hv, -, ⟨retry, hretry⟩, -, -, -, r, hr, hout⟩
  · exact absurd (by rw [h]) (hno reservation)
  rw [hout] at h
  obtain ⟨rfl, hres⟩ := Prod.mk.inj h
  cases hres
  have hkey : reservation.key = slotKey C room head.slot := by rw [hr]
  refine ⟨hd.linked, fun b hb hc => ?_, ?_⟩
  · rcases Multiset.mem_cons.1 hb with rfl | hb
    · exact ⟨hkey, hv.signed, by rw [hkey]; exact isRetry_extending hretry⟩
    · exact (hd.awaited b hb hc).congr rfl
  · rw [Multiset.map_cons, Multiset.nodup_cons]
    refine ⟨fun hmem => ?_, hd.keys⟩
    obtain ⟨b, hb, hbk⟩ := Multiset.mem_map.1 hmem
    exact hfree b hb (hbk.trans hkey)

theorem Sound.drop {rest : Multiset Booking} (hb : d.bookings = b ::ₘ rest) : Sound C ⟨d.index.release b.reservation, rest⟩ := by
  have hkeys := hd.keys
  rw [hb, Multiset.map_cons, Multiset.nodup_cons] at hkeys
  refine ⟨hd.linked, fun x hx hc => ?_, hkeys.2⟩
  exact (hd.awaited x (by rw [hb]; exact Multiset.mem_cons_of_mem hx) hc).congr rfl

theorem Step.goes_on {readable : String → Head → Bool} {effects : List Effect}
    (h : Step C cfg K readable io d effects d') : d'.Sound C ∧ ∀ k r r', d.index.records.get k = some r →
      d'.index.records.get k = some r' → r.Advances r' := by
  have hsame : ∀ {i : Index}, i.records = d.index.records → ∀ k r r', d.index.records.get k = some r →
      i.records.get k = some r' → r.Advances r' := by
    intro i he k r r' hr hr'
    rw [he, hr] at hr'
    cases hr'
    exact .refl r
  have hmoves : ∀ {key : String} {i : Index}, d.Idle key → d.index.Moves C key i →
      Sound C { d with index := i } ∧ ∀ k r r', d.index.records.get k = some r → i.records.get k = some r' → r.Advances r' :=
    fun hidle hm => ⟨hd.moves hm hidle, fun k r r' hr hr' => hm.advances hr hr'⟩
  cases h with
  | reserve room head owner ownerLimit i reservation _ _ hfree _ hres =>
    refine ⟨hd.reserve hfree hres, hsame ?_⟩
    rcases @reserve_cases C d.index cfg room head owner ownerLimit with ⟨he, -⟩ | ⟨-, -, -, -, -, -, r, -, hout⟩
    · rw [hres] at he
      rw [← he]
    · rw [hres] at hout
      rw [(Prod.mk.inj hout).1]
      rfl
  | unreserved room head owner ownerLimit i result hno hres =>
    have he : i.records = d.index.records := by
      rcases @reserve_cases C d.index cfg room head owner ownerLimit with ⟨he, -⟩ | ⟨-, -, -, -, -, -, r, -, hout⟩
      · rw [hres] at he
        rw [← he]
      · rw [hres] at hout
        exact absurd (Prod.mk.inj hout).2 (hno r)
    exact ⟨hd.records he, hsame he⟩
  | commit b rest blob bytes hb hc =>
    have haw := hd.awaited b (by rw [hb]; exact Multiset.mem_cons_self _ _) hc
    refine ⟨hd.commit hb hc blob bytes, fun k r r' hr hr' => ?_⟩
    exact (commit_moves hd.linked haw.signed (haw.key ▸ haw.extending) blob bytes).advances hr hr'
  | drop b rest hb => exact ⟨hd.drop hb, hsame rfl⟩
  | importHead room head blob bytes _ hidle => exact hmoves hidle (importHead_moves hd.linked blob bytes)
  | delete room request hidle => exact hmoves hidle (delete_moves request)
  | learn room head home deleted _ hidle => exact hmoves hidle (learn_moves hd.linked home deleted)
  | meshDelete room request hidle => exact hmoves hidle (meshDelete_moves hd.linked request)
  | setHome room head home hidle => exact hmoves hidle (Trimmed.moves hd.linked (setHome_trimmed home))
  | dropHolding room head hidle => exact hmoves hidle (Trimmed.moves hd.linked dropHolding_trimmed)
  | verifyHolding room head hidle => exact hmoves hidle (Trimmed.moves hd.linked (verifyHolding_trimmed (readable room)))

theorem Turn.goes_on (h : Turn C cfg K d d') : d'.Sound C ∧ ∀ k r r', d.index.records.get k = some r →
    d'.index.records.get k = some r' → r.Advances r' := by
  cases h with
  | step h => exact h.goes_on hd
  | retireRoom room i h =>
    have hget : ∀ k r, i.records.get k = some r → d.index.records.get k = some r := by
      intro k r hr
      rcases h k with he | ⟨hn, -⟩
      · rwa [he] at hr
      · rw [hn] at hr
        cases hr
    refine ⟨⟨fun k r hr => hd.linked k r (hget k r hr), fun b hb hc => ?_, hd.keys⟩, fun k r r' hr hr' => ?_⟩
    · have haw := hd.awaited b hb hc
      exact ⟨haw.key, haw.signed, fun r hr => haw.extending r (hget _ r hr)⟩
    · have := hget k r' hr'
      rw [hr] at this
      cases this
      exact .refl r

theorem Turn.run_sound (h : Relation.ReflTransGen (Turn C cfg K) d d') : d'.Sound C := by
  induction h with
  | refl => exact hd
  | tail _ hturn ih => exact (hturn.goes_on ih).1

theorem Keeps.advances (h : Keeps C cfg K key d d') {r : Record}
    (hr : d.index.records.get key = some r) : d'.Sound C ∧ ∃ r', d'.index.records.get key = some r' ∧ r.Advances r' := by
  induction h with
  | refl => exact ⟨hd, r, hr, .refl r⟩
  | tail _ hturn ih =>
    obtain ⟨hs, r', hr', ha⟩ := ih
    obtain ⟨hs', hgo⟩ := hturn.1.goes_on hs
    obtain ⟨r'', hr''⟩ := isSome_iff_exists.1 hturn.2
    exact ⟨hs', r'', hr'', ha.trans (hgo key r' r'' hr' hr'')⟩

end

end Desk

/-- **The history of a slot only goes on.**  After any turns: the backup of a record is the signed parent of its head;
a commit leaves the current head or replaces it by one that extends it; and as long as the record is not removed its
writer stays, and its sequence number and tombstone do not go back. -/
theorem slot_record_history (C : Crates) (cfg : Config) (K : Callers) (i : Index) (hi : i.Linked C) (d : Desk)
    (hrun : Relation.ReflTransGen (Desk.Turn C cfg K) ⟨i, 0⟩ d) :
    (∀ key r p, d.index.records.get key = some r → r.previous = some p → Extends C r.current p ∧ p.verify C = .ok ()) ∧
    (∀ b ∈ d.bookings, b.committed = false → ∀ blob bytes io r r', d.index.records.get (slotKey C b.room b.head.slot) = some r →
      (d.index.commit C b.room b.head blob bytes io).1.records.get (slotKey C b.room b.head.slot) = some r' →
      r'.current = r.current ∨ r'.current.parent = some (r.current.hash C) ∧ r'.current.seq = r.current.seq + 1) ∧
    ∀ key d', Desk.Keeps C cfg K key d d' → ∀ r r', d.index.records.get key = some r →
      d'.index.records.get key = some r' → r'.current.writer = r.current.writer ∧
        toLex (r.current.seq, r.deleted.isSome) ≤ toLex (r'.current.seq, r'.deleted.isSome) ∧
        (r'.current ≠ r.current → r.current.seq < r'.current.seq) := by
  have hstart : Desk.Sound C ⟨i, 0⟩ := ⟨hi, fun b hb => absurd hb (Multiset.notMem_zero b), Multiset.nodup_zero⟩
  have hd := Desk.Turn.run_sound hstart hrun
  refine ⟨fun key r p hr => (hd.linked key r hr).previous p, fun b hb hc blob bytes io r r' hr hr' => ?_,
    fun key d' hkeeps r r' hr hr' => ?_⟩
  · have haw := hd.awaited b hb hc
    rcases commit_stores blob bytes hr' with hsame | hhead
    · rw [hr] at hsame
      cases hsame
      exact .inl rfl
    · rw [hhead]
      rcases haw.extending r (haw.key ▸ hr) with ⟨heq, -⟩ | hext
      · exact .inl heq
      · exact .inr ⟨hext.parent, hext.seq⟩
  · obtain ⟨-, r'', hr'', ha⟩ := hkeeps.advances hd hr
    rw [hr'] at hr''
    cases hr''
    exact ⟨ha.writer, ha.order, ha.current.resolve_left⟩

def noteRecord : Record := ⟨"notes", some "alice", noteHead, none, false, none, none, true⟩

def noteIndex : Index := { Index.default with records := insert ∅ (slotKey noteCrates "notes" noteHead.slot) noteRecord }

theorem slot_record_history_tombstone : ∃ d', Desk.Keeps noteCrates .default noteCallers (slotKey noteCrates "notes" noteHead.slot)
      ⟨noteIndex, 0⟩ d' ∧
    ∃ r', d'.index.records.get (slotKey noteCrates "notes" noteHead.slot) = some r' ∧ r'.deleted = some noteDelete ∧
      r'.current.writer = noteHead.writer ∧ toLex (1, false) ≤ toLex (r'.current.seq, r'.deleted.isSome) := by
  have hget : noteIndex.records.get (slotKey noteCrates "notes" noteHead.slot) = some noteRecord := get_insert_self _ _ _
  have hlinked : noteIndex.Linked noteCrates := by
    intro k r hr
    rcases of_get_insert hr with ⟨-, rfl⟩ | ⟨-, hr⟩
    · exact ⟨(learnable_valid note_learnable).signed, nofun⟩
    · cases hr
  have hover : learnOver noteCrates (noteIndex.records.get (slotKey noteCrates "notes" noteHead.slot)) noteHead
      (some noteDelete) = .ok none := by
    rw [hget]
    simp [learnOver, acceptance, noteRecord]
  have hlearned := @learn_published noteCrates noteIndex .default "notes" noteHead .done none (some noteDelete) rfl
    note_learnable hover (fun h => by rw [hget] at h; cases h)
  have hafter : (noteIndex.learn noteCrates .default "notes" noteHead none (some noteDelete) .done).1.records.get
      (slotKey noteCrates "notes" noteHead.slot) = some (learned noteCrates (noteIndex.records.get
        (slotKey noteCrates "notes" noteHead.slot)) "notes" noteHead none (some noteDelete)) := by
    rw [hlearned]
    exact get_insert_self _ _ _
  generalize hout : (noteIndex.learn noteCrates .default "notes" noteHead none (some noteDelete) .done).1 = i' at hafter
  have hturn : Desk.Turn noteCrates .default noteCallers ⟨noteIndex, 0⟩ ⟨i', 0⟩ := by
    rw [← hout]
    exact .step (@Desk.Step.learn _ _ _ (fun _ _ => true) .done ⟨noteIndex, 0⟩ "notes" noteHead none (some noteDelete) rfl
      (fun b hb => absurd hb (Multiset.notMem_zero b)))
  have hkeeps : Desk.Keeps noteCrates .default noteCallers (slotKey noteCrates "notes" noteHead.slot) ⟨noteIndex, 0⟩ ⟨i', 0⟩ :=
    .single ⟨hturn, isSome_iff_exists.2 ⟨_, hafter⟩⟩
  have hall := (slot_record_history noteCrates .default noteCallers noteIndex hlinked _ .refl).2.2 _ _ hkeeps _ _ hget hafter
  exact ⟨_, hkeeps, _, hafter, rfl, hall.1, hall.2.1⟩

end Mistl.Escrow
