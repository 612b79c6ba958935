import Mistl.EscrowHistory
/-!
# EscrowSnapshot — a room's snapshot is complete

`State::encode` and `State::decode`.  The incremental byte count, the slot count and the shape that `decode` checks
again are invariants of every log (`State.Counted`, over `State.Linear`), so that compacting at any point of a log and
replaying the rest is the same as replaying the whole log.
-/
open List Mistl.Table Mistl.Json Option

namespace Mistl.Escrow

/-! ## Encoding -/

/-- The order in which a snapshot walks the hash maps of a state. -/
structure Iteration (s : State) where
  heads : List (Sigma (fun _ : String => Head))
  previous : List (Sigma (fun _ : String => Head))
  deleted : List (Sigma (fun _ : String => Head))
  heads_eq : (heads : Multiset _) = s.heads.entries
  previous_eq : (previous : Multiset _) = s.previous.entries
  deleted_eq : (deleted : Multiset _) = s.deleted.entries

def State.toJson (s : State) (it : Iteration s) : Json :=
  .obj [("heads", tableJson Head.toJson it.heads), ("previous", tableJson Head.toJson it.previous),
    ("deleted", tableJson Head.toJson it.deleted), ("migration_started", .bool s.migrationStarted),
    ("migration_finished", .bool s.migrationFinished)]

inductive SnapshotError where
  | oversized | malformed | metadataQuota | migrationFlags | slotQuota | slotMismatch | badHead | orphanPrevious
  | invalidPrevious | conflictingTombstone
  deriving DecidableEq

def State.encode (s : State) (it : Iteration s) : Except SnapshotError (List UInt8) :=
  let bytes := (s.toJson it).toVec
  if bytes.length ≤ snapshotBytes then .ok bytes else .error .oversized

/-! ## Decoding -/

def readOptStr : Option Json → Option (Option String)
  | none | some .null => some none
  | some (.str s) => some (some s)
  | some _ => none

def readFlag : Option Json → Option Bool
  | none => some false
  | some j => j.asBool

def Head.ofJson (j : Json) : Option Head :=
  match structFields headNames false j with
  | some [some v, some kind, some slot, some seq, parent, some cid, some size, some sha256, some comp, some schema,
      some writer, some at_, some sig] => do
    let v ← v.asUnsigned 256
    let kind ← kind.asStr
    let slot ← slot.asStr
    let seq ← seq.asUnsigned (2 ^ 64)
    let parent ← readOptStr parent
    let cid ← cid.asStr
    let size ← size.asUnsigned (2 ^ 64)
    let sha256 ← sha256.asStr
    let comp ← comp.asStr
    let schema ← schema.asStr
    let writer ← writer.asStr
    let at_ ← at_.asUnsigned (2 ^ 64)
    let sig ← sig.asStr
    some ⟨v, kind, slot, seq, parent, cid, size, sha256, comp, schema, writer, at_, sig⟩
  | _ => none

def stateNames : List String := ["heads", "previous", "deleted", "migration_started", "migration_finished"]

def mapBytes (heads previous deleted : Table String Head) : Nat :=
  heads.total (fun _ h => headBytes h) + previous.total (fun _ h => headBytes h)
    + deleted.total fun _ h => headBytes h

def State.ofJson (j : Json) : Option State :=
  match structFields stateNames true j with
  | some [some heads, some previous, some deleted, started, finished] => do
    let heads ← readTable Head.ofJson heads
    let previous ← readTable Head.ofJson previous
    let deleted ← readTable Head.ofJson deleted
    let started ← readFlag started
    let finished ← readFlag finished
    some ⟨mapBytes heads previous deleted, heads, previous, deleted, started, finished⟩
  | _ => none

variable (C : Crates)

def isOk {ε α : Type} : Except ε α → Bool
  | .ok _ => true
  | .error _ => false

def goodHead (_ : String) (h : Head) : Bool := isOk (h.validate C gib) && isOk (h.verify C)

/-- The entries of each map.  Where entries of one map fail differently, its iteration order says which is reported;
here a wrong slot comes first. -/
def checkEntries : List (Table String Head) → Except SnapshotError Unit
  | [] => .ok ()
  | m :: maps =>
    if !m.all (fun slot h => slot == h.slot) then .error .slotMismatch
    else if !m.all (goodHead C) then .error .badHead
    else checkEntries maps

def goodPrevious (heads : Table String Head) (slot : String) (h : Head) : Bool :=
  match heads.get slot with
  | some current =>
    decide (current.writer = h.writer) && decide (checkedAdd h.seq 1 = some current.seq)
      && decide (current.parent = some (h.hash C))
  | none => false

/-- The checks of `State::decode` on a state as it was read. -/
def State.check (s : State) (maxSlots : Nat) : Except SnapshotError State :=
  if snapshotBytes < s.metadataBytes + 128 then .error .metadataQuota
  else if s.migrationFinished && !s.migrationStarted then .error .migrationFlags
  else if maxSlots < satAdd s.heads.size s.deleted.size ∨ s.heads.size < s.previous.size then .error .slotQuota
  else match checkEntries C [s.heads, s.previous, s.deleted] with
    | .error e => .error e
    | .ok () =>
      if !s.previous.all (fun slot _ => s.heads.contains slot) then .error .orphanPrevious
      else if !s.previous.all (goodPrevious C s.heads) then .error .invalidPrevious
      else if !s.deleted.all (fun slot _ => !s.heads.contains slot && !s.previous.contains slot) then
        .error .conflictingTombstone
      else .ok s

def State.decode (bytes : List UInt8) (maxSlots : Nat) : Except SnapshotError State :=
  if snapshotBytes < bytes.length then .error .oversized
  else match (fromSlice bytes).bind State.ofJson with
    | none => .error .malformed
    | some s => s.check C maxSlots

/-! ## The byte count along a step -/

/-- **The counts of the state**: the bytes of all its heads, within the snapshot, and its slots. -/
structure State.Counted (s : State) (maxSlots : Nat) : Prop where
  bytes : s.metadataBytes = mapBytes s.heads s.previous s.deleted
  fits : s.metadataBytes + 128 ≤ snapshotBytes
  slots : s.heads.size + s.deleted.size ≤ maxSlots

theorem State.Counted.default (maxSlots : Nat) : State.default.Counted maxSlots := ⟨rfl, by decide, Nat.zero_le _⟩

variable {maxSlots : Nat} {s t : State}

theorem State.Counted.deleted_le (hc : s.Counted maxSlots) {slot : String} {h : Head}
    (hd : s.deleted.get slot = some h) : headBytes h ≤ s.metadataBytes := by
  have := Table.le_total (fun _ h => headBytes h) hd
  rw [hc.bytes, mapBytes]
  omega

theorem State.Counted.previous_le (hc : s.Counted maxSlots) {slot : String} {h : Head}
    (hp : s.previous.get slot = some h) : headBytes h ≤ s.metadataBytes := by
  have := Table.le_total (fun _ h => headBytes h) hp
  rw [hc.bytes, mapBytes]
  omega

theorem total_erase_getD (f : Head → Nat) (m : Table String Head) (slot : String) :
    (m.erase slot).total (fun _ h => f h) + ((m.get slot).map f).getD 0 = m.total (fun _ h => f h) := by
  cases hg : m.get slot with
  | none => rw [erase_of_get_none hg]; rfl
  | some h => rw [← total_erase _ hg, Nat.add_comm]; rfl

theorem total_insert_getD (f : Head → Nat) (m : Table String Head) (slot : String) (h : Head) :
    (m.insert slot h).total (fun _ h => f h) + ((m.get slot).map f).getD 0 = f h + m.total (fun _ h => f h) := by
  rw [insert_eq_insert_erase, total_insert _ (get_erase_self m slot), ← total_erase_getD f m slot, Nat.add_assoc]

variable {C}

theorem Step.counted (hmax : maxSlots ≤ 65536) (h : Step C maxSlots s t) (hl : s.Linear C)
    (hc : s.Counted maxSlots) : t.Counted maxSlots := by
  have hbytes := hc.bytes
  have hslots := hc.slots
  have hfits := hc.fits
  rw [mapBytes] at hbytes
  cases h with
  | stay => exact hc
  | recreate head old hv hm hold hx hb =>
    have hnone := hl.heads_none hold
    have hd := total_erase (fun _ h => headBytes h) hold
    have hi := total_insert (fun _ h => headBytes h) hnone head
    refine ⟨?_, hb, ?_⟩
    · simp only [mapBytes]
      omega
    · have h1 := size_insert hnone head
      have h2 := size_erase hold
      dsimp only
      omega
  | create head hv hm hd hh hq hb =>
    have hp := hl.previous_none hh
    have hi := total_insert (fun _ h => headBytes h) hh head
    refine ⟨?_, hb, ?_⟩
    · simp only [mapBytes, hp, map_none, getD_none]
      omega
    · have h1 := size_insert hh head
      dsimp only
      omega
  | extend head old hv hm hd hh hx hb =>
    have hi := total_replace (fun _ h => headBytes h) hh head
    have hp := total_insert_getD headBytes s.previous head.slot old
    refine ⟨?_, hb, ?_⟩
    · simp only [mapBytes]
      omega
    · rw [size_replace hh]
      exact hslots
  | remove slot head hm hh =>
    have hnone := hl.apart slot head hh
    have hi := total_erase (fun _ h => headBytes h) hh
    have hd := total_insert (fun _ h => headBytes h) hnone head
    have hp := total_erase_getD headBytes s.previous slot
    refine ⟨?_, ?_, ?_⟩
    · simp only [mapBytes]
      omega
    · dsimp only
      omega
    · have h1 := size_erase hh
      have h2 := size_insert hnone head
      dsimp only
      omega
  | bootstrap heads hv hnd hm hsame hq hlen hb =>
    have hi : (insertAll Head.slot heads s.heads).total (fun _ h => headBytes h)
        = s.heads.total (fun _ h => headBytes h) + ((s.missing heads).map headBytes).sum :=
      total_insertAll (fun _ h => headBytes h) Head.slot heads s.heads hnd hsame
    have hn : (insertAll Head.slot heads s.heads).size = s.heads.size + (s.missing heads).length :=
      size_insertAll Head.slot heads s.heads hnd hsame
    refine ⟨?_, hb, ?_⟩
    · simp only [mapBytes]
      omega
    · rw [satAdd, u64Max] at hq
      rw [hn, (hl.fresh hm).1, size_empty]
      omega
  | begin hf h | complete h => exact ⟨hc.bytes, hc.fits, hc.slots⟩

theorem run_counted (hmax : maxSlots ≤ 65536) : ∀ (log : Log) {s : State}, s.Linear C → s.Counted maxSlots →
    (s.run C maxSlots log).Counted maxSlots
  | [], _, _, hc => hc
  | c :: log, s, hl, hc => by
    have hstep := apply_step C maxSlots s c.1 c.2
    exact run_counted hmax log (hstep.linear hl) (hstep.counted hmax hl hc)

/-! ## The checks of `decode` hold -/

theorem Keyed.checkEntries : ∀ {maps : List (Table String Head)}, (∀ m ∈ maps, Keyed C m) → checkEntries C maps = .ok ()
  | [], _ => rfl
  | m :: maps, h => by
    have hm := h m mem_cons_self
    have hslot : m.all (fun slot h => slot == h.slot) = true :=
      Table.all_eq_true.2 (fun slot x hx => beq_iff_eq.2 (hm slot x hx).1.symm)
    have hgood : m.all (goodHead C) = true := by
      refine Table.all_eq_true.2 (fun slot x hx => ?_)
      have hv := (hm slot x hx).2
      rw [goodHead, hv.validate C hv.size_le, hv.signed]
      rfl
    rw [Escrow.checkEntries, hslot, hgood]
    exact Keyed.checkEntries (fun n hn => h n (mem_cons_of_mem _ hn))

theorem State.check_ok (hl : s.Linear C) (hc : s.Counted maxSlots) : s.check C maxSlots = .ok s := by
  have hflags : (s.migrationFinished && !s.migrationStarted) = false := by
    cases hf : s.migrationFinished with
    | false => rfl
    | true => rw [hl.flags hf]; rfl
  have hprev : s.previous.size ≤ s.heads.size := by
    refine size_le_of_keys (fun slot p hp => ?_)
    obtain ⟨x, hx, -⟩ := hl.parent slot p hp
    rw [hx]
    exact some_ne_none x
  have hslots : ¬ (maxSlots < satAdd s.heads.size s.deleted.size ∨ s.heads.size < s.previous.size) := by
    have := hc.slots
    rw [satAdd]
    omega
  have horphan : s.previous.all (fun slot _ => s.heads.contains slot) = true := by
    refine Table.all_eq_true.2 (fun slot p hp => ?_)
    obtain ⟨x, hx, -⟩ := hl.parent slot p hp
    exact Table.contains_iff.2 ⟨x, hx⟩
  have hparent : s.previous.all (goodPrevious C s.heads) = true := by
    refine Table.all_eq_true.2 (fun slot p hp => ?_)
    obtain ⟨x, hx, h⟩ := hl.parent slot p hp
    have hle := (hl.heads slot x hx).2.seq_le
    have hadd : checkedAdd p.seq 1 = some x.seq := by
      refine checkedAdd_eq_some.2 ⟨h.seq.symm, ?_⟩
      unfold maxSafe at hle
      unfold u64Max
      omega
    simp only [goodPrevious, hx, h.writer, hadd, h.parent, decide_true, Bool.and_self]
  have htomb : s.deleted.all (fun slot _ => !s.heads.contains slot && !s.previous.contains slot) = true := by
    refine Table.all_eq_true.2 (fun slot d hd => ?_)
    have hh := hl.heads_none hd
    rw [contains_eq_false.2 hh, contains_eq_false.2 (hl.previous_none hh)]
    rfl
  have hentries : checkEntries C [s.heads, s.previous, s.deleted] = .ok () := by
    refine Keyed.checkEntries (fun m hm => ?_)
    simp only [mem_cons, not_mem_nil, or_false] at hm
    rcases hm with rfl | rfl | rfl
    exacts [hl.heads, hl.previous, hl.deleted]
  rw [State.check, if_neg (Nat.not_lt.2 hc.fits), hflags, if_neg hslots, hentries]
  simp only [horphan, hparent, htomb, Bool.not_true, Bool.false_eq_true, if_false]

/-! ## The text of a state -/

theorem fieldsSize_map : ∀ (l : List (Sigma (fun _ : String => Head))), (∀ e ∈ l, hexString e.1 32 = true) →
    fieldsSize (l.map (fun e => (e.1, e.2.toJson))) = (l.map (fun e => headBytes e.2)).sum
  | [], _ => rfl
  | e :: l, h => by
    rw [map_cons, fieldsSize, fieldsSize_map l (fun x hx => h x (mem_cons_of_mem _ hx)),
      stringSize_hex (h e mem_cons_self), map_cons, List.sum_cons, headBytes]
    omega

variable {l : List (Sigma (fun _ : String => Head))} {m : Table String Head}

theorem Keyed.size_le (hm : Keyed C m) (hl : (l : Multiset _) = m.entries) :
    (tableJson Head.toJson l).size ≤ m.total (fun _ h => headBytes h) + 2 := by
  have hsum : (l.map (fun e => headBytes e.2)).sum = m.total (fun _ h => headBytes h) := by
    rw [total, ← hl, Multiset.map_coe, Multiset.sum_coe]
  have hslot : ∀ e ∈ l, hexString e.1 32 = true := by
    intro e he
    have hg : m.get e.1 = some e.2 := get_eq_some_iff.2 (hl ▸ Multiset.mem_coe.2 he)
    obtain ⟨hs, hv⟩ := hm e.1 e.2 hg
    exact hs ▸ hv.slot_hex
  rw [← hsum, ← fieldsSize_map l hslot]
  exact size_obj_le _

theorem size_bool (b : Bool) : (Json.bool b).size ≤ 5 := by
  cases b <;> decide

theorem State.size_toJson_le (hl : s.Linear C) (it : Iteration s) :
    (s.toJson it).size ≤ mapBytes s.heads s.previous s.deleted + 128 := by
  have h1 := hl.heads.size_le it.heads_eq
  have h2 := hl.previous.size_le it.previous_eq
  have h3 := hl.deleted.size_le it.deleted_eq
  have h4 := size_bool s.migrationStarted
  have h5 := size_bool s.migrationFinished
  have n1 : stringSize "heads" = 7 := by decide
  have n2 : stringSize "previous" = 10 := by decide
  have n3 : stringSize "deleted" = 9 := by decide
  have n4 : stringSize "migration_started" = 19 := by decide
  have n5 : stringSize "migration_finished" = 20 := by decide
  rw [State.toJson, size_obj]
  simp only [fieldsSize, mapBytes]
  omega

/-! ## Reading a state back -/

theorem asUnsigned_int {bound n : Nat} (h : n < bound) : (Json.int n).asUnsigned bound = some n := by
  rw [asUnsigned, Int.toNat_natCast, if_pos ⟨Int.natCast_nonneg n, h⟩]

theorem readOptStr_optStr (p : Option String) : readOptStr (some (optStr p)) = some p := by
  cases p <;> rfl

theorem Head.Valid.ofJson_toJson {h : Head} (hv : h.Valid C gib) : Head.ofJson h.toJson = some h := by
  have hfields : structFields headNames false h.toJson
      = some [some (.int h.v), some (.str h.kind), some (.str h.slot), some (.int h.seq), some (optStr h.parent),
          some (.str h.cid), some (.int h.size), some (.str h.sha256), some (.str h.comp), some (.str h.schema),
          some (.str h.writer), some (.int h.at_), some (.str h.sig)] := rfl
  have h1 : h.v < 256 := by rw [hv.v_eq]; decide
  have h2 : h.seq < 2 ^ 64 := lt_of_le_of_lt hv.seq_le (by decide)
  have h3 : h.size < 2 ^ 64 := lt_of_le_of_lt hv.size_le (by decide)
  have h4 : h.at_ < 2 ^ 64 := lt_of_le_of_lt hv.at_le (by decide)
  rw [Head.ofJson, hfields]
  simp only [asUnsigned_int h1, asUnsigned_int h2, asUnsigned_int h3, asUnsigned_int h4, readOptStr_optStr, asStr,
    bind_eq_bind, bind_some]

theorem reprFields_heads : ∀ (l : List (Sigma (fun _ : String => Head))), (∀ e ∈ l, e.2.Valid C gib) →
    ReprFields (l.map (fun e => (e.1, e.2.toJson)))
  | [], _ => by trivial
  | e :: l, h => by
    exact ⟨(h e mem_cons_self).repr, reprFields_heads l (fun x hx => h x (mem_cons_of_mem _ hx))⟩

theorem nestingFields_heads : ∀ (l : List (Sigma (fun _ : String => Head))), nestingFields (l.map (fun e => (e.1, e.2.toJson))) ≤ 1
  | [] => by exact Nat.zero_le _
  | e :: l => by
    have := nestingFields_heads l
    rw [map_cons, nestingFields, nesting_head]
    omega

theorem Keyed.valid_of_mem (hm : Keyed C m) (hl : (l : Multiset _) = m.entries) : ∀ e ∈ l, e.2.Valid C gib := by
  intro e he
  exact (hm e.1 e.2 (get_eq_some_iff.2 (hl ▸ Multiset.mem_coe.2 he))).2

theorem Keyed.readTable (hm : Keyed C m) (hl : (l : Multiset _) = m.entries) :
    readTable Head.ofJson (tableJson Head.toJson l) = some m :=
  readTable_tableJson _ _ m l hl (fun e he => (hm.valid_of_mem hl e he).ofJson_toJson)

theorem State.repr_toJson (hl : s.Linear C) (it : Iteration s) : Json.Repr (s.toJson it) := by
  have hbool : ∀ b : Bool, Json.Repr (.bool b) := fun b => by trivial
  have hmap : ∀ {m : Table String Head} {l : List (Sigma (fun _ : String => Head))}, Keyed C m →
      (l : Multiset _) = m.entries → Json.Repr (tableJson Head.toJson l) := by
    intro m l hm he
    exact reprFields_heads l (hm.valid_of_mem he)
  rw [State.toJson, Json.Repr]
  simp only [ReprFields, hmap hl.heads it.heads_eq, hmap hl.previous it.previous_eq, hmap hl.deleted it.deleted_eq, hbool, and_true]

theorem State.nesting_toJson (it : Iteration s) : nesting (s.toJson it) < maxDepth := by
  have hmap : ∀ l : List (Sigma (fun _ : String => Head)), nesting (tableJson Head.toJson l) ≤ 2 := by
    intro l
    have := nestingFields_heads l
    rw [tableJson, nesting]
    omega
  have h1 := hmap it.heads
  have h2 := hmap it.previous
  have h3 := hmap it.deleted
  rw [State.toJson]
  simp only [nestingFields, nesting, maxDepth]
  omega

theorem State.ofJson_toJson (hl : s.Linear C) (hc : s.Counted maxSlots) (it : Iteration s) : State.ofJson (s.toJson it) = some s := by
  have hfields : structFields stateNames true (s.toJson it)
      = some [some (tableJson Head.toJson it.heads), some (tableJson Head.toJson it.previous),
          some (tableJson Head.toJson it.deleted), some (.bool s.migrationStarted),
          some (.bool s.migrationFinished)] := rfl
  rw [State.ofJson, hfields]
  simp only [hl.heads.readTable it.heads_eq, hl.previous.readTable it.previous_eq, hl.deleted.readTable it.deleted_eq,
    readFlag, asBool, bind_eq_bind, bind_some, ← hc.bytes]

theorem State.encode_ok (hl : s.Linear C) (hc : s.Counted maxSlots) (it : Iteration s) : s.encode it = .ok (s.toJson it).toVec := by
  have hsize := State.size_toJson_le hl it
  rw [← hc.bytes] at hsize
  exact if_pos (hsize.trans hc.fits)

theorem State.decode_toVec (hl : s.Linear C) (hc : s.Counted maxSlots) (it : Iteration s) :
    State.decode C (s.toJson it).toVec maxSlots = .ok s := by
  have hsize := State.size_toJson_le hl it
  rw [← hc.bytes, Json.size] at hsize
  rw [State.decode, if_neg (Nat.not_lt.2 (hsize.trans hc.fits)),
    fromSlice_toVec _ (State.repr_toJson hl it) (State.nesting_toJson it), bind_some,
    State.ofJson_toJson hl hc it]
  exact State.check_ok hl hc

/-! ## Compaction -/

theorem State.replies_append (C : Crates) (maxSlots : Nat) : ∀ (a : Log) (s : State) (b : Log),
    s.replies C maxSlots (a ++ b) = s.replies C maxSlots a ++ (s.run C maxSlots a).replies C maxSlots b
  | [], _, _ => rfl
  | c :: a, s, b => by
    rw [cons_append, State.replies, State.replies, State.replies_append C maxSlots a, State.run_cons, cons_append]

/-- **A snapshot is complete.**  After any log, in whatever order the maps are walked: encoding succeeds and decoding
gives the state back, byte count included, and continues the log as the whole log would. -/
theorem snapshot_complete (C : Crates) (maxSlots : Nat) (hmax : maxSlots ≤ 65536) (log : Log)
    (it : Iteration (State.default.run C maxSlots log)) :
    let s := State.default.run C maxSlots log
    ∃ bytes, s.encode it = .ok bytes ∧ State.decode C bytes maxSlots = .ok s ∧ s.metadataBytes = mapBytes s.heads s.previous s.deleted ∧
      (∀ slot h, s.deleted.get slot = some h ∨ s.previous.get slot = some h → headBytes h ≤ s.metadataBytes) ∧
      ∀ restored, State.decode C bytes maxSlots = .ok restored → ∀ rest,
        restored.run C maxSlots rest = State.default.run C maxSlots (log ++ rest) ∧
        State.default.replies C maxSlots (log ++ rest)
          = State.default.replies C maxSlots log ++ restored.replies C maxSlots rest := by
  intro s
  have hl : s.Linear C := run_linear maxSlots log (.default C)
  have hc : s.Counted maxSlots := run_counted hmax log (.default C) (.default maxSlots)
  refine ⟨_, State.encode_ok hl hc it, State.decode_toVec hl hc it, hc.bytes, ?_, fun restored hr rest => ?_⟩
  · rintro slot h (hd | hp)
    · exact hc.deleted_le hd
    · exact hc.previous_le hp
  · rw [State.decode_toVec hl hc it] at hr
    cases hr
    exact ⟨(State.run_append C maxSlots _ log rest).symm, State.replies_append C maxSlots log _ rest⟩

def firstPut : Log := [(.put "ticket" noteHead, "id")]

theorem firstPut_run : (State.default.run (sampleCrates []) 65536 firstPut).heads = insert ∅ noteHead.slot noteHead ∧
    (State.default.run (sampleCrates []) 65536 firstPut).previous = ∅ ∧
    (State.default.run (sampleCrates []) 65536 firstPut).deleted = ∅ := by decide +kernel

def firstIteration : Iteration (State.default.run (sampleCrates []) 65536 firstPut) where
  heads := [⟨noteHead.slot, noteHead⟩]
  previous := []
  deleted := []
  heads_eq := by
    rw [firstPut_run.1]
    rfl
  previous_eq := by
    rw [firstPut_run.2.1]
    rfl
  deleted_eq := by
    rw [firstPut_run.2.2]
    rfl

theorem snapshot_complete_first : (State.default.run (sampleCrates []) 65536 firstPut).heads.get noteHead.slot = some noteHead ∧
    ∃ bytes, (State.default.run (sampleCrates []) 65536 firstPut).encode firstIteration = .ok bytes ∧
      State.decode (sampleCrates []) bytes 65536 = .ok (State.default.run (sampleCrates []) 65536 firstPut) := by
  refine ⟨by rw [firstPut_run.1, get_insert_self], ?_⟩
  obtain ⟨bytes, he, hd, -⟩ := snapshot_complete (sampleCrates []) 65536 (le_refl _) firstPut firstIteration
  exact ⟨bytes, he, hd⟩

end Mistl.Escrow
