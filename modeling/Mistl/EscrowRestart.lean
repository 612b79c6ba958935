import Mistl.EscrowDisk
import Mistl.EscrowSlots
/-!
# EscrowRestart — a repository that stops between two durable steps

Every operation writes its generation before the record that refers to it, and removes one only after the record is gone.
A crash after any durable step leaves the files of the records before the operation or of those after it.
-/
open Option

namespace Mistl.Escrow

/-! ## A repository and its files -/

structure Store where
  desk : Desk
  disk : Disk

def slotText (room slot : String) : List UInt8 := Json.utf8 (room.toList ++ '\n' :: slot.toList)

variable (C : Crates)

def generationText (key : String) (head : Head) : List UInt8 := Json.utf8 (key.toList ++ '\n' :: (head.hash C).toList)

/-- The texts that were digested for the records an operation writes lie in `D`. -/
def Digests (D : Set (List UInt8)) (effects : List Effect) : Prop := ∀ key r, .writeRecord key r ∈ effects →
    slotText r.room r.current.slot ∈ D ∧ r.current.document ∈ D ∧ generationText C key r.current ∈ D

def Disk.applyAll (d : Disk) (effects : List Effect) : Disk := effects.foldl Disk.apply d

def Disk.run (d : Disk) (effects : List Effect) (records : Table String Record) : Disk :=
  if effects = [] then d else (d.applyAll effects).cleanup C records

/-- The files after a crash: between two durable steps, or during the cleanup, whatever is left of the directories that no
record holds. -/
inductive Crash (d : Disk) (effects : List Effect) (records : Table String Record) : Disk → Prop
  | between (n : Nat) : Crash d effects records (d.applyAll (effects.take n))
  | cleaning (d' : Disk) : d'.heads = (d.applyAll effects).heads → (∀ dir, d'.blobs.get dir = (d.applyAll effects).blobs.get dir ∨
        hexString dir 64 = true ∧ keepsDir C records dir = false) → Crash d effects records d'

/-- A repository after some operations and restarts, from an empty directory. -/
inductive Store.Reaches (cfg : Config) (K : Callers) (D : Set (List UInt8)) : Store → Prop
  | empty : Reaches cfg K D ⟨⟨.default, 0⟩, .empty⟩
  | step {n : Store} {readable : String → Head → Bool} {effects : List Effect} {desk : Desk} : Reaches cfg K D n →
      Desk.Step C cfg K readable .done n.desk effects desk → Digests C D effects →
      Reaches cfg K D ⟨desk, n.disk.run C effects desk.index.records⟩
  | restart {n : Store} {readable : String → Head → Bool} {effects : List Effect} {desk : Desk} {disk disk' : Disk}
      {order : List (Sigma (fun _ : String => List UInt8))} {i : Index} : Reaches cfg K D n →
      Desk.Step C cfg K readable .done n.desk effects desk → Digests C D effects →
      Crash C n.disk effects desk.index.records disk → (order : Multiset _) = disk.heads.entries →
      disk.open C order = .ok (i, disk') → Reaches cfg K D ⟨⟨i, 0⟩, disk'⟩

variable {C} {cfg : Config} {K : Callers} {D : Set (List UInt8)} {i i' : Index} {d d' : Desk} {key room : String}
  {head : Head} {r : Record} {effects : List Effect} {records : Table String Record}

/-! ## Names -/

theorem newline_notMem_room (h : validRoom room = true) : '\n' ∉ room.toList := by
  intro hmem
  simp only [validRoom, Bool.and_eq_true, List.all_eq_true] at h
  exact absurd (h.2 _ hmem) (by decide)

theorem slotKey_inj (hD : Set.InjOn C.digest D) {room' slot slot' : String} (hr : validRoom room = true)
    (hr' : validRoom room' = true) (hmem : slotText room slot ∈ D) (hmem' : slotText room' slot' ∈ D)
    (h : slotKey C room slot = slotKey C room' slot') : room = room' ∧ slot = slot' := by
  obtain ⟨h1, h2⟩ := Lines.cut_inj (newline_notMem_room hr) (newline_notMem_room hr')
    (Wiresign.utf8_inj (hD hmem hmem' h))
  exact ⟨String.toList_inj.1 h1, String.toList_inj.1 h2⟩

theorem generation_inj (hD : Set.InjOn C.digest D) {key' : String} {head' : Head} (hk : hexString key 64 = true)
    (hk' : hexString key' 64 = true) (hv : head.Valid C gib) (hv' : head'.Valid C gib) (hdoc : head.document ∈ D)
    (hdoc' : head'.document ∈ D) (hmem : generationText C key head ∈ D) (hmem' : generationText C key' head' ∈ D)
    (h : generation C key head = generation C key' head') : key = key' ∧ head = head' := by
  obtain ⟨h1, h2⟩ := Lines.cut_inj (hex_ne hk rfl) (hex_ne hk' rfl)
    (Wiresign.utf8_inj (hD hmem hmem' h))
  exact ⟨String.toList_inj.1 h1, Head.hash_inj hD hv hv' hdoc hdoc' (String.toList_inj.1 h2)⟩

/-! ## What an operation writes -/

/-- A record that goes on from the one under its key: its backup is the head or the backup of that one, and so is what it
holds, but for a head that is new. -/
structure Record.Continues (C : Crates) (old : Option Record) (r : Record) (fresh : Option Head) : Prop where
  previous : ∀ p, r.previous = some p → Extends C r.current p ∧ ∃ o, old = some o ∧ (p = o.current ∨ o.previous = some p)
  held : ∀ h ∈ r.heldHeads, fresh = some h ∨ ∃ o, old = some o ∧ h ∈ o.heldHeads
  home : ∀ did, r.home = some did → (∃ o, old = some o ∧ o.home = some did) ∨ (pubkeyFromDid C did).isSome = true

/-- What an operation on a slot writes, and the records it leaves. -/
inductive Wrote (C : Crates) (i : Index) (key : String) : List Effect → Table String Record → Prop
  | nothing : Wrote C i key [] i.records
  | record (r : Record) : r.Storable C key → r.Continues C (i.records.get key) none →
      Wrote C i key [.writeRecord key r] (i.records.insert key r)
  | generation (r : Record) (blob bytes : List UInt8) (manifest : FileManifest) : r.Storable C key →
      r.Continues C (i.records.get key) (some r.current) → validateGeneration C r.current blob bytes = .ok manifest →
      (∀ k o h, i.records.get k = some o → h ∈ o.heldHeads → Escrow.generation C k h ≠ Escrow.generation C key r.current) →
      Wrote C i key [.writeBlob (Escrow.generation C key r.current) blob,
        .writeManifest (Escrow.generation C key r.current) bytes, .writeRecord key r] (i.records.insert key r)
  | removed : Wrote C i key [.unlinkRecord key] (i.records.erase key)

/-! ## Crashes -/

variable {disk disk' : Disk}

theorem Disk.Holds.insert (hd : disk.Holds C records) (hheads : disk'.heads = disk.heads.insert key r.bytes)
    (hblobs : ∀ k o h, records.get k = some o → h ∈ o.heldHeads →
      disk'.blobs.get (generation C k h) = disk.blobs.get (generation C k h))
    (hheld : ∀ h ∈ r.heldHeads, disk'.Present C key h ∨ ∃ o, records.get key = some o ∧ h ∈ o.heldHeads) :
    disk'.Holds C (records.insert key r) := by
  have hkeep : ∀ k o h, records.get k = some o → h ∈ o.heldHeads → disk'.Present C k h := by
    intro k o h ho hh
    obtain ⟨blob, bytes, manifest, hget, hvalid⟩ := hd.generations k o h ho hh
    exact ⟨blob, bytes, manifest, by rw [hblobs k o h ho hh, hget], hvalid⟩
  refine ⟨fun k => ?_, fun k o h ho hh => ?_⟩
  · rw [hheads, Table.get_insert, Table.get_insert]
    split
    · rfl
    · exact hd.files k
  · rcases Table.of_get_insert ho with ⟨rfl, rfl⟩ | ⟨-, ho⟩
    · rcases hheld h hh with hp | ⟨o, ho, hmem⟩
      · exact hp
      · exact hkeep k o h ho hmem
    · exact hkeep k o h ho hh

theorem Disk.Holds.applyAll {disk : Disk} (hd : disk.Holds C i.records) (hw : Wrote C i key effects records) :
    (disk.applyAll effects).Holds C records := by
  cases hw with
  | nothing => exact hd
  | record r hs hc =>
    refine hd.insert rfl (fun _ _ _ _ _ => rfl) (fun h hh => ?_)
    rcases hc.held h hh with hnew | hold
    · cases hnew
    · exact .inr hold
  | generation r blob bytes manifest hs hc hvalid hapart =>
    refine hd.insert rfl (fun k o h ho hh => ?_) (fun h hh => ?_)
    · have hne := hapart k o h ho hh
      exact (Table.get_insert_ne hne _ _).trans (Table.get_insert_ne hne _ _)
    · rcases hc.held h hh with hnew | hold
      · cases hnew
        refine .inl ⟨blob, bytes, manifest, ?_, hvalid⟩
        show ((Table.insert _ _ _).insert _ _).get _ = _
        simp [Disk.files, Disk.apply]
      · exact .inr hold
  | removed =>
    refine ⟨fun k => ?_, fun k o h ho hh => ?_⟩
    · show (disk.heads.erase key).get k = _
      rw [Table.get_erase, Table.get_erase]
      split
      · rfl
      · exact hd.files k
    · obtain ⟨-, ho⟩ := Table.of_get_erase ho
      exact hd.generations k o h ho hh

theorem Disk.Holds.before {disk : Disk} (hd : disk.Holds C i.records) (hw : Wrote C i key effects records) {n : Nat}
    (hn : n < effects.length) : (disk.applyAll (effects.take n)).Holds C i.records := by
  cases hw with
  | nothing => cases hn
  | record r hs hc | removed =>
    rw [Nat.lt_one_iff.1 hn]
    exact hd
  | generation r blob bytes manifest hs hc hvalid hapart =>
    have hother : ∀ disk' : Disk, disk'.heads = disk.heads →
        (∀ dir, dir ≠ generation C key r.current → disk'.blobs.get dir = disk.blobs.get dir) →
        disk'.Holds C i.records := by
      intro disk' hheads hblobs
      refine hd.left hheads (fun dir hdir => hblobs dir ?_)
      obtain ⟨k, o, h, ho, hh, rfl⟩ := keepsDir_eq_true.1 hdir
      exact hapart k o h ho hh
    match n, hn with
    | 0, _ => exact hd
    | 1, _ => exact hother _ rfl (fun dir hne => Table.get_insert_ne hne _ _)
    | 2, _ => exact hother _ rfl (fun dir hne => (Table.get_insert_ne hne _ _).trans (Table.get_insert_ne hne _ _))

theorem Disk.Holds.crash (hd : disk.Holds C i.records) (hw : Wrote C i key effects records)
    (hc : Crash C disk effects records disk') : disk'.Holds C i.records ∨ disk'.Holds C records := by
  cases hc with
  | between n =>
    rcases Nat.lt_or_ge n effects.length with hn | hn
    · exact .inl (hd.before hw hn)
    · rw [List.take_of_length_le hn]
      exact .inr (hd.applyAll hw)
  | cleaning _ hheads hblobs =>
    refine .inr ((hd.applyAll hw).left hheads (fun dir hdir => (hblobs dir).resolve_right ?_))
    rintro ⟨-, hn⟩
    rw [hdir] at hn
    cases hn

theorem Disk.Holds.run {disk : Disk} (hd : disk.Holds C i.records) (hw : Wrote C i key effects records) :
    (disk.run C effects records).Holds C records := by
  unfold Disk.run
  split
  · rename_i he
    have := hd.applyAll hw
    rwa [he] at this
  · exact (hd.applyAll hw).cleanup

/-! ## What every writer keeps -/

/-- The texts of a record under its key lie in `D`. -/
structure Record.Digested (C : Crates) (D : Set (List UInt8)) (key : String) (r : Record) : Prop where
  slot : slotText r.room r.current.slot ∈ D
  heads : ∀ h, h = r.current ∨ r.previous = some h → h.document ∈ D ∧ generationText C key h ∈ D

/-- **Records that open**, under distinct names, with room for those that are being filled. -/
structure Index.Kept (C : Crates) (K : Callers) (D : Set (List UInt8)) (i : Index) : Prop where
  stored : ∀ k r, i.records.get k = some r → r.Storable C k
  digested : ∀ k r, i.records.get k = some r → r.Digested C D k
  owners : ∀ k p o, i.pendingSlots.get k = some p → p.owner = some o → o ∈ K.owners
  slots : (i.records.keys ∪ i.pendingSlots.keys).card ≤ 65536

structure Index.Goes (C : Crates) (K : Callers) (D : Set (List UInt8)) (i : Index) (key : String) (effects : List Effect)
    (i' : Index) : Prop where
  kept : i'.Kept C K D
  wrote : Wrote C i key effects i'.records
  pending : i'.pendingSlots = i.pendingSlots

theorem Record.of_mem_heldHeads {h : Head} (hh : h ∈ r.heldHeads) : h = r.current ∨ r.previous = some h :=
  (mem_heldHeads.1 hh).2.imp And.right And.right

theorem Index.Kept.linked (hi : i.Kept C K D) : i.Linked C := by
  intro k r hr
  have hs := hi.stored k r hr
  exact ⟨hs.current.signed, fun p hp => ⟨(hs.previous p hp).2.2, (hs.previous p hp).1.signed⟩⟩

theorem Wrote.others (hw : Wrote C i key effects records) {k : String} (hk : k ≠ key) : records.get k = i.records.get k := by
  cases hw with
  | nothing => rfl
  | record | generation => exact Table.get_insert_ne hk _ _
  | removed => exact Table.get_erase_ne hk _

theorem Record.Continues.storable {fresh : Option Head} (hD : Set.InjOn C.digest D) (hi : i.Kept C K D)
    (hc : r.Continues C (i.records.get key) fresh) (hkey : key = slotKey C r.room r.current.slot)
    (hroom : validRoom r.room = true) (hv : r.current.Valid C gib)
    (hdel : ∀ d, r.deleted = some d → validateDelete C d r.current = .ok () ∧ r.held = false ∧ r.previous = none)
    (howner : ∀ o, r.owner = some o → o.utf8ByteSize ≤ 1024) (hslot : slotText r.room r.current.slot ∈ D) :
    r.Storable C key := by
  refine ⟨hkey, hroom, hv, fun p hp => ?_, hdel, fun did hdid => ?_, howner⟩
  · obtain ⟨hext, o, ho, hpo⟩ := hc.previous p hp
    have hs := hi.stored key o ho
    have hsame := (slotKey_inj hD hs.room hroom (hi.digested key o ho).slot hslot (hs.key_eq.symm.trans hkey)).2
    rcases hpo with rfl | hprev
    · exact ⟨hs.current, hsame, hext⟩
    · obtain ⟨hpv, hpslot, -⟩ := hs.previous p hprev
      exact ⟨hpv, hpslot.trans hsame, hext⟩
  · rcases hc.home did hdid with ⟨o, ho, hhome⟩ | hsome
    · exact (hi.stored key o ho).home did hhome
    · exact hsome

theorem Record.Continues.digested {fresh : Option Head} (hi : i.Kept C K D)
    (hc : r.Continues C (i.records.get key) fresh) (hslot : slotText r.room r.current.slot ∈ D)
    (hdoc : r.current.document ∈ D) (hgen : generationText C key r.current ∈ D) : r.Digested C D key := by
  refine ⟨hslot, fun h hh => ?_⟩
  rcases hh with rfl | hp
  · exact ⟨hdoc, hgen⟩
  · obtain ⟨-, o, ho, hpo⟩ := hc.previous h hp
    exact (hi.digested key o ho).heads h hpo

theorem Index.Kept.apart (hD : Set.InjOn C.digest D) (hhex : ∀ bytes, hexString (C.digest bytes) 64 = true)
    (hi : i.Kept C K D) (hs : r.Storable C key) (hd : r.Digested C D key)
    (hnot : ∀ o, i.records.get key = some o → r.current ∉ o.heldHeads) (k : String) (o : Record) (h : Head)
    (ho : i.records.get k = some o) (hh : h ∈ o.heldHeads) : generation C k h ≠ generation C key r.current := by
  intro he
  have hso := hi.stored k o ho
  have hho := Record.of_mem_heldHeads hh
  have hvo : h.Valid C gib := by
    rcases hho with rfl | hp
    · exact hso.current
    · exact (hso.previous h hp).1
  obtain ⟨hdoc, hgen⟩ := (hi.digested k o ho).heads h hho
  obtain ⟨hdoc', hgen'⟩ := hd.heads r.current (.inl rfl)
  have hkhex : hexString k 64 = true := by rw [hso.key_eq]; exact hhex _
  have hkeyhex : hexString key 64 = true := by rw [hs.key_eq]; exact hhex _
  obtain ⟨rfl, rfl⟩ := generation_inj hD hkhex hkeyhex hvo hs.current hdoc hdoc' hgen hgen' he
  exact hnot o ho hh

def Index.Roomy (i : Index) (key : String) : Prop :=
  i.records.get key = none → (i.pendingSlots.get key).isSome = true ∨ i.records.size + i.pendingSlots.size < 65536

theorem Index.roomy_of_full (h : i.records.get key = none → i.full cfg room = false) : i.Roomy key := by
  intro hnone
  have hfull := h hnone
  simp only [Index.full, Bool.or_eq_false_iff, decide_eq_false_iff_not, Nat.not_le] at hfull
  exact .inr hfull.1

theorem card_union_insert_le {R P : Finset String} {k : String}
    (h : k ∈ R ∪ P ∨ R.card + P.card < 65536) (hle : (R ∪ P).card ≤ 65536) : (Insert.insert k (R ∪ P)).card ≤ 65536 := by
  rcases h with hk | hlt
  · rwa [Finset.insert_eq_of_mem hk]
  · have h1 := Finset.card_insert_le k (R ∪ P)
    have h2 := Finset.card_union_le R P
    omega

section

variable (hi : i.Kept C K D)

include hi

theorem Index.Kept.slots_insert (hroom : i.Roomy key) : (Insert.insert key (i.records.keys ∪ i.pendingSlots.keys)).card ≤ 65536 := by
  refine card_union_insert_le ?_ hi.slots
  rw [Finset.mem_union, Table.mem_keys, Table.mem_keys, Table.card_keys, Table.card_keys]
  by_cases hnone : i.records.get key = none
  · rcases hroom hnone with hp | hlt
    · exact .inl (.inr (isSome_iff_ne_none.1 hp))
    · exact .inr hlt
  · exact .inl (.inl hnone)

theorem Index.Kept.goes (hroom : i.Roomy key) (hdig : Digests C D effects)
    (hw : Wrote C i key effects i'.records) (hp : i'.pendingSlots = i.pendingSlots) : i.Goes C K D key effects i' := by
  have hinsert : ∀ {r fresh}, i'.records = i.records.insert key r → r.Storable C key →
      r.Continues C (i.records.get key) fresh → .writeRecord key r ∈ effects → i'.Kept C K D := by
    intro r fresh he hs hc hmem
    obtain ⟨hslot, hdoc, hgen⟩ := hdig key r hmem
    refine ⟨fun k o ho => ?_, fun k o ho => ?_, fun k p o h => hi.owners k p o (hp ▸ h), ?_⟩
    · rw [he] at ho
      rcases Table.of_get_insert ho with ⟨hk, rfl⟩ | ⟨-, ho⟩
      · exact hk ▸ hs
      · exact hi.stored k o ho
    · rw [he] at ho
      rcases Table.of_get_insert ho with ⟨hk, rfl⟩ | ⟨-, ho⟩
      · exact hk ▸ hc.digested hi hslot hdoc hgen
      · exact hi.digested k o ho
    · rw [he, hp, Table.keys_insert, Finset.insert_union]
      exact hi.slots_insert hroom
  refine ⟨?_, hw, hp⟩
  generalize hrecords : i'.records = records at hw
  cases hw with
  | nothing => exact ⟨hrecords ▸ hi.stored, hrecords ▸ hi.digested, hp ▸ hi.owners, by rw [hrecords, hp]; exact hi.slots⟩
  | record r hs hc => exact hinsert hrecords hs hc List.mem_cons_self
  | generation r blob bytes manifest hs hc => exact hinsert hrecords hs hc (by simp)
  | removed =>
    have hget : ∀ {k o}, i'.records.get k = some o → i.records.get k = some o := by
      intro k o ho
      rw [hrecords] at ho
      exact (Table.of_get_erase ho).2
    refine ⟨fun k o ho => hi.stored k o (hget ho), fun k o ho => hi.digested k o (hget ho), fun k p o h => hi.owners k p o (hp ▸ h), ?_⟩
    rw [hrecords, hp]
    exact (Finset.card_le_card (Finset.union_subset_union_left (Table.keys_erase_subset _ _))).trans hi.slots

/-! ## The operations -/

theorem Index.Kept.same : i.Goes C K D key [] i := ⟨hi, .nothing, rfl⟩

theorem Index.Kept.trimmed {out : Index × List Effect × Except Error Unit}
    (h : Trimmed C i .done key out) (hdig : Digests C D out.2.1) : i.Goes C K D key out.2.1 out.1 := by
  rcases h with ⟨h1, h2⟩ | ⟨r, r', hr, ht, -, h1, h2⟩
  · rw [h1, h2]
    exact hi.same
  · rw [h2] at hdig
    rw [h1, h2]
    have hs := hi.stored key r hr
    have hprev : ∀ p, r'.previous = some p → r.previous = some p := by
      intro p hp
      rcases ht.previous with ⟨he, -⟩ | ⟨hn, -⟩
      · rwa [he] at hp
      · rw [hn] at hp
        cases hp
    have hc : r'.Continues C (i.records.get key) none := by
      refine ⟨fun p hp => ?_, fun h hh => .inr ⟨r, hr, (heldHeads_trims ht).subset hh⟩, fun did hdid => ?_⟩
      · rw [ht.current]
        exact ⟨(hs.previous p (hprev p hp)).2.2, r, hr, .inr (hprev p hp)⟩
      · rcases ht.home with he | ⟨did', he, hsome⟩
        · exact .inl ⟨r, hr, he ▸ hdid⟩
        · rw [he] at hdid
          cases hdid
          exact .inr hsome
    have hstored : r'.Storable C key := by
      refine ⟨by rw [ht.room, ht.current]; exact hs.key_eq, ht.room ▸ hs.room, ht.current ▸ hs.current, fun p hp => ?_,
        fun d hd => ?_, fun did hdid => ?_, ht.owner ▸ hs.owner⟩
      · rw [ht.current]
        exact hs.previous p (hprev p hp)
      · rw [ht.deleted] at hd
        obtain ⟨hv, hheld, hnone⟩ := hs.deleted d hd
        refine ⟨ht.current ▸ hv, Bool.eq_false_iff.2 (fun hh => ?_), ?_⟩
        · rw [ht.held hh] at hheld
          cases hheld
        · cases hp : r'.previous with
          | none => rfl
          | some p =>
            rw [hprev p hp] at hnone
            cases hnone
      · rcases hc.home did hdid with ⟨o, ho, hhome⟩ | hsome
        · exact (hi.stored key o ho).home did hhome
        · exact hsome
    exact hi.goes (fun hnone => by rw [hr] at hnone; cases hnone) hdig (.record r' hstored hc) rfl

end

theorem learnable_checks {home : Option String} {deleted : Option Delete} (h : learnable C room head home deleted = .ok ()) :
    validRoom room = true ∧ (∀ did, home = some did → (pubkeyFromDid C did).isSome = true) ∧
      ∀ d, deleted = some d → validateDelete C d head = .ok () := by
  unfold learnable at h
  split at h
  · cases h
  rename_i hroom
  split at h
  · cases h
  split at h
  · cases h
  split at h
  · cases h
  rename_i hhome
  refine ⟨Bool.not_eq_false _ ▸ hroom, fun did hdid => ?_, fun d hd => ?_⟩
  · subst hdid
    simpa [isSome_iff_ne_none] using hhome
  · subst hd
    exact h

theorem Index.Kept.learn (hD : Set.InjOn C.digest D) (hi : i.Kept C K D) (home : Option String) (deleted : Option Delete)
    (hdig : Digests C D (i.learn C cfg room head home deleted .done).2.1) :
    i.Goes C K D (slotKey C room head.slot) (i.learn C cfg room head home deleted .done).2.1
      (i.learn C cfg room head home deleted .done).1 := by
  rcases @learn_cases C i cfg room head .done home deleted with ⟨h1, h2⟩ | ⟨-, hl, hover, hfull, h1, h2⟩
  · rw [h1, h2]
    exact hi.same
  · rw [h2] at hdig
    rw [h1, h2]
    have hv := learnable_valid hl
    obtain ⟨hroom, hhome, hdel⟩ := learnable_checks hl
    have hlinked : (learned C (i.records.get (slotKey C room head.slot)) room head home deleted).Linked C :=
      learned_linked hv hi.linked hover
    have hc : (learned C (i.records.get (slotKey C room head.slot)) room head home deleted).Continues C
        (i.records.get (slotKey C room head.slot)) none := by
      refine ⟨fun p hp => ⟨(hlinked.previous p hp).1, ?_⟩, fun h hh => ?_, fun did hdid => ?_⟩
      · obtain ⟨o, ho, rfl⟩ := map_eq_some_iff.1 hp
        exact ⟨o, (filter_eq_some_iff.1 ho).1, .inl rfl⟩
      · have hold := (heldHeads_learned _ room head home deleted).subset hh
        cases ho : i.records.get (slotKey C room head.slot) with
        | none =>
          rw [ho] at hold
          cases hold
        | some o =>
          rw [ho] at hold
          exact .inr ⟨o, rfl, hold⟩
      · rcases or_eq_some_iff.1 hdid with hgiven | ⟨-, hold⟩
        · exact .inr (hhome did hgiven)
        · exact .inl (bind_eq_some_iff.1 hold)
    refine hi.goes (Index.roomy_of_full hfull) hdig (.record _ ?_ hc) rfl
    refine hc.storable hD hi rfl hroom hv (fun d hd => ⟨hdel d hd, rfl, ?_⟩) nofun (hdig _ _ List.mem_cons_self).1
    have hd : deleted = some d := hd
    show Option.map _ (Option.filter _ _) = none
    rw [map_eq_none_iff, filter_eq_none_iff]
    intro o _ hcond
    simp [hd] at hcond

theorem Index.Kept.meshDelete (hD : Set.InjOn C.digest D) (hi : i.Kept C K D) (request : Delete)
    (hdig : Digests C D (i.meshDelete C cfg room request .done).2.1) :
    i.Goes C K D (slotKey C room request.slot) (i.meshDelete C cfg room request .done).2.1
      (i.meshDelete C cfg room request .done).1 := by
  rcases @meshDelete_cases C i cfg room .done request with ⟨h1, h2⟩ | ⟨r, -, hslot, h1, h2⟩
  · rw [h1, h2]
    exact hi.same
  · rw [h2] at hdig
    rw [h1, h2, ← hslot]
    exact hi.learn hD r.home (some request) hdig

theorem Index.Kept.delete (hi : i.Kept C K D) (request : Delete)
    (hdig : Digests C D (i.delete C room request .done).2.1) :
    i.Goes C K D (slotKey C room request.slot) (i.delete C room request .done).2.1 (i.delete C room request .done).1 := by
  rcases @delete_cases C i room .done request with ⟨h1, h2⟩ | ⟨-, ⟨r, hr⟩, h1, h2⟩
  · rw [h1, h2]
    exact hi.same
  · rw [h2] at hdig
    rw [h1, h2]
    exact hi.goes (fun hnone => by rw [hr] at hnone; cases hnone) hdig .removed rfl

variable {previous : Option Head} {previousHeld : Bool} {owner : Option String}

theorem stored_continues 
    (hprev : ∀ p, previous = some p → Extends C head p ∧
      ∃ o, i.records.get key = some o ∧ (p = o.current ∨ o.previous = some p) ∧ (previousHeld = true → p ∈ o.heldHeads)) :
    (stored (i.records.get key) room head previous previousHeld owner).Continues C (i.records.get key) (some head) := by
  refine ⟨fun p hp => ?_, fun h hh => ?_, fun did hdid => .inl (bind_eq_some_iff.1 hdid)⟩
  · obtain ⟨hext, o, ho, hpo, -⟩ := hprev p hp
    exact ⟨hext, o, ho, hpo⟩
  · rcases (mem_heldHeads.1 hh).2 with ⟨-, rfl⟩ | ⟨hheld, hp⟩
    · exact .inl rfl
    · obtain ⟨-, o, ho, -, hmem⟩ := hprev h hp
      exact .inr ⟨o, ho, hmem hheld⟩

theorem Index.Kept.store (hD : Set.InjOn C.digest D) (hhex : ∀ bytes, hexString (C.digest bytes) 64 = true)
    (hi : i.Kept C K D) {blob bytes : List UInt8}
    {manifest : FileManifest} (hroom : validRoom room = true) (hv : head.Valid C gib)
    (hvalid : validateGeneration C head blob bytes = .ok manifest) (hroomy : i.Roomy (slotKey C room head.slot))
    (howner : ∀ o, owner = some o → o.utf8ByteSize ≤ 1024)
    (hprev : ∀ p, previous = some p → Extends C head p ∧ ∃ o, i.records.get (slotKey C room head.slot) = some o ∧
      (p = o.current ∨ o.previous = some p) ∧ (previousHeld = true → p ∈ o.heldHeads))
    (hnot : ∀ o, i.records.get (slotKey C room head.slot) = some o → head ∉ o.heldHeads)
    (hdig : Digests C D (i.commitInner C room head previous previousHeld owner blob bytes manifest .done).2.1) :
    i.Goes C K D (slotKey C room head.slot)
      (i.commitInner C room head previous previousHeld owner blob bytes manifest .done).2.1
      (i.commitInner C room head previous previousHeld owner blob bytes manifest .done).1 := by
  have hc := @stored_continues C i (slotKey C room head.slot) room head previous previousHeld owner hprev
  unfold Index.commitInner at hdig ⊢
  dsimp only [Index.publish] at hdig ⊢
  generalize hkey : slotKey C room head.slot = key at *
  generalize hr : Escrow.stored (i.records.get key) room head previous previousHeld owner = r at *
  have hcurrent : r.current = head := by rw [← hr]; rfl
  have hrroom : r.room = room := by rw [← hr]; rfl
  obtain ⟨hslot, hdoc, hgen⟩ := hdig key r (List.mem_cons_of_mem _ (List.mem_cons_of_mem _ List.mem_cons_self))
  rw [← hcurrent] at hc hvalid hv hnot hdig ⊢
  have hs : r.Storable C key := by
    refine hc.storable hD hi ?_ (hrroom ▸ hroom) hv ?_ ?_ hslot
    · rw [hrroom, hcurrent, hkey]
    · rw [← hr]
      nofun
    · rw [← hr]
      exact howner
  exact hi.goes hroomy hdig (.generation r blob bytes manifest hs hc hvalid
    (hi.apart hD hhex hs (hc.digested hi hslot hdoc hgen) hnot)) rfl

theorem Index.Kept.among (hi : i.Kept C K D) (k : String) (o : Record) (ho : i.records.get k = some o) : o.Among Set.univ :=
  ⟨Set.mem_univ _, fun p hp => ⟨Set.mem_univ _, ((hi.stored k o ho).previous p hp).2.2.ne.symm⟩⟩

theorem Keeps.mem_heldHeads {o : Record} 
    (h : Keeps Set.univ (some o) head previous previousHeld) {p : Head} (hp : previous = some p)
    (hheld : previousHeld = true) : p ∈ o.heldHeads := by
  refine h.held.subset ?_
  rw [keptHeads, if_pos hheld, hp]
  exact mem_toList.2 rfl

/-- **What an import keeps** is the head of the record or its backup, and its head is not held. -/
theorem importOver_from {o : Record} 
    (hext : ∀ p, o.previous = some p → Extends C o.current p)
    (h : importOver C (some o) head = .ok (previous, previousHeld)) :
    (∀ p, previous = some p → p = o.current ∨ o.previous = some p) ∧ head ∉ o.heldHeads := by
  unfold importOver at h
  dsimp only at h
  split at h
  · cases h
  split at h
  · cases h
  rename_i hunchanged
  split at h
  · cases h
  split at h
  · cases h
  split at h
  · cases h
  refine ⟨?_, fun hmem => ?_⟩
  · split at h
    · cases h
      exact fun p hp => .inr hp
    split at h
    · cases h
      exact fun p hp => .inl (Option.some.inj hp).symm
    · cases h
      exact nofun
  · obtain ⟨hdel, ⟨hheld, rfl⟩ | ⟨-, hp⟩⟩ := mem_heldHeads.1 hmem
    · exact hunchanged ⟨by rw [hdel]; rfl, hheld, .inl rfl⟩
    · -- a backup is older than the head of its record
      have := (hext head hp).seq
      omega

theorem Index.Kept.importHead (hcfg : cfg.Valid) (hD : Set.InjOn C.digest D)
    (hhex : ∀ bytes, hexString (C.digest bytes) 64 = true) (hi : i.Kept C K D) (blob bytes : List UInt8)
    (hdig : Digests C D (i.importHead C cfg room head blob bytes .done).2.1) :
    i.Goes C K D (slotKey C room head.slot) (i.importHead C cfg room head blob bytes .done).2.1
      (i.importHead C cfg room head blob bytes .done).1 := by
  rcases @importHead_cases C i cfg room head .done blob bytes with
    ⟨h1, h2⟩ | ⟨-, hroom, hv, manifest, previous, previousHeld, hvalid, hover, hfull, -, h1, h2⟩
  · rw [h1, h2]
    exact hi.same
  · rw [h2] at hdig
    rw [h1, h2]
    have hkeeps := keeps_import (hi.among _) hover
    refine hi.store hD hhex hroom (hv.mono C hcfg.blob.2) hvalid (Index.roomy_of_full hfull) nofun (fun p hp => ?_)
      (fun o ho => ?_) hdig
    · cases ho : i.records.get (slotKey C room head.slot) with
      | none =>
        rw [ho] at hover
        cases hover
        cases hp
      | some o =>
        rw [ho] at hover hkeeps
        have hext := fun p hp => ((hi.stored _ o ho).previous p hp).2.2
        exact ⟨((importOver_advances (hi.linked _ o ho) hover).2.2 p hp).1, o, rfl, (importOver_from hext hover).1 p hp,
          hkeeps.mem_heldHeads hp⟩
    · rw [ho] at hover
      exact (importOver_from (fun p hp => ((hi.stored _ o ho).previous p hp).2.2) hover).2

theorem kept_from {o : Record} {p : Head} (h : (kept C (some o) head).1 = some p) : p = o.current ∨ o.previous = some p := by
  unfold kept at h
  split at h
  · rename_i r hr
    obtain ⟨he, -⟩ := filter_eq_some_iff.1 hr
    cases he
    split at h
    · exact .inr h
    split at h
    · exact .inl (Option.some.inj h).symm
    · cases h
  · cases h

theorem Index.Kept.commit (hD : Set.InjOn C.digest D) (hhex : ∀ bytes, hexString (C.digest bytes) 64 = true)
    (howners : ∀ o ∈ K.owners, o.utf8ByteSize ≤ 1024) (hi : i.Kept C K D) (hroom : validRoom room = true)
    (hv : head.Valid C gib) (hext : Extending C (i.records.get (slotKey C room head.slot)) head)
    (hunheld : ∀ o, i.records.get (slotKey C room head.slot) = some o → o.current = head → o.held = false)
    (hpending : (i.pendingSlots.get (slotKey C room head.slot)).isSome = true) (blob bytes : List UInt8)
    (hdig : Digests C D (i.commit C room head blob bytes .done).2.1) :
    i.Goes C K D (slotKey C room head.slot) (i.commit C room head blob bytes .done).2.1
      (i.commit C room head blob bytes .done).1 := by
  rcases @commit_cases C i room head .done blob bytes with ⟨h1, h2, -⟩ | ⟨-, manifest, hvalid, hout⟩
  · rw [h1, h2]
    exact hi.same
  · rw [hout] at hdig ⊢
    have hkeeps := @keeps_kept C _ _ (hi.among (slotKey C room head.slot)) head
    refine hi.store hD hhex hroom hv hvalid (fun _ => .inl hpending) (fun o ho => ?_) (fun p hp => ?_) (fun o ho hmem => ?_)
      hdig
    · obtain ⟨pending, hget, howner⟩ := bind_eq_some_iff.1 ho
      exact howners o (hi.owners _ pending o hget howner)
    · have hextends := (kept_linked (hi.linked _) hp).1
      cases ho : i.records.get (slotKey C room head.slot) with
      | none =>
        rw [ho] at hp
        cases hp
      | some o =>
        rw [ho] at hp hkeeps
        exact ⟨hextends, o, rfl, kept_from hp, hkeeps.mem_heldHeads hp⟩
    · obtain ⟨hdel, ⟨hheld, heq⟩ | ⟨-, hp⟩⟩ := mem_heldHeads.1 hmem
      · rw [hunheld o ho heq.symm] at hheld
        cases hheld
      · -- a backup is older than the head of its record, which the new head is or extends
        have h1 := ((hi.stored _ o ho).previous head hp).2.2.seq
        rcases hext o ho with ⟨heq, -⟩ | he
        · rw [← heq] at h1
          omega
        · have := he.seq
          omega

/-! ## Desks -/

structure Booked (C : Crates) (K : Callers) (i : Index) (b : Booking) : Prop where
  room : b.room ∈ K.rooms
  valid : b.head.Valid C gib
  unheld : ∀ o, i.records.get b.reservation.key = some o → o.current = b.head → o.held = false
  pending : (i.pendingSlots.get b.reservation.key).isSome = true

/-- **What every writer keeps.** -/
structure Desk.Kept (C : Crates) (K : Callers) (D : Set (List UInt8)) (d : Desk) : Prop where
  index : d.index.Kept C K D
  sound : d.Sound C
  booked : ∀ b ∈ d.bookings, b.committed = false → Booked C K d.index b

theorem Booked.congr {b : Booking} (h : Booked C K i b)
    (hrecords : i'.records.get b.reservation.key = i.records.get b.reservation.key)
    (hpending : i'.pendingSlots.get b.reservation.key = i.pendingSlots.get b.reservation.key) : Booked C K i' b :=
  ⟨h.room, h.valid, by rw [hrecords]; exact h.unheld, by rw [hpending]; exact h.pending⟩

theorem Index.Kept.default : Index.default.Kept C K D := by
  refine ⟨fun k r hr => ?_, fun k r hr => ?_, fun k p o h => ?_, Nat.zero_le _⟩
  · cases hr
  · cases hr
  · cases h

theorem Desk.Kept.empty : Desk.Kept C K D ⟨.default, 0⟩ :=
  ⟨.default, ⟨Index.Kept.default.linked (K := K) (D := D), fun b hb => absurd hb (Multiset.notMem_zero b), Multiset.nodup_zero⟩,
    fun b hb => absurd hb (Multiset.notMem_zero b)⟩

theorem Disk.Holds.empty : Disk.empty.Holds C Index.default.records := by
  refine ⟨fun k => ?_, fun k r h hr => ?_⟩
  · exact Table.get_empty k
  · cases hr

theorem Desk.Kept.opened (hd : d.Kept C K D) (hrecords : i.records = d.index.records) (hpending : i.pendingSlots = ∅) :
    Desk.Kept C K D ⟨i, 0⟩ := by
  refine ⟨⟨hrecords ▸ hd.index.stored, hrecords ▸ hd.index.digested, fun k p o h => ?_, ?_⟩, ⟨?_, fun b hb => ?_, ?_⟩,
    fun b hb => absurd hb (Multiset.notMem_zero b)⟩
  · rw [hpending] at h
    cases h
  · rw [hrecords, hpending]
    refine (Finset.card_le_card (Finset.union_subset_union_right (fun k hk => ?_))).trans hd.index.slots
    exact absurd (Table.get_empty k) (Table.mem_keys.1 hk)
  · intro k r hr
    rw [hrecords] at hr
    exact hd.sound.linked k r hr
  · exact absurd hb (Multiset.notMem_zero b)
  · exact Multiset.nodup_zero

theorem Desk.Kept.goes (hd : d.Kept C K D) (hg : d.index.Goes C K D key effects i') (hidle : d.Idle key)
    (hsound : Desk.Sound C { d with index := i' }) : Desk.Kept C K D { d with index := i' } := by
  refine ⟨hg.kept, hsound, fun b hb hc => (hd.booked b hb hc).congr (hg.wrote.others (fun hk => ?_)) (by rw [hg.pending])⟩
  rw [hidle b hb hk] at hc
  cases hc

variable {reservation : Reservation}

theorem reserve_unheld {ownerLimit : Option Nat}
    (h : i.reserve C cfg room head owner ownerLimit = (i', .ok (some reservation))) (o : Record)
    (ho : i.records.get (slotKey C room head.slot) = some o) (heq : o.current = head) : o.held = false := by
  unfold Index.reserve at h
  split at h
  · cases h
  split at h
  · cases h
  split at h
  · cases h
  dsimp only at h
  split at h
  · cases h
  split at h
  · cases h
  rename_i retry hretry
  split at h
  · cases h
  rename_i hheld
  rw [ho] at hretry hheld
  have htrue : retry = true := by
    unfold isRetry at hretry
    dsimp only at hretry
    split at hretry
    · split at hretry
      · cases hretry
      · rename_i hs
        exact absurd heq.symm (successor_extends hs).ne
    · cases retry with
      | true => rfl
      | false => exact absurd heq.symm (checkCas_false C hretry).ne
  simpa [htrue] using hheld

theorem Index.Kept.hold (hi : i.Kept C K D) (hkey : reservation.key = key)
    (howner : ∀ o, reservation.owner = some o → o ∈ K.owners) (hroomy : i.records.get key = none →
      i.full cfg room = false) : (i.hold room reservation).Kept C K D := by
  subst hkey
  refine ⟨hi.stored, hi.digested, fun k p o h ho => ?_, ?_⟩
  · rcases Table.of_get_insert h with ⟨-, rfl⟩ | ⟨-, h⟩
    · exact howner o ho
    · exact hi.owners k p o h ho
  · show (i.records.keys ∪ (i.pendingSlots.insert _ _).keys).card ≤ 65536
    rw [Table.keys_insert, Finset.union_insert]
    exact hi.slots_insert (Index.roomy_of_full hroomy)

theorem Index.Kept.release (hi : i.Kept C K D) (reservation : Reservation) : (i.release reservation).Kept C K D := by
  refine ⟨hi.stored, hi.digested, fun k p o h ho => ?_, ?_⟩
  · obtain ⟨-, h⟩ := Table.of_get_erase h
    exact hi.owners k p o h ho
  · exact (Finset.card_le_card (Finset.union_subset_union_right (Table.keys_erase_subset _ _))).trans hi.slots

section Steps

variable (hcfg : cfg.Valid) (hD : Set.InjOn C.digest D) (hhex : ∀ bytes, hexString (C.digest bytes) 64 = true)
  (hrooms : ∀ room ∈ K.rooms, validRoom room = true) (howners : ∀ o ∈ K.owners, o.utf8ByteSize ≤ 1024)

include hcfg hD hhex hrooms howners

variable {readable : String → Head → Bool}

theorem Desk.Kept.step (hd : d.Kept C K D)
    (h : Desk.Step C cfg K readable .done d effects d') (hdig : Digests C D effects) :
    d'.Kept C K D ∧ ∃ key, Wrote C d.index key effects d'.index.records := by
  have hsound := (h.goes_on hd.sound).1
  cases h with
  | reserve room head owner ownerLimit i reservation hroom _ hfree howner hres =>
    rcases @reserve_cases C d.index cfg room head owner ownerLimit with ⟨-, hno⟩ | ⟨hv, -, -, hfull, -, -, r, hr, hout⟩
    · exact absurd (by rw [hres]) (hno reservation)
    have hunheld := reserve_unheld hres
    rw [hout] at hres
    obtain ⟨rfl, hsame⟩ := Prod.mk.inj hres
    cases hsame
    have hkey : reservation.key = slotKey C room head.slot := by rw [hr]
    have hpending : ∀ k, (d.index.hold room reservation).pendingSlots.get k
        = if k = reservation.key then some ⟨room, reservation.owner⟩ else d.index.pendingSlots.get k :=
      fun k => Table.get_insert _ _ _ _
    refine ⟨⟨hd.index.hold hkey (fun o ho => (howner o (by rw [hr] at ho; exact ho)).1) hfull, hsound, fun b hb hc => ?_⟩,
      reservation.key, .nothing⟩
    rcases Multiset.mem_cons.1 hb with rfl | hb
    · refine ⟨hroom, hv.mono C hcfg.blob.2, fun o ho => hunheld o (hkey ▸ ho), ?_⟩
      rw [hpending, if_pos rfl]
      rfl
    · exact (hd.booked b hb hc).congr rfl (by rw [hpending, if_neg (fun hk => hfree b hb (hk.trans hkey))])
  | unreserved room head owner ownerLimit i result hno hres =>
    have he : i = d.index := by
      rcases @reserve_cases C d.index cfg room head owner ownerLimit with ⟨he, -⟩ | ⟨-, -, -, -, -, -, r, -, hout⟩
      · rw [hres] at he
        exact he
      · rw [hres] at hout
        exact absurd (Prod.mk.inj hout).2 (hno r)
    subst he
    exact ⟨⟨hd.index, hsound, hd.booked⟩, "", .nothing⟩
  | commit b rest blob bytes hb hc =>
    have hmem : b ∈ d.bookings := by rw [hb]; exact Multiset.mem_cons_self _ _
    have haw := hd.sound.awaited b hmem hc
    have hbooked := hd.booked b hmem hc
    have hkeys := hd.sound.keys
    rw [hb, Multiset.map_cons, Multiset.nodup_cons] at hkeys
    have hg := hd.index.commit hD hhex howners (hrooms _ hbooked.room) hbooked.valid (haw.key ▸ haw.extending)
      (haw.key ▸ hbooked.unheld) (haw.key ▸ hbooked.pending) blob bytes hdig
    refine ⟨⟨hg.kept, hsound, fun x hx hxc => ?_⟩, _, hg.wrote⟩
    rcases Multiset.mem_cons.1 hx with rfl | hx
    · -- a commit that is still awaited has failed
      rcases @commit_cases C d.index b.room b.head .done blob bytes with ⟨he, -, -⟩ | ⟨-, manifest, -, hout⟩
      · rw [he]
        exact ⟨hbooked.room, hbooked.valid, hbooked.unheld, hbooked.pending⟩
      · rw [hout] at hxc
        cases hxc
    · refine (hd.booked x (by rw [hb]; exact Multiset.mem_cons_of_mem hx) hxc).congr (hg.wrote.others (fun hk => ?_))
        (by rw [hg.pending])
      rw [← haw.key] at hk
      exact hkeys.1 (Multiset.mem_map.2 ⟨x, hx, hk⟩)
  | drop b rest hb =>
    have hkeys := hd.sound.keys
    rw [hb, Multiset.map_cons, Multiset.nodup_cons] at hkeys
    refine ⟨⟨hd.index.release b.reservation, hsound, fun x hx hxc => ?_⟩, "", .nothing⟩
    refine (hd.booked x (by rw [hb]; exact Multiset.mem_cons_of_mem hx) hxc).congr rfl (Table.get_erase_ne (fun hk => ?_) _)
    exact hkeys.1 (Multiset.mem_map.2 ⟨x, hx, hk⟩)
  | importHead room head blob bytes _ hidle =>
    have hg := hd.index.importHead hcfg hD hhex blob bytes hdig
    exact ⟨hd.goes hg hidle hsound, _, hg.wrote⟩
  | delete room request hidle =>
    have hg := hd.index.delete request hdig
    exact ⟨hd.goes hg hidle hsound, _, hg.wrote⟩
  | learn room head home deleted _ hidle =>
    have hg := hd.index.learn hD home deleted hdig
    exact ⟨hd.goes hg hidle hsound, _, hg.wrote⟩
  | meshDelete room request hidle =>
    have hg := hd.index.meshDelete hD request hdig
    exact ⟨hd.goes hg hidle hsound, _, hg.wrote⟩
  | setHome room head home hidle =>
    have hg := hd.index.trimmed (setHome_trimmed home) hdig
    exact ⟨hd.goes hg hidle hsound, _, hg.wrote⟩
  | dropHolding room head hidle =>
    have hg := hd.index.trimmed dropHolding_trimmed hdig
    exact ⟨hd.goes hg hidle hsound, _, hg.wrote⟩
  | verifyHolding room head hidle =>
    have hg := hd.index.trimmed (verifyHolding_trimmed (readable room)) hdig
    exact ⟨hd.goes hg hidle hsound, _, hg.wrote⟩

section

variable (hcid : ∀ cid, C.isValidCid cid = true → cid.utf8ByteSize ≤ 1024)

include hcid

/-- **A crash of a desk whose files are there** leaves a directory that opens, as the records before the operation or as those
after it. -/
theorem Desk.Kept.crash (hd : d.Kept C K D)
    (h : Desk.Step C cfg K readable .done d effects d') (hdig : Digests C D effects)
    (hdisk : disk.Holds C d.index.records) (hc : Crash C disk effects d'.index.records disk')
    {order : List (Sigma (fun _ : String => List UInt8))} (horder : (order : Multiset _) = disk'.heads.entries) :
    ∃ i records, disk'.open C order = .ok (i, disk'.cleanup C records) ∧ i.records = records ∧ i.pendingSlots = ∅ ∧
      (records = d.index.records ∨ records = d'.index.records) ∧ (disk'.cleanup C records).Holds C records := by
  obtain ⟨hd', key, hw⟩ := hd.step hcfg hD hhex hrooms howners h hdig
  have hopen : ∀ {desk : Desk}, desk.Kept C K D → disk'.Holds C desk.index.records →
      ∃ i, disk'.open C order = .ok (i, disk'.cleanup C desk.index.records) ∧ i.records = desk.index.records ∧ i.pendingSlots = ∅ := by
    intro desk hdesk hholds
    refine open_ok hdesk.index.stored hcid hholds ?_ horder
    rw [← Table.card_keys]
    exact (Finset.card_le_card Finset.subset_union_left).trans hdesk.index.slots
  rcases hdisk.crash hw hc with hb | ha
  · obtain ⟨i, h1, h2, h3⟩ := hopen hd hb
    exact ⟨i, _, h1, h2, h3, .inl rfl, hb.cleanup⟩
  · obtain ⟨i, h1, h2, h3⟩ := hopen hd' ha
    exact ⟨i, _, h1, h2, h3, .inr rfl, ha.cleanup⟩

theorem Store.Reaches.kept {n : Store}
    (h : Store.Reaches C cfg K D n) : n.desk.Kept C K D ∧ n.disk.Holds C n.desk.index.records := by
  induction h with
  | empty => exact ⟨Desk.Kept.empty, Disk.Holds.empty⟩
  | step _ hstep hdig ih =>
    obtain ⟨hd', key, hw⟩ := ih.1.step hcfg hD hhex hrooms howners hstep hdig
    exact ⟨hd', ih.2.run hw⟩
  | restart _ hstep hdig hcrash horder hopen ih =>
    obtain ⟨hd', -⟩ := ih.1.step hcfg hD hhex hrooms howners hstep hdig
    obtain ⟨i, records, hopens, rfl, hpending, hsame, hholds⟩ :=
      ih.1.crash hcfg hD hhex hrooms howners hcid hstep hdig ih.2 hcrash horder
    rw [hopens] at hopen
    obtain ⟨rfl, rfl⟩ := Prod.mk.inj (Except.ok.inj hopen)
    refine ⟨?_, hholds⟩
    rcases hsame with he | he
    · exact ih.1.opened he hpending
    · exact hd'.opened he hpending

end

end Steps

/-- **A restart is as if the operation had not begun, or had ended.**  A crash after any durable step leaves a
directory that opens: every slot has its record of before the operation, or every slot that of after it, with the
generations that they hold and no other. -/
theorem restart_atomic (C : Crates) (cfg : Config) (K : Callers) (D : Set (List UInt8)) (hcfg : cfg.Valid)
    (hD : Set.InjOn C.digest D) (hhex : ∀ bytes, hexString (C.digest bytes) 64 = true)
    (hcid : ∀ cid, C.isValidCid cid = true → cid.utf8ByteSize ≤ 1024) (hrooms : ∀ room ∈ K.rooms, validRoom room = true)
    (howners : ∀ o ∈ K.owners, o.utf8ByteSize ≤ 1024) (n : Store) (hn : Store.Reaches C cfg K D n)
    (readable : String → Head → Bool) (effects : List Effect) (desk : Desk)
    (hstep : Desk.Step C cfg K readable .done n.desk effects desk) (hdig : Digests C D effects) (disk : Disk)
    (hcrash : Crash C n.disk effects desk.index.records disk) (order : List (Sigma (fun _ : String => List UInt8)))
    (horder : (order : Multiset _) = disk.heads.entries) :
    ∃ i disk', disk.open C order = .ok (i, disk') ∧ (i.records = n.desk.index.records ∨ i.records = desk.index.records) ∧
      (∀ k, disk'.heads.get k = (i.records.get k).map Record.bytes) ∧
      (∀ k r h, i.records.get k = some r → h ∈ r.heldHeads → ∃ blob bytes manifest,
        disk'.blobs.get (generation C k h) = some ⟨some blob, some bytes⟩ ∧ validateGeneration C h blob bytes = .ok manifest) ∧
      ∀ dir files, disk'.blobs.get dir = some files → hexString dir 64 = true →
        ∃ k r h, i.records.get k = some r ∧ h ∈ r.heldHeads ∧ generation C k h = dir := by
  obtain ⟨hd, hdisk⟩ := hn.kept hcfg hD hhex hrooms howners hcid
  obtain ⟨i, records, hopen, rfl, -, hsame, hholds⟩ := hd.crash hcfg hD hhex hrooms howners hcid hstep hdig hdisk hcrash horder
  exact ⟨i, _, hopen, hsame, hholds.files, hholds.generations, fun dir files hget hdir => Disk.cleanup_holds hget hdir⟩

def restartCrates : Crates := { noteCrates with
    digest := fun
      | [110, 111, 116, 101] => noteHead.sha256
      | 110 :: _ => noteKey
      | 123 :: _ => noteHash
      | _ => "4ae8eaacad7ed20b6c2293482edec72ec1100f4bc65a4b3a4cd00833b4b62f1b"
    isValidCid := fun cid => decide (cid.utf8ByteSize = 59) }

def restartTexts : Set (List UInt8) := {slotText "notes" noteHead.slot, noteHead.document,
    generationText restartCrates (slotKey restartCrates "notes" noteHead.slot) noteHead}

theorem restart_slot : slotKey restartCrates "notes" noteHead.slot = noteKey := by decide

theorem restart_document : restartCrates.digest noteHead.document = noteHash := by
  rfl

theorem restart_generation : restartCrates.digest (generationText restartCrates noteKey noteHead)
    = "4ae8eaacad7ed20b6c2293482edec72ec1100f4bc65a4b3a4cd00833b4b62f1b" := by
  have h : noteKey.toList = 'd' :: noteKey.toList.tail := by decide
  rfl

theorem restartTexts_injOn : Set.InjOn restartCrates.digest restartTexts := by
  have h1 : restartCrates.digest (slotText "notes" noteHead.slot) = noteKey := restart_slot
  have h2 := restart_document
  have h3 := restart_generation
  rintro a (rfl | rfl | rfl) b (rfl | rfl | rfl) h
  all_goals first
    | rfl
    | (exact absurd h (by decide))

theorem restart_hex (bytes : List UInt8) : hexString (restartCrates.digest bytes) 64 = true := by
  unfold restartCrates
  dsimp only
  split <;> decide

theorem restart_atomic_note :
    (Index.default.importHead restartCrates .default "notes" noteHead noteBlob noteManifest .done).2.1.length = 3 ∧
    ∃ i disk', (Disk.empty.applyAll ((Index.default.importHead restartCrates .default "notes" noteHead noteBlob noteManifest
        .done).2.1.take 2)).open restartCrates [] = .ok (i, disk') ∧
      ∀ dir files, disk'.blobs.get dir = some files → hexString dir 64 = true →
        ∃ k r h, i.records.get k = some r ∧ h ∈ r.heldHeads ∧ generation restartCrates k h = dir := by
  refine ⟨by decide, ?_⟩
  have hstep : Desk.Step restartCrates .default noteCallers (fun _ _ => true) .done ⟨.default, 0⟩ _ _ :=
    .importHead "notes" noteHead noteBlob noteManifest rfl (fun b hb => absurd hb (Multiset.notMem_zero b))
  have heffects : (Index.default.importHead restartCrates .default "notes" noteHead noteBlob noteManifest .done).2.1 = [] ∨
      ∃ dir previous previousHeld, (Index.default.importHead restartCrates .default "notes" noteHead noteBlob noteManifest .done).2.1
        = [.writeBlob dir noteBlob, .writeManifest dir noteManifest, .writeRecord (slotKey restartCrates "notes" noteHead.slot)
            (stored (Index.default.records.get (slotKey restartCrates "notes" noteHead.slot)) "notes" noteHead previous
              previousHeld none)] := by
    rcases @importHead_cases restartCrates .default .default "notes" noteHead .done noteBlob noteManifest with
      ⟨-, h⟩ | ⟨-, -, -, manifest, previous, previousHeld, -, -, -, -, -, h⟩
    · exact .inl h
    · exact .inr ⟨_, previous, previousHeld, h⟩
  generalize Index.default.importHead restartCrates .default "notes" noteHead noteBlob noteManifest .done = out at *
  have hdig : Digests restartCrates restartTexts out.2.1 := by
    intro key r hmem
    rcases heffects with h | ⟨dir, previous, previousHeld, h⟩
    · rw [h] at hmem
      cases hmem
    · rw [h] at hmem
      simp only [List.mem_cons, List.not_mem_nil, reduceCtorEq, false_or, or_false] at hmem
      obtain ⟨rfl, rfl⟩ := hmem
      exact ⟨.inl rfl, .inr (.inl rfl), .inr (.inr rfl)⟩
  have hheads : (Disk.empty.applyAll (out.2.1.take 2)).heads = ∅ := by
    rcases heffects with h | ⟨dir, previous, previousHeld, h⟩ <;> rw [h] <;> rfl
  obtain ⟨i, disk', hopen, -, -, -, hdirs⟩ := restart_atomic restartCrates .default noteCallers restartTexts
    Config.Valid.default restartTexts_injOn restart_hex
    (fun cid h => le_of_eq_of_le (of_decide_eq_true h) (by decide)) (fun room h => by rw [Set.mem_singleton_iff.1 h]; decide)
    (fun o h => by rw [Set.mem_singleton_iff.1 h]; decide) _ .empty _ _ _ hstep hdig _ (.between 2) [] (by rw [hheads]; rfl)
  exact ⟨i, disk', hopen, hdirs⟩

end Mistl.Escrow
