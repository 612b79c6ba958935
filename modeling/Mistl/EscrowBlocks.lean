import Mistl.EscrowArchive
/-!
# EscrowBlocks — the blocks of archived generations

The rest of `escrow/replication/archive.rs`: the index of the blocks, the files it points into, and the collections that
fail on the disk.  One that fails leaves the index as it is at that moment and disables the archive.
-/
open List Mistl.Table Option

namespace Mistl.Escrow

/-! ## The archive with its blocks -/

inductive BlockFile where
  | manifest | blob

/-- Where a block is: in a file of a generation's directory. -/
structure Block where
  hash : String
  file : BlockFile
  offset : Nat
  len : Nat

/-- The index of an archive and the `blob.bin` and `manifest.bin` of its directories. -/
structure BlockArchive extends Archive where
  blocks : Table (String × String) Block
  files : Table String (List UInt8 × List UInt8)

variable (C : Crates)

def indexChunks (hash room : String) (manifest : FileManifest) (blocks : Table (String × String) Block) :
    Table (String × String) Block :=
  manifest.chunks.zipIdx.foldl (fun blocks c => blocks.insert (room, c.1)
    ⟨hash, .blob, c.2 * C.chunkSize, min (manifest.size - c.2 * C.chunkSize) C.chunkSize⟩) blocks

def indexBlocks (hash : String) (record : ArchiveRecord) (manifest : FileManifest) (manifestLen : Nat)
    (blocks : Table (String × String) Block) : Table (String × String) Block :=
  record.rooms.foldl (fun blocks room => indexChunks C hash room manifest
    (blocks.insert (room, record.head.cid) ⟨hash, .manifest, 0, manifestLen⟩)) blocks

inductive CollectFault where
  /-- after so many generations were taken out, before or after the directory of the next one is renamed -/
  | removing (done : Nat) (renamed : Bool)
  /-- after so many of the generations that stay were indexed -/
  | indexing (done : Nat)

namespace BlockArchive

/-- `Archive::stage`; the files of a generation that is there are not written again. -/
def stage (a : BlockArchive) (cfg : Config) (room : String) (head : Head) (blob bytes : List UInt8) (disk : Bool) :
    BlockArchive × Except Error Unit :=
  if validRoom room = false then (a, .error (.new .badRequest))
  else match head.validate C cfg.maxBlobBytes with
    | .error e => (a, .error e)
    | .ok () => match head.verify C with
      | .error e => (a, .error e)
      | .ok () => match validateGeneration C head blob bytes with
        | .error e => (a, .error e)
        | .ok manifest =>
          let hash := head.hash C
          if a.writeFailed then (a, .error (.new .fetchFailed))
          else
            let existing := a.entries.get hash
            if existing.any (fun e => e.record.rooms.contains room) then (a, .ok ())
            else if existing.isNone ∧ archiveEntries ≤ a.entries.size then (a, .error (.new .quota))
            else
              let rooms := (existing.map (fun e => e.record.rooms)).getD []
              if 64 ≤ rooms.length then (a, .error (.new .quota))
              else
                let record : ArchiveRecord := ⟨head, insertRoom room rooms⟩
                let metadata := record.toJson.toVec.length
                if maxRecord < metadata then (a, .error (.new .tooLarge))
                else
                  let size := blob.length + bytes.length + metadata
                  let total := a.bytes - (existing.map ArchiveEntry.size).getD 0 + size
                  if cfg.maxTotalBytes < total then (a, .error (.new .quota))
                  else if disk = false then ({ a with writeFailed := true }, .error (.new .fetchFailed))
                  else
                    ({ a with bytes := total, entries := a.entries.insert hash ⟨record, size⟩,
                              files := if existing.isNone then a.files.insert hash (blob, bytes) else a.files,
                              blocks := indexBlocks C hash record manifest bytes.length a.blocks }, .ok ())

def retire (a : BlockArchive) (hash : String) : BlockArchive :=
  { a with entries := a.entries.erase hash, files := a.files.erase hash,
           bytes := a.bytes - ((a.entries.get hash).map ArchiveEntry.size).getD 0 }

def reindexOne (a : BlockArchive) (hash : String) : Option BlockArchive := do
  let e ← a.entries.get hash
  let f ← a.files.get hash
  if maxManifest < f.2.length then none
  else match validateManifest C e.record.head f.2 with
    | .ok manifest => some { a with blocks := indexBlocks C hash e.record manifest f.2.length a.blocks }
    | .error _ => none

def reindex (a : BlockArchive) : List String → BlockArchive × Bool
  | [] => (a, true)
  | hash :: rest =>
    match a.reindexOne C hash with
    | some a => a.reindex rest
    | none => (a, false)

/-- `Archive::collect`, of the generations to take out and those that stay, each in the order the map iterates. -/
def collect (a : BlockArchive) (obsolete rest : List String) (fault : Option CollectFault) : BlockArchive × Option Nat :=
  if a.writeFailed then (a, none)
  else match fault with
    | some (.removing done renamed) =>
      let a := (obsolete.take done).foldl retire a
      let files := if renamed then ((obsolete[done]?).map a.files.erase).getD a.files else a.files
      ({ a with files := files, writeFailed := true }, none)
    | some (.indexing done) =>
      let a := obsolete.foldl retire a
      ({ ({ a with blocks := ∅ }.reindex C (rest.take done)).1 with writeFailed := true }, none)
    | none =>
      let a := obsolete.foldl retire a
      if obsolete = [] then (a, some 0)
      else match { a with blocks := ∅ }.reindex C rest with
        | (a, true) => (a, some obsolete.length)
        | (a, false) => ({ a with writeFailed := true }, none)

def read (a : BlockArchive) (b : Block) : Option (List UInt8) := (a.files.get b.hash).bind (fun f =>
    let file := match b.file with | .blob => f.1 | .manifest => f.2
    if b.offset + b.len ≤ file.length then some ((file.drop b.offset).take b.len) else none)

/-- `Archive::block`, but for what a failed read does to the archive -/
def block (a : BlockArchive) (room cid : String) : Option (List UInt8) := (a.blocks.get (room, cid)).bind a.read

end BlockArchive

/-! ## Runs -/

/-- The archive, the leases on it, and whether a collection has failed on the disk. -/
structure Depot where
  archive : BlockArchive
  leases : Multiset Lease
  torn : Bool

structure Enumerates (l : List String) (p : String → Prop) : Prop where
  nodup : l.Nodup
  mem : ∀ hash, hash ∈ l ↔ p hash

def Archive.Obsolete (a : Archive) (retained : String → Bool) (hash : String) : Prop :=
  a.entries.get hash ≠ none ∧ retained hash = false ∧ a.pins.contains hash = false

def Archive.Stays (a : Archive) (retained : String → Bool) (hash : String) : Prop :=
  a.entries.get hash ≠ none ∧ ¬ a.Obsolete retained hash

/-- A fault of a collection: of one of its generations, or if there were any to take out. -/
def CollectFault.Possible (obsolete : List String) : Option CollectFault → Prop
  | none => True
  | some (.removing done _) => done < obsolete.length
  | some (.indexing _) => obsolete ≠ []

/-- One call on the archive; what is staged is among the byte strings `D`. -/
inductive Depot.Step (cfg : Config) (D : Set (List UInt8)) (d : Depot) : Depot → Prop
  | stage (room : String) (head : Head) (blob bytes : List UInt8) (disk : Bool) : head.document ∈ D → bytes ∈ D →
      Step cfg D d { d with archive := (d.archive.stage C cfg room head blob bytes disk).1 }
  | pin (heads : List Head) (a : Archive) (lease : Lease) : d.archive.pinHeads C heads = some (a, lease) →
      Step cfg D d { d with archive := { d.archive with toArchive := a }, leases := lease ::ₘ d.leases }
  | drop (lease : Lease) (rest : Multiset Lease) : d.leases = lease ::ₘ rest →
      Step cfg D d { d with archive := { d.archive with toArchive := d.archive.release lease }, leases := rest }
  | collect (retained : String → Bool) (obsolete rest : List String) (fault : Option CollectFault) :
      Enumerates obsolete (d.archive.Obsolete retained) → Enumerates rest (d.archive.Stays retained) →
      CollectFault.Possible obsolete fault →
      Step cfg D d { d with
        archive := (d.archive.collect C obsolete rest fault).1
        torn := d.torn || (!d.archive.writeFailed && (d.archive.collect C obsolete rest fault).2.isNone) }

def Depot.Reaches (cfg : Config) (D : Set (List UInt8)) : Depot → Depot → Prop := Relation.ReflTransGen (Depot.Step C cfg D)

/-! ## Blocks of one generation -/

def generationBlocks (hash : String) (record : ArchiveRecord) (manifest : FileManifest) (manifestLen : Nat) :
    List ((String × String) × Block) :=
  record.rooms.flatMap (fun room => ((room, record.head.cid), ⟨hash, .manifest, 0, manifestLen⟩) ::
    manifest.chunks.zipIdx.map (fun c => ((room, c.1), ⟨hash, .blob, c.2 * C.chunkSize,
      min (manifest.size - c.2 * C.chunkSize) C.chunkSize⟩)))

theorem indexBlocks_eq (hash : String) (record : ArchiveRecord) (manifest : FileManifest) (manifestLen : Nat)
    (blocks : Table (String × String) Block) : indexBlocks C hash record manifest manifestLen blocks =
      insertEach (generationBlocks C hash record manifest manifestLen) blocks := by
  unfold indexBlocks generationBlocks
  induction record.rooms generalizing blocks with
  | nil => rfl
  | cons room rooms ih =>
    rw [foldl_cons, flatMap_cons, insertEach_append, ih]
    unfold indexChunks insertEach
    rw [foldl_cons, foldl_map]

variable {C}

theorem mem_generationBlocks {hash room cid : String} {record : ArchiveRecord} {manifest : FileManifest} {manifestLen : Nat}
    {b : Block} : ((room, cid), b) ∈ generationBlocks C hash record manifest manifestLen ↔
      room ∈ record.rooms ∧ ((cid = record.head.cid ∧ b = ⟨hash, .manifest, 0, manifestLen⟩) ∨ ∃ i, manifest.chunks[i]? = some cid ∧
          b = ⟨hash, .blob, i * C.chunkSize, min (manifest.size - i * C.chunkSize) C.chunkSize⟩) := by
  unfold generationBlocks
  rw [mem_flatMap]
  constructor
  · rintro ⟨r, hr, hmem⟩
    rcases mem_cons.1 hmem with he | hmem
    · cases he
      exact ⟨hr, .inl ⟨rfl, rfl⟩⟩
    · obtain ⟨⟨c, i⟩, hc, he⟩ := List.mem_map.1 hmem
      cases he
      exact ⟨hr, .inr ⟨i, mem_zipIdx_iff_getElem?.1 hc, rfl⟩⟩
  · rintro ⟨hr, ⟨rfl, rfl⟩ | ⟨i, hi, rfl⟩⟩
    · exact ⟨room, hr, mem_cons_self⟩
    · exact ⟨room, hr, mem_cons_of_mem _ (List.mem_map.2 ⟨(cid, i), mem_zipIdx_iff_getElem?.2 hi, rfl⟩)⟩

theorem mem_insertRoom_iff {room r : String} {rooms : List String} : r ∈ insertRoom room rooms ↔ r = room ∨ r ∈ rooms := by
  unfold insertRoom
  rw [mem_insertionSort, mem_append, mem_singleton, or_comm]

/-! ## What the checks of a generation say -/

section Generation

variable {head : Head} {blob bytes : List UInt8} {manifest : FileManifest}

theorem validateManifest_spec (h : validateManifest C head bytes = .ok manifest) :
    bytes.length ≤ maxManifest ∧ C.verifyCid .dagCbor head.cid bytes = true ∧ manifest.size = head.size ∧
      manifest.chunks.length = chunkCount C head.size := by
  unfold validateManifest at h
  split at h
  · cases h
  · rename_i hlimit
    split at h
    · cases h
    · split at h
      · cases h
      · rename_i hshape
        cases h
        simp only [not_or, not_lt, Bool.not_eq_false, not_not] at hlimit hshape
        refine ⟨hlimit.1.trans ?_, hlimit.2, hshape.2.1, hshape.2.2.1⟩
        exact Nat.min_le_right _ _

theorem validateGeneration_spec (h : validateGeneration C head blob bytes = .ok manifest) :
    blob.length = head.size ∧ validateManifest C head bytes = .ok manifest ∧ chunksVerify C manifest blob = true := by
  unfold validateGeneration at h
  split at h
  · cases h
  · rename_i hblob
    split at h
    · cases h
    · rename_i m hm
      split at h
      · rename_i hchunks
        cases h
        unfold validateBlob at hblob
        split at hblob
        · cases hblob
        · rename_i hsize
          rw [not_or, not_not] at hsize
          exact ⟨hsize.1, hm, hchunks⟩
      · cases h

theorem blobChunks_getElem? : ∀ (n : Nat) (blob : List UInt8) {i : Nat}, i < n →
    (blobChunks C blob n)[i]? = some ((blob.drop (i * C.chunkSize)).take C.chunkSize)
  | n + 1, blob, 0, _ => by
    rw [blobChunks, getElem?_cons_zero, Nat.zero_mul, drop_zero]
  | n + 1, blob, i + 1, h => by
    rw [blobChunks, getElem?_cons_succ, blobChunks_getElem? n _ (by omega), drop_drop, Nat.succ_mul, Nat.add_comm]

theorem chunk_offset_le {size i : Nat} (h : i < chunkCount C size) : i * C.chunkSize ≤ size := by
  unfold chunkCount at h
  cases hc : C.chunkSize with
  | zero => exact Nat.zero_le _
  | succ c =>
    rw [hc] at h
    have hmul : (i + 1) * (c + 1) ≤ size + (c + 1) - 1 := (Nat.le_div_iff_mul_le (Nat.succ_pos c)).1 h
    rw [Nat.succ_mul] at hmul
    omega

/-- **A chunk of a checked generation** is where the index says, and its identifier is the one in the manifest. -/
theorem chunk_read (h : validateGeneration C head blob bytes = .ok manifest) {i : Nat} {cid : String}
    (hi : manifest.chunks[i]? = some cid) :
    i * C.chunkSize + min (manifest.size - i * C.chunkSize) C.chunkSize ≤ blob.length ∧
      C.verifyCid .raw cid ((blob.drop (i * C.chunkSize)).take (min (manifest.size - i * C.chunkSize) C.chunkSize)) = true := by
  obtain ⟨hsize, hmanifest, hverify⟩ := validateGeneration_spec h
  obtain ⟨-, -, hmsize, hcount⟩ := validateManifest_spec hmanifest
  have hlt : i < chunkCount C head.size := by
    rw [← hcount]
    exact (List.getElem?_eq_some_iff.1 hi).1
  have hle := chunk_offset_le hlt
  rw [hmsize, ← hsize] at *
  refine ⟨by omega, ?_⟩
  have htake : (blob.drop (i * C.chunkSize)).take (min (blob.length - i * C.chunkSize) C.chunkSize)
      = (blob.drop (i * C.chunkSize)).take C.chunkSize := by
    rw [← length_drop, Nat.min_comm, ← take_take, take_length]
  rw [htake]
  unfold chunksVerify at hverify
  rw [List.all_eq_true] at hverify
  refine hverify (cid, _) (mem_of_getElem? (i := i) ?_)
  rw [getElem?_zip_eq_some]
  exact ⟨hi, blobChunks_getElem? _ blob hlt⟩

end Generation

/-! ## The index and the generations -/

namespace BlockArchive

variable (C) in
structure Kept (D : Set (List UInt8)) (a : BlockArchive) (hash : String) (e : ArchiveEntry) : Prop where
  name : e.record.head.hash C = hash
  valid : e.record.head.Valid C gib
  document : e.record.head.document ∈ D
  files : ∃ blob bytes manifest, a.files.get hash = some (blob, bytes) ∧ bytes ∈ D ∧
    validateGeneration C e.record.head blob bytes = .ok manifest

variable (C) in
def Offers (a : BlockArchive) (k : String × String) (b : Block) : Prop :=
  ∃ hash e blob bytes manifest, a.entries.get hash = some e ∧ a.files.get hash = some (blob, bytes) ∧
    validateManifest C e.record.head bytes = .ok manifest ∧ (k, b) ∈ generationBlocks C hash e.record manifest bytes.length

variable (C) in
/-- **A consistent index**: every generation is on the disk, and the blocks are those the generations offer. -/
structure Exact (D : Set (List UInt8)) (a : BlockArchive) : Prop where
  kept : ∀ hash e, a.entries.get hash = some e → a.Kept C D hash e
  sound : ∀ k b, a.blocks.get k = some b → a.Offers C k b
  whole : ∀ k b, a.Offers C k b → a.blocks.get k ≠ none

variable (C) in
/-- **The identifiers that are visible in a room**: those of the manifests and the chunks of its generations. -/
def Visible (a : BlockArchive) (room cid : String) : Prop :=
  ∃ hash e blob bytes manifest, a.entries.get hash = some e ∧ a.files.get hash = some (blob, bytes) ∧
    validateManifest C e.record.head bytes = .ok manifest ∧ room ∈ e.record.rooms ∧
    (cid = e.record.head.cid ∨ cid ∈ manifest.chunks)

variable {D : Set (List UInt8)} {a : BlockArchive}

theorem visible_iff {room cid : String} : a.Visible C room cid ↔ ∃ b, a.Offers C (room, cid) b := by
  constructor
  · rintro ⟨hash, e, blob, bytes, manifest, he, hf, hm, hr, hc⟩
    rcases hc with hc | hc
    · exact ⟨_, hash, e, blob, bytes, manifest, he, hf, hm, mem_generationBlocks.2 ⟨hr, .inl ⟨hc, rfl⟩⟩⟩
    · obtain ⟨i, hi⟩ := mem_iff_getElem?.1 hc
      exact ⟨_, hash, e, blob, bytes, manifest, he, hf, hm, mem_generationBlocks.2 ⟨hr, .inr ⟨i, hi, rfl⟩⟩⟩
  · rintro ⟨b, hash, e, blob, bytes, manifest, he, hf, hm, hb⟩
    obtain ⟨hr, ⟨hc, -⟩ | ⟨i, hi, -⟩⟩ := mem_generationBlocks.1 hb
    · exact ⟨hash, e, blob, bytes, manifest, he, hf, hm, hr, .inl hc⟩
    · exact ⟨hash, e, blob, bytes, manifest, he, hf, hm, hr, .inr (mem_of_getElem? hi)⟩

theorem Offers.read {room cid : String} {b : Block} (hk : ∀ hash e, a.entries.get hash = some e → a.Kept C D hash e)
    (h : a.Offers C (room, cid) b) : ∃ codec data, a.read b = some data ∧ C.verifyCid codec cid data = true := by
  obtain ⟨hash, e, blob, bytes, manifest, he, hf, hm, hb⟩ := h
  obtain ⟨blob', bytes', manifest', hf', -, hgen⟩ := (hk hash e he).files
  rw [hf] at hf'
  cases hf'
  obtain ⟨-, hm', -⟩ := validateGeneration_spec hgen
  rw [hm] at hm'
  cases hm'
  unfold BlockArchive.read
  obtain ⟨-, ⟨rfl, rfl⟩ | ⟨i, hi, rfl⟩⟩ := mem_generationBlocks.1 hb
  · refine ⟨.dagCbor, bytes, ?_, (validateManifest_spec hm).2.1⟩
    simp [hf]
  · obtain ⟨hle, hverify⟩ := chunk_read hgen hi
    refine ⟨.raw, _, ?_, hverify⟩
    rw [hf]
    exact if_pos hle

/-! ## Collecting -/

theorem retireAll_get : ∀ (l : List String) (a : BlockArchive) (hash : String),
    (l.foldl retire a).entries.get hash = (if hash ∈ l then none else a.entries.get hash) ∧
      (l.foldl retire a).files.get hash = (if hash ∈ l then none else a.files.get hash)
  | [], _, _ => ⟨rfl, rfl⟩
  | x :: l, a, hash => by
    obtain ⟨h1, h2⟩ := retireAll_get l (a.retire x) hash
    rw [foldl_cons, h1, h2, retire, get_erase, get_erase]
    by_cases hx : hash = x
    · subst hx
      simp
    · simp [hx]

theorem retireAll_frame : ∀ (l : List String) (a : BlockArchive), (l.foldl retire a).pins = a.pins ∧
    (l.foldl retire a).writeFailed = a.writeFailed ∧ (l.foldl retire a).blocks = a.blocks
  | [], _ => ⟨rfl, rfl, rfl⟩
  | x :: l, a => retireAll_frame l (a.retire x)

theorem retireAll_bytes : ∀ (l : List String) (a : BlockArchive), a.bytes = a.entries.total (fun _ e => e.size) →
    (l.foldl retire a).bytes = (l.foldl retire a).entries.total (fun _ e => e.size) ∧ (l.foldl retire a).bytes ≤ a.bytes
  | [], _, h => ⟨h, le_rfl⟩
  | x :: l, a, h => by
    have hx : (a.retire x).bytes = (a.retire x).entries.total (fun _ e => e.size) := by
      unfold retire
      dsimp only
      cases hg : a.entries.get x with
      | none =>
        rw [erase_of_get_none hg, ← h]
        rfl
      | some e =>
        have ht := total_erase (fun _ e => e.size) hg
        rw [map_some, getD_some]
        omega
    obtain ⟨h1, h2⟩ := retireAll_bytes l (a.retire x) hx
    exact ⟨h1, h2.trans (Nat.sub_le _ _)⟩

theorem Kept.frame {b : BlockArchive} {hash : String} {e : ArchiveEntry} (h : a.Kept C D hash e)
    (hf : b.files.get hash = a.files.get hash) : b.Kept C D hash e := by
  obtain ⟨blob, bytes, manifest, hget, hrest⟩ := h.files
  exact ⟨h.name, h.valid, h.document, blob, bytes, manifest, hf.trans hget, hrest⟩

theorem reindex_kept : ∀ (l : List String) (a : BlockArchive), (∀ hash ∈ l, ∃ e, a.entries.get hash = some e ∧ a.Kept C D hash e) →
    ∃ blocks, a.reindex C l = ({ a with blocks := blocks }, true) ∧
      (∀ k b, blocks.get k = some b → a.Offers C k b ∨ a.blocks.get k = some b) ∧
      (∀ k, a.blocks.get k ≠ none → blocks.get k ≠ none) ∧
      ∀ hash ∈ l, ∀ e blob bytes manifest k b, a.entries.get hash = some e → a.files.get hash = some (blob, bytes) →
        validateManifest C e.record.head bytes = .ok manifest →
        (k, b) ∈ generationBlocks C hash e.record manifest bytes.length → blocks.get k ≠ none
  | [], a, _ => ⟨a.blocks, rfl, fun _ _ h => .inr h, fun _ h => h, nofun⟩
  | x :: l, a, hl => by
    obtain ⟨⟨e, he, hkept⟩, hl⟩ := forall_mem_cons.1 hl
    obtain ⟨blob, bytes, manifest, hf, -, hgen⟩ := hkept.files
    obtain ⟨-, hm, -⟩ := validateGeneration_spec hgen
    have hone : a.reindexOne C x = some { a with
        blocks := insertEach (generationBlocks C x e.record manifest bytes.length) a.blocks } := by
      unfold reindexOne
      rw [he, hf]
      show (if maxManifest < bytes.length then none else _) = _
      rw [if_neg (Nat.not_lt.2 (validateManifest_spec hm).1), hm, ← indexBlocks_eq]
    obtain ⟨blocks, hre, hsound, hkeep, hwhole⟩ := reindex_kept l { a with
      blocks := insertEach (generationBlocks C x e.record manifest bytes.length) a.blocks }
      (fun hash hh => (hl hash hh).imp (fun _ h => ⟨h.1, h.2.frame rfl⟩))
    refine ⟨blocks, ?_, fun k b hb => ?_, fun k hk => hkeep k (insertEach_ne_none _ _ (.inr hk)), ?_⟩
    · rw [reindex, hone]
      exact hre
    · rcases hsound k b hb with hb | hb
      · exact .inl hb
      · rcases get_insertEach _ _ hb with hb | hb
        · exact .inl ⟨x, e, blob, bytes, manifest, he, hf, hm, hb⟩
        · exact .inr hb
    · refine forall_mem_cons.2 ⟨?_, hwhole⟩
      intro e' blob' bytes' manifest' k b he' hf' hm' hb
      rw [he] at he'
      cases he'
      rw [hf] at hf'
      cases hf'
      rw [hm] at hm'
      cases hm'
      exact hkeep k (insertEach_ne_none _ _ (.inl ⟨b, hb⟩))

/-- **An index of what stays**: the blocks of the generations left, indexed again, are those they offer. -/
theorem Exact.reindex (hk : ∀ hash e, a.entries.get hash = some e → a.Kept C D hash e) {rest : List String}
    (hrest : ∀ hash, hash ∈ rest ↔ a.entries.get hash ≠ none) :
    ∃ b, { a with blocks := ∅ }.reindex C rest = (b, true) ∧ b.Exact C D ∧ b.toArchive = a.toArchive := by
  have hall : ∀ hash ∈ rest, ∃ e, a.entries.get hash = some e ∧ { a with blocks := ∅ }.Kept C D hash e := by
    intro hash hh
    obtain ⟨e, he⟩ := ne_none_iff_exists'.1 ((hrest hash).1 hh)
    exact ⟨e, he, (hk hash e he).frame rfl⟩
  obtain ⟨blocks, hre, hsound, -, hwhole⟩ := reindex_kept rest { a with blocks := ∅ } hall
  refine ⟨_, hre, ⟨fun hash e he => (hk hash e he).frame rfl, fun k b hb => ?_, fun k b hb => ?_⟩, rfl⟩
  · rcases hsound k b hb with hb | hb
    · exact hb
    · cases hb
  · obtain ⟨hash, e, blob, bytes, manifest, he, hf, hm, hb⟩ := hb
    exact hwhole hash ((hrest hash).2 (by rw [show a.entries.get hash = some e from he]; exact nofun)) e blob bytes
      manifest k b he hf hm hb

theorem reindex_frame : ∀ (l : List String) (a : BlockArchive),
    (a.reindex C l).1.toArchive = a.toArchive ∧ (a.reindex C l).1.files = a.files
  | [], _ => ⟨rfl, rfl⟩
  | x :: l, a => by
    rw [reindex]
    cases hone : a.reindexOne C x with
    | none => exact ⟨rfl, rfl⟩
    | some b =>
      have hb : b.toArchive = a.toArchive ∧ b.files = a.files := by
        obtain ⟨e, -, hone⟩ := bind_eq_some_iff.1 hone
        obtain ⟨f, -, hone⟩ := bind_eq_some_iff.1 hone
        split at hone
        · cases hone
        · split at hone
          · cases hone
            exact ⟨rfl, rfl⟩
          · cases hone
      obtain ⟨h1, h2⟩ := reindex_frame l b
      exact ⟨h1.trans hb.1, h2.trans hb.2⟩

/-- **What a collection does to the generations**: it takes out the first of those it is to take out, and all of them if it
succeeds. -/
theorem collect_cases (a : BlockArchive) (obsolete rest : List String) (fault : Option CollectFault) :
    ∃ n, (a.collect C obsolete rest fault).1.entries = ((obsolete.take n).foldl retire a).entries ∧
      (a.collect C obsolete rest fault).1.bytes = ((obsolete.take n).foldl retire a).bytes ∧
      (a.collect C obsolete rest fault).1.pins = a.pins ∧
      ((a.collect C obsolete rest fault).2 ≠ none → a.writeFailed = false ∧ obsolete.take n = obsolete) := by
  have hpins : ∀ n, ((obsolete.take n).foldl retire a).pins = a.pins := fun n => (retireAll_frame _ a).1
  have hall : obsolete.take obsolete.length = obsolete := take_length
  unfold collect
  by_cases hw : a.writeFailed = true
  · rw [if_pos hw]
    exact ⟨0, rfl, rfl, rfl, fun h => absurd rfl h⟩
  · rw [if_neg hw]
    have hw : a.writeFailed = false := Bool.eq_false_iff.2 hw
    cases fault with
    | some fault =>
      cases fault with
      | removing done renamed => exact ⟨done, rfl, rfl, hpins done, fun h => absurd rfl h⟩
      | indexing done =>
        obtain ⟨h1, -⟩ := reindex_frame (C := C) (rest.take done) { obsolete.foldl retire a with blocks := ∅ }
        have hentries := congrArg Archive.entries h1
        have hbytes := congrArg Archive.bytes h1
        have hp := (congrArg Archive.pins h1).trans (hall ▸ hpins obsolete.length)
        refine ⟨obsolete.length, ?_⟩
        rw [hall]
        exact ⟨hentries, hbytes, hp, fun h => absurd rfl h⟩
    | none =>
      by_cases ho : obsolete = []
      · subst ho
        exact ⟨0, rfl, rfl, rfl, fun _ => ⟨hw, rfl⟩⟩
      · rw [if_neg ho]
        obtain ⟨h1, -⟩ := reindex_frame (C := C) rest { obsolete.foldl retire a with blocks := ∅ }
        refine ⟨obsolete.length, ?_⟩
        have hp := hpins obsolete.length
        rw [hall] at hp ⊢
        rcases hre : reindex C { obsolete.foldl retire a with blocks := ∅ } rest with ⟨b, _ | _⟩
        · rw [hre] at h1
          have hentries := congrArg Archive.entries h1
          have hbytes := congrArg Archive.bytes h1
          exact ⟨hentries, hbytes, (congrArg Archive.pins h1).trans hp, fun h => absurd rfl h⟩
        · rw [hre] at h1
          have hentries := congrArg Archive.entries h1
          have hbytes := congrArg Archive.bytes h1
          exact ⟨hentries, hbytes, (congrArg Archive.pins h1).trans hp, fun _ => ⟨hw, rfl⟩⟩

variable {obsolete rest : List String}

/-- **A collection without a fault** of a consistent archive succeeds, and the index is again that of what stays. -/
theorem Exact.collect (h : a.Exact C D) (hw : a.writeFailed = false) {retained : String → Bool}
    (ho : Enumerates obsolete (a.Obsolete retained)) (hr : Enumerates rest (a.Stays retained)) :
    (a.collect C obsolete rest none).1.Exact C D ∧ (a.collect C obsolete rest none).2 = some obsolete.length := by
  unfold BlockArchive.collect
  rw [if_neg (by rw [hw]; exact Bool.false_ne_true)]
  by_cases hnil : obsolete = []
  · rw [hnil]
    exact ⟨h, rfl⟩
  · rw [if_neg hnil]
    have hk : ∀ hash e, (obsolete.foldl retire a).entries.get hash = some e → (obsolete.foldl retire a).Kept C D hash e := by
      intro hash e he
      obtain ⟨h1, h2⟩ := retireAll_get obsolete a hash
      rw [h1] at he
      split at he
      · cases he
      · rename_i hmem
        rw [if_neg hmem] at h2
        exact (h.kept hash e he).frame h2
    have hrest : ∀ hash, hash ∈ rest ↔ (obsolete.foldl retire a).entries.get hash ≠ none := by
      intro hash
      rw [hr.mem, (retireAll_get obsolete a hash).1, Archive.Stays, ← ho.mem]
      by_cases hmem : hash ∈ obsolete
      · simp [hmem]
      · simp [hmem]
    obtain ⟨b, hre, hexact, -⟩ := Exact.reindex hk hrest
    rw [hre]
    exact ⟨hexact, rfl⟩

theorem collect_fault (fault : CollectFault) : (a.collect C obsolete rest (some fault)).2 = none := by
  unfold collect
  split
  · rfl
  · cases fault <;> rfl

/-! ## Staging -/

variable {cfg : Config} {room : String} {head : Head} {blob bytes : List UInt8} {disk : Bool}

def sizeOf (a : BlockArchive) (hash : String) : Nat := ((a.entries.get hash).map ArchiveEntry.size).getD 0

def roomsOf (a : BlockArchive) (hash : String) : List String := ((a.entries.get hash).map (fun e => e.record.rooms)).getD []

/-- **What staging can do**: nothing; fail to write; or add a room to a generation, which may be new. -/
theorem stage_cases (C : Crates) (a : BlockArchive) (cfg : Config) (room : String) (head : Head)
    (blob bytes : List UInt8) (disk : Bool) :
    (a.stage C cfg room head blob bytes disk).1 = a ∨
    (a.stage C cfg room head blob bytes disk).1 = { a with writeFailed := true } ∨
    ∃ manifest size, head.Valid C cfg.maxBlobBytes ∧ validateGeneration C head blob bytes = .ok manifest ∧
      a.bytes - a.sizeOf (head.hash C) + size ≤ cfg.maxTotalBytes ∧
      (a.stage C cfg room head blob bytes disk).1 = { a with
        bytes := a.bytes - a.sizeOf (head.hash C) + size
        entries := a.entries.insert (head.hash C) ⟨⟨head, insertRoom room (a.roomsOf (head.hash C))⟩, size⟩
        files := if (a.entries.get (head.hash C)).isNone then a.files.insert (head.hash C) (blob, bytes) else a.files
        blocks := insertEach (generationBlocks C (head.hash C)
          ⟨head, insertRoom room (a.roomsOf (head.hash C))⟩ manifest bytes.length) a.blocks } := by
  unfold stage
  split
  · exact .inl rfl
  split
  · exact .inl rfl
  rename_i hvalidate
  split
  · exact .inl rfl
  rename_i hverify
  split
  · exact .inl rfl
  rename_i manifest hgen
  dsimp only
  split
  · exact .inl rfl
  split
  · exact .inl rfl
  split
  · exact .inl rfl
  split
  · exact .inl rfl
  split
  · exact .inl rfl
  split
  · exact .inl rfl
  rename_i htotal
  split
  · exact .inr (.inl rfl)
  · refine .inr (.inr ⟨manifest, _, Head.valid_of_checks C hvalidate hverify, hgen, Nat.not_lt.1 htotal, ?_⟩)
    rw [indexBlocks_eq]
    rfl

theorem stage_toArchive (C : Crates) (a : BlockArchive) (cfg : Config) (room : String) (head : Head)
    (blob bytes : List UInt8) (disk : Bool) :
    (a.stage C cfg room head blob bytes disk).1.toArchive = (a.toArchive.stage C cfg room head blob bytes disk).1 ∧
      (a.stage C cfg room head blob bytes disk).2 = (a.toArchive.stage C cfg room head blob bytes disk).2 := by
  unfold stage Archive.stage
  split
  · exact ⟨rfl, rfl⟩
  cases head.validate C cfg.maxBlobBytes with
  | error e => exact ⟨rfl, rfl⟩
  | ok _ =>
  cases head.verify C with
  | error e => exact ⟨rfl, rfl⟩
  | ok _ =>
  cases validateGeneration C head blob bytes with
  | error e => exact ⟨rfl, rfl⟩
  | ok manifest =>
  dsimp only
  split
  · exact ⟨rfl, rfl⟩
  split
  · exact ⟨rfl, rfl⟩
  split
  · exact ⟨rfl, rfl⟩
  split
  · exact ⟨rfl, rfl⟩
  split
  · exact ⟨rfl, rfl⟩
  split
  · exact ⟨rfl, rfl⟩
  split <;> exact ⟨rfl, rfl⟩

/-- **A collection that succeeds does to the generations what it does without their blocks.** -/
theorem collect_toArchive (h : a.bytes = a.entries.total (fun _ e => e.size)) {retained : String → Bool}
    {fault : Option CollectFault} (ho : Enumerates obsolete (a.Obsolete retained))
    (hok : (a.collect C obsolete rest fault).2 ≠ none) : ∃ b, a.toArchive.collect retained = some b ∧
      (a.collect C obsolete rest fault).1.entries = b.entries ∧ (a.collect C obsolete rest fault).1.bytes = b.bytes ∧
      (a.collect C obsolete rest fault).1.pins = b.pins := by
  obtain ⟨n, hentries, hbytes, hpins, hdone⟩ := a.collect_cases (C := C) obsolete rest fault
  obtain ⟨hw, hall⟩ := hdone hok
  have hfilter : (obsolete.foldl retire a).entries
      = a.entries.filter (fun hash _ => !(!retained hash && !a.pins.contains hash)) := by
    ext1 hash
    rw [(retireAll_get obsolete a hash).1, Table.get_filter]
    cases hg : a.entries.get hash with
    | none => split <;> rfl
    | some e =>
      have hmem : hash ∈ obsolete ↔ retained hash = false ∧ a.pins.contains hash = false := by
        rw [ho.mem, Archive.Obsolete, hg]
        simp
      by_cases hm : hash ∈ obsolete
      · obtain ⟨h1, h2⟩ := hmem.1 hm
        rw [if_pos hm, h1, h2]
        rfl
      · rw [if_neg hm, filter_some]
        rw [hmem, not_and_or] at hm
        rcases hm with h1 | h1 <;> simp [h1]
  refine ⟨_, if_neg (by rw [hw]; exact Bool.false_ne_true), ?_, ?_, hpins⟩
  · rw [hentries, hall, hfilter]
  · have hsum := (retireAll_bytes obsolete a h).1
    have hparts := total_filter_add_not (fun _ e => ArchiveEntry.size e)
      (fun hash _ => !retained hash && !a.pins.contains hash) a.entries
    rw [hbytes, hall, hsum, hfilter]
    dsimp only
    omega

/-- The byte strings that occur have digests and identifiers of their own. -/
structure Apart (C : Crates) (D : Set (List UInt8)) : Prop where
  digest : Set.InjOn C.digest D
  cid : ∀ cid, ∀ b ∈ D, ∀ b' ∈ D, C.verifyCid .dagCbor cid b = true → C.verifyCid .dagCbor cid b' = true → b = b'

theorem Exact.stage (hD : Apart C D) (hcfg : cfg.Valid) (h : a.Exact C D) (hdoc : head.document ∈ D) (hbytes : bytes ∈ D) :
    (a.stage C cfg room head blob bytes disk).1.Exact C D := by
  rcases a.stage_cases C cfg room head blob bytes disk with hs | hs | ⟨manifest, size, hvalid, hgen, -, hs⟩
  · rw [hs]
    exact h
  · rw [hs]
    exact ⟨fun hash e he => (h.kept hash e he).frame rfl, h.sound, h.whole⟩
  · rw [hs]
    obtain ⟨-, hmanifest, -⟩ := validateGeneration_spec hgen
    have hvalid := hvalid.mono C hcfg.blob.2
    generalize hhash : head.hash C = hash at *
    have hold : ∀ e, a.entries.get hash = some e → e.record.head = head ∧
        ∃ blob', a.files.get hash = some (blob', bytes) ∧ validateGeneration C head blob' bytes = .ok manifest := by
      intro e he
      obtain ⟨hname, hvalid', hdoc', blob', bytes', manifest', hf, hb', hgen'⟩ := h.kept hash e he
      have hhead : e.record.head = head := Head.hash_inj hD.digest hvalid' hvalid hdoc' hdoc (hname.trans hhash.symm)
      rw [hhead] at hgen'
      obtain ⟨-, hmanifest', -⟩ := validateGeneration_spec hgen'
      have hb := hD.cid head.cid bytes' hb' bytes hbytes (validateManifest_spec hmanifest').2.1
        (validateManifest_spec hmanifest).2.1
      subst hb
      rw [hmanifest] at hmanifest'
      cases hmanifest'
      exact ⟨hhead, blob', hf, hgen'⟩
    have hother : ∀ x, x ≠ hash →
        (if (a.entries.get hash).isNone then a.files.insert hash (blob, bytes) else a.files).get x = a.files.get x := by
      intro x hx
      split
      · exact get_insert_ne hx _ _
      · rfl
    have hfiles : ∃ blob', (if (a.entries.get hash).isNone then a.files.insert hash (blob, bytes) else a.files).get hash
        = some (blob', bytes) ∧ validateGeneration C head blob' bytes = .ok manifest := by
      cases he : a.entries.get hash with
      | none => exact ⟨blob, by rw [isNone_none, if_pos rfl, get_insert_self], hgen⟩
      | some e => exact (hold e he).2
    refine ⟨fun x e he => ?_, fun k b hb => ?_, fun k b hb => ?_⟩
    · by_cases hx : x = hash
      · subst hx
        obtain ⟨blob', hf, hgen'⟩ := hfiles
        rw [get_insert_self] at he
        cases he
        exact ⟨hhash, hvalid, hdoc, blob', bytes, manifest, hf, hbytes, hgen'⟩
      · exact (h.kept x e (by rwa [get_insert_ne hx] at he)).frame (hother x hx)
    · rcases get_insertEach _ _ hb with hb | hb
      · obtain ⟨blob', hf, -⟩ := hfiles
        exact ⟨hash, _, blob', bytes, manifest, get_insert_self _ _ _, hf, hmanifest, hb⟩
      · obtain ⟨x, e, blob', bytes', manifest', he, hf, hm, hmem⟩ := h.sound k b hb
        by_cases hx : x = hash
        · -- an older room of the generation is among the rooms it has now
          subst hx
          obtain ⟨hhead, blob'', hf', hgen'⟩ := hold e he
          rw [hf] at hf'
          cases hf'
          rw [hhead, hmanifest] at hm
          cases hm
          obtain ⟨blob', hf, -⟩ := hfiles
          refine ⟨x, _, blob', bytes, manifest, get_insert_self _ _ _, hf, hmanifest, ?_⟩
          obtain ⟨hr, hb⟩ := mem_generationBlocks.1 hmem
          refine mem_generationBlocks.2 ⟨mem_insertRoom_iff.2 (.inr ?_), hhead ▸ hb⟩
          rw [roomsOf, he]
          exact hr
        · exact ⟨x, e, blob', bytes', manifest', (get_insert_ne hx _ _).trans he, (hother x hx).trans hf, hm, hmem⟩
    · obtain ⟨x, e, blob', bytes', manifest', he, hf, hm, hmem⟩ := hb
      refine insertEach_ne_none _ _ ?_
      by_cases hx : x = hash
      · subst hx
        obtain ⟨blob'', hf', -⟩ := hfiles
        have heq := (get_insert_self _ _ _).symm.trans he
        cases heq
        have hfeq := hf'.symm.trans hf
        cases hfeq
        have hmeq := hmanifest.symm.trans hm
        cases hmeq
        exact .inl ⟨b, hmem⟩
      · exact .inr (h.whole k b ⟨x, e, blob', bytes', manifest', (get_insert_ne hx _ _).symm.trans he,
          (hother x hx).symm.trans hf, hm, hmem⟩)

theorem stage_bytes (C : Crates) (cfg : Config) (room : String) (head : Head) (blob bytes : List UInt8) (disk : Bool)
    (h : a.bytes = a.entries.total (fun _ e => e.size)) (hle : a.bytes ≤ cfg.maxTotalBytes) :
    (a.stage C cfg room head blob bytes disk).1.bytes
        = (a.stage C cfg room head blob bytes disk).1.entries.total (fun _ e => e.size) ∧
      (a.stage C cfg room head blob bytes disk).1.bytes ≤ cfg.maxTotalBytes ∧
      (a.stage C cfg room head blob bytes disk).1.pins = a.pins := by
  rcases a.stage_cases C cfg room head blob bytes disk with hs | hs | ⟨manifest, size, -, -, htotal, hs⟩
  · rw [hs]
    exact ⟨h, hle, rfl⟩
  · rw [hs]
    exact ⟨h, hle, rfl⟩
  · rw [hs]
    refine ⟨?_, htotal, rfl⟩
    rw [sizeOf]
    cases hg : a.entries.get (head.hash C) with
    | none =>
      rw [total_insert _ hg]
      simp only [map_none, getD_none]
      omega
    | some e =>
      have hreplace := total_replace (fun _ e => ArchiveEntry.size e) hg
        ⟨⟨head, insertRoom room (a.roomsOf (head.hash C))⟩, size⟩
      have hat := Table.le_total (fun _ e => ArchiveEntry.size e) hg
      rw [map_some, getD_some]
      dsimp only at hreplace hat ⊢
      omega

end BlockArchive

/-! ## Runs -/

namespace Depot

variable {cfg : Config} {D : Set (List UInt8)} {d d' : Depot}

/-- **A consistent archive**, with the leases on it. -/
structure Consistent (C : Crates) (cfg : Config) (D : Set (List UInt8)) (d : Depot) : Prop where
  pinned : Pinned d.leases d.archive.pins
  bytes : d.archive.bytes = d.archive.entries.total (fun _ e => e.size)
  bound : d.archive.bytes ≤ cfg.maxTotalBytes
  exact : d.torn = false → d.archive.Exact C D

theorem exact_of_pins {a : BlockArchive} (h : a.Exact C D) (pins : Table String Nat) :
    ({ a with toArchive := { a.toArchive with pins := pins } } : BlockArchive).Exact C D :=
  ⟨fun hash e he => (h.kept hash e he).frame rfl, h.sound, h.whole⟩

theorem Consistent.step (hD : BlockArchive.Apart C D) (hcfg : cfg.Valid) (h : d.Consistent C cfg D)
    (hs : Step C cfg D d d') : d'.Consistent C cfg D := by
  cases hs with
  | stage room head blob bytes disk hdoc hbytes =>
    obtain ⟨h1, h2, h3⟩ := BlockArchive.stage_bytes C cfg room head blob bytes disk h.bytes h.bound
    exact ⟨by rw [h3]; exact h.pinned, h1, h2, fun ht => (h.exact ht).stage hD hcfg hdoc hbytes⟩
  | pin heads a lease hp =>
    obtain ⟨-, rfl⟩ := Archive.pinHeads_some hp
    exact ⟨h.pinned.pin lease, h.bytes, h.bound, fun ht => exact_of_pins (h.exact ht) _⟩
  | drop lease rest hl =>
    have hpinned := h.pinned
    rw [hl] at hpinned
    exact ⟨hpinned.release, h.bytes, h.bound, fun ht => exact_of_pins (h.exact ht) _⟩
  | collect retained obsolete rest fault ho hr hf =>
    obtain ⟨n, hentries, hbytes, hpins, hok⟩ := d.archive.collect_cases (C := C) obsolete rest fault
    obtain ⟨h1, h2⟩ := BlockArchive.retireAll_bytes (obsolete.take n) d.archive h.bytes
    refine ⟨by rw [hpins]; exact h.pinned, by rw [hbytes, hentries]; exact h1, by rw [hbytes]; exact h2.trans h.bound, fun ht => ?_⟩
    rw [Bool.or_eq_false_iff] at ht
    obtain ⟨ht, hfail⟩ := ht
    cases hw : d.archive.writeFailed with
    | true =>
      unfold BlockArchive.collect
      rw [if_pos hw]
      exact h.exact ht
    | false =>
      cases fault with
      | none => exact ((h.exact ht).collect hw ho hr).1
      | some fault =>
        rw [hw, BlockArchive.collect_fault] at hfail
        rcases hfail with ⟨⟩ | ⟨⟩

theorem Reaches.consistent (hD : BlockArchive.Apart C D) (hcfg : cfg.Valid) (h : d.Consistent C cfg D)
    (hr : Reaches C cfg D d d') : d'.Consistent C cfg D := by
  induction hr with
  | refl => exact h
  | tail _ hstep ih => exact ih.step hD hcfg hstep

/-- **The invariant of the archive.**  In every run of calls, staging and collecting failing on the disk or not: the
pins of a generation are its live leases, a collection takes out all that is neither retained nor pinned if it
succeeds, the bytes are the sum of the sizes and within the limit, and while no collection has failed the index has
what is visible in a room. -/
theorem archive_invariant (C : Crates) (cfg : Config) (hcfg : cfg.Valid) (D : Set (List UInt8))
    (hD : BlockArchive.Apart C D) (d d' : Depot) (h : d.Consistent C cfg D) (hr : Reaches C cfg D d d') :
    ((∀ hash, (d'.archive.pins.get hash).getD 0 = pinCount d'.leases hash) ∧
      ∀ lease ∈ d'.leases, ∀ hash ∈ lease.hashes, d'.archive.pins.contains hash = true ∧ d'.archive.pins.get hash ≠ some 0) ∧
    (∀ retained obsolete rest fault, Enumerates obsolete (d'.archive.Obsolete retained) → Enumerates rest (d'.archive.Stays retained) →
      (∀ hash e, d'.archive.entries.get hash = some e → retained hash = true ∨ d'.archive.pins.contains hash = true →
        (d'.archive.collect C obsolete rest fault).1.entries.get hash = some e) ∧
      ((d'.archive.collect C obsolete rest fault).2 ≠ none → ∀ hash,
        (d'.archive.collect C obsolete rest fault).1.entries.get hash ≠ none →
          retained hash = true ∨ d'.archive.pins.contains hash = true) ∧
      (d'.torn = false → d'.archive.writeFailed = false → fault = none →
        (d'.archive.collect C obsolete rest fault).2 = some obsolete.length)) ∧
    (d'.archive.bytes = d'.archive.entries.total (fun _ e => e.size) ∧ d'.archive.bytes ≤ cfg.maxTotalBytes) ∧
    (d'.torn = false → (∀ room cid, d'.archive.blocks.contains (room, cid) = true ↔ d'.archive.Visible C room cid) ∧
      ∀ room cid b, d'.archive.blocks.get (room, cid) = some b →
        ∃ codec data, d'.archive.read b = some data ∧ C.verifyCid codec cid data = true) := by
  have h' := hr.consistent hD hcfg h
  refine ⟨⟨h'.pinned.count, fun lease hl hash hh => ⟨h'.pinned.contains hl hh, h'.pinned.positive hash⟩⟩,
    fun retained obsolete rest fault ho hrest => ⟨fun hash e he hkeep => ?_, fun hok hash hne => ?_, ?_⟩,
    ⟨h'.bytes, h'.bound⟩, fun ht => ⟨fun room cid => ?_, fun room cid b hb => ?_⟩⟩
  · obtain ⟨n, hentries, -, -, -⟩ := d'.archive.collect_cases (C := C) obsolete rest fault
    have hmem : hash ∉ obsolete.take n := by
      intro hm
      obtain ⟨-, h1, h2⟩ := (ho.mem hash).1 (mem_of_mem_take hm)
      rcases hkeep with hk | hk
      · rw [h1] at hk
        cases hk
      · rw [h2] at hk
        cases hk
    rw [hentries, (BlockArchive.retireAll_get _ _ _).1, if_neg hmem]
    exact he
  · obtain ⟨n, hentries, -, -, hdone⟩ := d'.archive.collect_cases (C := C) obsolete rest fault
    obtain ⟨-, hall⟩ := hdone hok
    rw [hentries, hall, (BlockArchive.retireAll_get _ _ _).1] at hne
    split at hne
    · exact absurd rfl hne
    · rename_i hmem
      by_contra hkeep
      rw [not_or, Bool.not_eq_true, Bool.not_eq_true] at hkeep
      exact hmem ((ho.mem hash).2 ⟨hne, hkeep.1, hkeep.2⟩)
  · rintro ht hw rfl
    exact ((h'.exact ht).collect hw ho hrest).2
  · rw [Table.contains_iff, BlockArchive.visible_iff]
    constructor
    · rintro ⟨b, hb⟩
      exact ⟨b, (h'.exact ht).sound _ b hb⟩
    · rintro ⟨b, hb⟩
      exact ne_none_iff_exists'.1 ((h'.exact ht).whole _ b hb)
  · exact ((h'.exact ht).sound _ b hb).read (h'.exact ht).kept

def blockCrates : Crates := { noteCrates with verifyCid := fun codec _ bytes => codec == .raw || bytes == noteManifest }

def bare : Depot := ⟨⟨⟨∅, 0, false, ∅⟩, ∅, ∅⟩, 0, false⟩

def stocked : Depot := { bare with archive := (bare.archive.stage blockCrates .default "notes" noteHead noteBlob noteManifest true).1 }

def noteBytes : Set (List UInt8) := {noteHead.document, noteManifest}

theorem bare_consistent : bare.Consistent blockCrates .default noteBytes where
  pinned := ⟨fun _ => rfl, fun _ => nofun⟩
  bytes := rfl
  bound := Nat.zero_le _
  exact := fun _ => ⟨nofun, nofun, fun k b ⟨_, _, _, _, _, he, _⟩ => by cases he⟩

theorem stocked_reached : Reaches blockCrates .default noteBytes bare stocked :=
  .single (.stage "notes" noteHead noteBlob noteManifest true (.inl rfl) (.inr rfl))

/-- **A collection that fails** when it has renamed the directory: the generation is not taken out, and its blocks are not
where the index says. -/
theorem failed_collect : Reaches blockCrates .default noteBytes bare stocked ∧
    stocked.archive.entries.keys = {noteHash} ∧ stocked.archive.pins.contains noteHash = false ∧
    let d := (stocked.archive.collect blockCrates [noteHash] [] (some (.removing 0 true))).1
    d.entries.contains noteHash = true ∧ d.blocks.contains ("notes", noteHead.cid) = true ∧ d.block "notes" noteHead.cid = none :=
  ⟨stocked_reached, by decide +kernel, by decide +kernel, by decide +kernel⟩

theorem archive_invariant_note : stocked.archive.Visible blockCrates "notes" noteHead.cid ∧
    stocked.archive.bytes = stocked.archive.entries.total (fun _ e => e.size) := by
  have hapart : BlockArchive.Apart blockCrates noteBytes := by
    have hne : blockCrates.digest noteHead.document ≠ blockCrates.digest noteManifest := by decide +kernel
    refine ⟨?_, fun cid b hb b' hb' h h' => (beq_iff_eq.1 h).trans (beq_iff_eq.1 h').symm⟩
    rintro x (rfl | rfl) y (rfl | rfl) he
    · rfl
    · exact absurd he hne
    · exact absurd he.symm hne
    · rfl
  obtain ⟨-, -, hbytes, hindex⟩ := archive_invariant blockCrates .default Config.Valid.default noteBytes hapart bare stocked
    bare_consistent stocked_reached
  exact ⟨((hindex rfl).1 "notes" noteHead.cid).1 (by decide +kernel), hbytes.1⟩

end Depot

end Mistl.Escrow
