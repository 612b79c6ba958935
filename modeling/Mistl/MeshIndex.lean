import Mathlib.Data.Finset.Sort
import Mathlib.Data.Set.Function
import Mistl.Lib.Lines
import Mistl.Lib.Paging
import Mistl.MeshPlan
import Mistl.WiresignCanon
/-!
# MeshIndex — a provider's picture of another's index

`digests`, `Mesh::handle` on `hello`, `index_req` and `index`, and the paging of `Mesh::tick`.  A `Link` is one provider, what
another keeps of it and every message ever sent between the two, which may arrive at any time, again or never.
-/
open List Mistl.Table Mistl.Json Option

namespace Mistl.Mesh

open Escrow (Head Delete hexString hex_ne)

variable (C : Crates)

/-! ## The index of a provider -/

/-- The slots of a room's records, as `mesh_records` lists them. -/
structure Listing (records : List MeshRecord) : Prop where
  sorted : Paging.Ascending (fun r : MeshRecord => r.head.slot) records
  slots : ∀ r ∈ records, hexString r.head.slot 32 = true

def index (records : List MeshRecord) : List Entry := records.map (MeshRecord.entry C)

def Entry.line (e : Entry) : List Char :=
  e.slot.toList ++ ':' :: (Nat.toDigits 10 e.seq ++ ':' :: (e.kind.toList ++ ':' :: (e.hash.toList ++ ['\n'])))

/-- What the first digest of `digests` is of. -/
def metadata (records : List MeshRecord) : List UInt8 := utf8 ((index C records).flatMap Entry.line)

/-- What the second digest of `digests` is of. -/
def holdings (records : List MeshRecord) : List UInt8 := utf8 (((index C records).filter Entry.held).flatMap Entry.line)

def digests (records : List MeshRecord) : String × String := (C.digest (metadata C records), C.digest (holdings C records))

def contents (entries : List Entry) : Table String Entry := insertAll Entry.slot entries ∅

/-! ## Messages -/

/-- A `hello`, by the records it was made from. -/
structure Hello where
  records : List MeshRecord
  free : Nat
  deriving DecidableEq

/-- An `index`, by the records it was cut from and the cursor of the request it answers. -/
structure Answer where
  records : List MeshRecord
  cursor : Option String
  deriving DecidableEq

structure Page where
  entries : List Entry
  next : Option String

/-- `handle` on `index_req` -/
def Answer.page (a : Answer) : Page :=
  let entries := ((a.records.filter (fun r => decide (a.cursor.getD "" < r.head.slot))).take 64).map (MeshRecord.entry C)
  ⟨entries, (entries.getLast?.filter (fun last => a.records.any (fun r => decide (last.slot < r.head.slot)))).map
    Entry.slot⟩

/-! ## What is kept of a peer -/

namespace Peer

def new (did : String) (now : Nat) : Peer := ⟨did, now, 0, ∅, "", "", false, none, 0, ∅⟩

def restart (p : Peer) (digest held : String) (now : Nat) : Peer := ⟨p.did, p.seen, p.free, ∅, digest, held, true, none, now, ∅⟩

def wantsIndex (p : Peer) (isNew : Bool) (digest held localDigest : String) (now : Nat) : Bool :=
  !p.syncing && (isNew || digest != p.digest || held != p.heldDigest
    || (digest != localDigest && decide (p.pending = ∅) && decide (60000 < now - p.requested)))

/-- `handle` on `hello`: the peer, and whether its index is requested. -/
def onHello (known : Option Peer) (did : String) (free : Nat) (digest held localDigest : String) (now : Nat) : Peer × Bool :=
  let peer := { known.getD (new did now) with seen := now, free := free }
  let request := peer.wantsIndex known.isNone digest held localDigest now
  (if request then peer.restart digest held now else peer, request)

/-- Whether `handle` takes an `index` in. -/
def accepts (p : Peer) (maxSlots : Nat) (page : Page) : Bool :=
  p.syncing && !(page.entries.head?.any (fun e => p.after.any (fun a => decide (e.slot ≤ a))))
    && !decide (maxSlots < p.entries.size + page.entries.length)

def addPending (locals : Table String Entry) (maxSlots : Nat) (pending : Finset String) (e : Entry) : Finset String :=
  if needsHead (locals.get e.slot) e && decide (pending.card < maxSlots) then insert e.slot pending else pending

/-- `handle` on `index` -/
def onIndex (p : Peer) (maxSlots : Nat) (locals : Table String Entry) (page : Page) (now : Nat) : Peer :=
  if p.accepts maxSlots page then
    ⟨p.did, p.seen, p.free, insertAll Entry.slot page.entries p.entries, p.digest, p.heldDigest, page.next.isSome,
      page.next, if page.next.isSome then 0 else now, page.entries.foldl (addPending locals maxSlots) p.pending⟩
  else p

/-- The paging of `tick`: whether the next page is requested. -/
def wantsPage (p : Peer) (now : Nat) : Bool := p.syncing && (p.requested == 0 || decide (30000 < now - p.requested))

/-- The slots `request_heads` takes. -/
def headsToRequest (p : Peer) : List String := (p.pending.sort (· ≤ ·)).take 8

def requestHeads (p : Peer) : Peer := { p with pending := p.pending \ p.headsToRequest.toFinset }

end Peer

/-! ## Two providers -/

/-- A provider's records, what another keeps of it, and what was ever sent between them. -/
structure Link where
  records : List MeshRecord
  peer : Option Peer
  hellos : List Hello
  requests : List (Option String)
  answers : List Answer

inductive Event where
  | change (records : List MeshRecord)
  | hello (free : Nat)
  | hear (hello : Hello) (did localDigest : String) (now : Nat)
  | tick (now : Nat)
  | answer (cursor : Option String)
  | index (answer : Answer) (locals : Table String Entry) (now : Nat)
  | heads
  | forget

namespace Link

def start (records : List MeshRecord) : Link := ⟨records, none, [], [], []⟩

def step (maxSlots : Nat) (s : Link) : Event → Option Link
  | .change records => some { s with records := records }
  | .hello free => some { s with hellos := ⟨s.records, free⟩ :: s.hellos }
  | .hear h did localDigest now =>
    if h ∈ s.hellos then
      let (digest, held) := digests C h.records
      let (peer, request) := Peer.onHello s.peer did h.free digest held localDigest now
      some { s with peer := some peer, requests := if request then none :: s.requests else s.requests }
    else none
  | .tick now => s.peer.map (fun p =>
    if p.wantsPage now then { s with peer := some { p with requested := now }, requests := p.after :: s.requests } else s)
  | .answer cursor => if cursor ∈ s.requests then some { s with answers := ⟨s.records, cursor⟩ :: s.answers } else none
  | .index a locals now =>
    if a ∈ s.answers then s.peer.map (fun p => { s with peer := some (p.onIndex maxSlots locals (a.page C) now) }) else none
  | .heads => s.peer.map (fun p => { s with peer := some p.requestHeads })
  | .forget => some { s with peer := none }

/-- The links that are reached by events that meet `ok`, the provider's records being among `K`. -/
inductive Runs (maxSlots : Nat) (K : Set (List MeshRecord)) (ok : Link → Event → Prop) : Link → Prop
  | start {records : List MeshRecord} : records ∈ K → Runs maxSlots K ok (Link.start records)
  | step {s s' : Link} {e : Event} : Runs maxSlots K ok s → ok s e → s.step C maxSlots e = some s' → s'.records ∈ K →
    Runs maxSlots K ok s'

/-- A page that is taken in was cut from records with the digests the sync was started for, and for a cursor that is not
past the reader's. -/
def Timely (maxSlots : Nat) (s : Link) : Event → Prop
  | .index a _ _ => ∀ p ∈ s.peer, p.accepts maxSlots (a.page C) = true →
    digests C a.records = (p.digest, p.heldDigest) ∧ a.cursor.getD "" ≤ p.after.getD ""
  | _ => True

instance (maxSlots : Nat) (s : Link) : ∀ e, Decidable (s.Timely C maxSlots e)
  | .index a _ _ => inferInstanceAs (Decidable (∀ p ∈ s.peer, p.accepts maxSlots (a.page C) = true →
    digests C a.records = (p.digest, p.heldDigest) ∧ a.cursor.getD "" ≤ p.after.getD ""))
  | .change _ | .hello _ | .hear _ _ _ _ | .tick _ | .answer _ | .heads | .forget => inferInstanceAs (Decidable True)

end Link

/-! ## Digests -/

variable {C}

/-- An entry whose line is read back from a text that it begins. -/
structure Entry.Plain (e : Entry) : Prop where
  slot : ':' ∉ e.slot.toList
  kind : ':' ∉ e.kind.toList
  hash : '\n' ∉ e.hash.toList

variable {records : List MeshRecord}

theorem index_plain (hhex : ∀ bytes, hexString (C.digest bytes) 64 = true)
    (h : Listing records) : ∀ e ∈ index C records, e.Plain := by
  intro e he
  obtain ⟨r, hr, rfl⟩ := List.mem_map.1 he
  refine ⟨hex_ne (h.slots r hr) rfl, ?_, ?_⟩
  · simp only [MeshRecord.entry]
    split <;> decide
  · simp only [MeshRecord.entry]
    split
    · exact hex_ne (hhex _) rfl
    · exact hex_ne (hhex _) rfl

theorem colon_notMem_toDigits (n : Nat) : ':' ∉ Nat.toDigits 10 n := fun h => absurd (isDigit_toDigits n ':' h) (by decide)

def Entry.metadata (e : Entry) : String × Nat × String × String := (e.slot, e.seq, e.kind, e.hash)

theorem line_inj {e f : Entry} (he : e.Plain) (hf : f.Plain) {s t : List Char} (h : e.line ++ s = f.line ++ t) :
    e.metadata = f.metadata ∧ s = t := by
  simp only [Entry.line, append_assoc, cons_append] at h
  obtain ⟨hslot, h⟩ := Lines.cut_inj he.slot hf.slot h
  obtain ⟨hseq, h⟩ := Lines.cut_inj (colon_notMem_toDigits _) (colon_notMem_toDigits _) h
  obtain ⟨hkind, h⟩ := Lines.cut_inj he.kind hf.kind h
  obtain ⟨hhash, h⟩ := Lines.cut_inj he.hash hf.hash h
  refine ⟨?_, h⟩
  have hnum : e.seq = f.seq := by
    have := congrArg (fun l => Nat.ofDigitChars 10 l 0) hseq
    simpa only [Nat.ofDigitChars_ten_toDigits] using this
  rw [Entry.metadata, Entry.metadata, String.toList_inj.1 hslot, hnum, String.toList_inj.1 hkind, String.toList_inj.1 hhash]

theorem lines_inj : ∀ {l m : List Entry}, (∀ e ∈ l, e.Plain) → (∀ e ∈ m, e.Plain) →
    l.flatMap Entry.line = m.flatMap Entry.line → l.map Entry.metadata = m.map Entry.metadata
  | [], [], _, _, _ => rfl
  | [], f :: m, _, _, h | e :: l, [], _, _, h => by simp [Entry.line] at h
  | e :: l, f :: m, hl, hm, h => by
    obtain ⟨he, hrest⟩ := line_inj (hl e mem_cons_self) (hm f mem_cons_self) h
    rw [map_cons, map_cons, he, lines_inj (fun x hx => hl x (mem_cons_of_mem _ hx))
      (fun x hx => hm x (mem_cons_of_mem _ hx)) hrest]

theorem entries_ext : ∀ {l m : List Entry}, Paging.Ascending Entry.slot l → Paging.Ascending Entry.slot m →
    l.map Entry.metadata = m.map Entry.metadata →
    (l.filter Entry.held).map Entry.metadata = (m.filter Entry.held).map Entry.metadata → l = m
  | [], [], _, _, _, _ => rfl
  | [], _ :: _, _, _, h, _ | _ :: _, [], _, _, h, _ => by cases h
  | e :: l, f :: m, hl, hm, h, hheld => by
    rw [map_cons, map_cons, cons.injEq] at h
    obtain ⟨hslot, hseq, hkind, hhash⟩ : e.slot = f.slot ∧ e.seq = f.seq ∧ e.kind = f.kind ∧ e.hash = f.hash := by
      simpa only [Entry.metadata, Prod.mk.injEq] using h.1
    -- the first line is among the held ones exactly where the entry is held, all others being of larger slots
    have hfirst : ∀ {a b : Entry} {x y : List Entry}, a.slot = b.slot → Paging.Ascending Entry.slot (b :: y) →
        ((a :: x).filter Entry.held).map Entry.metadata = ((b :: y).filter Entry.held).map Entry.metadata →
        a.held = true → b.held = true := by
      intro a b x y hs hy heq ha
      by_contra hb
      rw [filter_cons_of_pos ha, filter_cons_of_neg hb] at heq
      have hmem : a.metadata ∈ (y.filter Entry.held).map Entry.metadata := by rw [← heq]; exact mem_cons_self
      obtain ⟨c, hc, hca⟩ := List.mem_map.1 hmem
      have hlt := (pairwise_cons.1 hy).1 c (mem_filter.1 hc).1
      rw [← hs, ← (Prod.mk.inj hca).1] at hlt
      exact lt_irrefl _ hlt
    have hsame : e.held = f.held := Bool.eq_iff_iff.2 ⟨hfirst hslot hm hheld, hfirst hslot.symm hl hheld.symm⟩
    have hrest : (l.filter Entry.held).map Entry.metadata = (m.filter Entry.held).map Entry.metadata := by
      cases hh : f.held with
      | true =>
        rw [filter_cons_of_pos (hsame.trans hh), filter_cons_of_pos hh] at hheld
        exact (cons.inj hheld).2
      | false => rwa [filter_cons_of_neg (by rw [hsame, hh]; nofun), filter_cons_of_neg (by rw [hh]; nofun)] at hheld
    rw [entries_ext (pairwise_cons.1 hl).2 (pairwise_cons.1 hm).2 h.2 hrest, cons.injEq]
    refine ⟨?_, rfl⟩
    cases e
    simp_all

theorem index_ascending (h : Listing records) : Paging.Ascending Entry.slot (index C records) := pairwise_map.2 h.sorted

theorem digests_inj {D : Set (List UInt8)} (hD : Set.InjOn C.digest D)
    (hhex : ∀ bytes, hexString (C.digest bytes) 64 = true) {a b : List MeshRecord} (ha : Listing a) (hb : Listing b)
    (hma : metadata C a ∈ D) (hha : holdings C a ∈ D) (hmb : metadata C b ∈ D) (hhb : holdings C b ∈ D)
    (h : digests C a = digests C b) : index C a = index C b := by
  obtain ⟨hmeta, hhold⟩ := Prod.mk.inj h
  have hpa := index_plain hhex ha
  have hpb := index_plain hhex hb
  refine entries_ext (index_ascending ha) (index_ascending hb) ?_ ?_
  · exact lines_inj hpa hpb (Wiresign.utf8_inj (hD hma hmb hmeta))
  · exact lines_inj (fun e he => hpa e (mem_filter.1 he).1) (fun e he => hpb e (mem_filter.1 he).1)
      (Wiresign.utf8_inj (hD hha hhb hhold))

/-! ## A sync -/

theorem Answer.page_entries (a : Answer) : (a.page C).entries = Paging.page Entry.slot 64 (a.cursor.getD "") (index C a.records) := by
  rw [Paging.page, index, List.filter_map, ← map_take]
  rfl

theorem Answer.page_next (a : Answer) : (a.page C).next = Paging.next Entry.slot (index C a.records) (a.page C).entries := by
  rw [Paging.next, index]
  simp only [List.any_map]
  rfl

theorem not_lt_empty (s : String) : ¬ s < "" := fun h => not_lt_nil _ (String.lt_iff_toList_lt.1 h)

theorem slot_pos {slot : String} (h : hexString slot 32 = true) : "" < slot := by
  refine lt_of_le_of_ne (not_lt.1 (not_lt_empty slot)) (fun he => ?_)
  subst he
  cases h

def Partial (p : Peer) (entries : List Entry) : Prop :=
  ∃ done rest, entries = done ++ rest ∧ p.entries = contents done ∧ p.after = done.getLast?.map Entry.slot

theorem contents_append (a b : List Entry) : contents (a ++ b) = insertAll Entry.slot b (contents a) := foldl_append

theorem cursor_of_accepts {p : Peer} {maxSlots : Nat} {a : Answer} (h : Listing a.records)
    (hp : Partial p (index C a.records)) (hacc : p.accepts maxSlots (a.page C) = true)
    (hle : a.cursor.getD "" ≤ p.after.getD "") : a.cursor.getD "" = p.after.getD "" := by
  obtain ⟨done, rest, hsplit, -, hafter⟩ := hp
  by_contra hne
  have hlt := lt_of_le_of_ne hle hne
  cases hlast : done.getLast? with
  | none =>
    rw [hafter, hlast] at hlt
    exact absurd hlt (not_lt_empty _)
  | some last =>
    rw [hlast, map_some] at hafter
    rw [hafter] at hlt
    have hmem : last ∈ index C a.records := by
      rw [hsplit]
      exact mem_append_left _ (mem_of_getLast? hlast)
    obtain ⟨y, hy, hyle⟩ := Paging.page_head_le (index_ascending h) (by decide : 0 < 64) hmem hlt
    rw [← Answer.page_entries] at hy
    simp only [Peer.accepts, Bool.and_eq_true, Bool.not_eq_true', hy, hafter, any_some, decide_eq_false_iff_not] at hacc
    exact hacc.1.2 hyle

/-- **A page for the cursor of a sync takes it on**: to the entries up to the page's cursor, or to the whole index. -/
theorem Partial.onIndex {p : Peer} {maxSlots : Nat} {locals : Table String Entry} {now : Nat} {a : Answer}
    (h : Listing a.records) (hp : Partial p (index C a.records)) (hacc : p.accepts maxSlots (a.page C) = true)
    (hcursor : a.cursor.getD "" = p.after.getD "") :
    (p.onIndex maxSlots locals (a.page C) now).syncing = true ∧ Partial (p.onIndex maxSlots locals (a.page C) now) (index C a.records) ∨
      (p.onIndex maxSlots locals (a.page C) now).syncing = false ∧
        (p.onIndex maxSlots locals (a.page C) now).entries = contents (index C a.records) := by
  obtain ⟨done, rest, hsplit, hentries, hafter⟩ := hp
  have hasc := index_ascending (C := C) h
  rw [hsplit] at hasc
  have hpage : (a.page C).entries = rest.take 64 := by
    rw [Answer.page_entries, hsplit, hcursor, hafter]
    cases hlast : done.getLast? with
    | none =>
      rw [getLast?_eq_none_iff.1 hlast] at hasc hsplit ⊢
      refine Paging.page_split (by intro x hx; cases hx) (fun x hx => ?_)
      obtain ⟨r, hr, rfl⟩ := List.mem_map.1 (show x ∈ index C a.records by rw [hsplit]; exact hx)
      exact slot_pos (h.slots r hr)
    | some last =>
      obtain ⟨h1, h2⟩ := hasc.split hlast
      exact Paging.page_split h1 h2
  have hnew : (p.onIndex maxSlots locals (a.page C) now).entries = contents (done ++ rest.take 64) := by
    rw [Peer.onIndex, if_pos hacc, contents_append, ← hentries, hpage]
  have hsync : (p.onIndex maxSlots locals (a.page C) now).syncing = (a.page C).next.isSome := by
    rw [Peer.onIndex, if_pos hacc]
  have hnext : (p.onIndex maxSlots locals (a.page C) now).after = (a.page C).next := by
    rw [Peer.onIndex, if_pos hacc]
  have hwhole : done ++ rest.take 64 ++ rest.drop 64 = index C a.records := by
    rw [append_assoc, take_append_drop, hsplit]
  cases hlast : (rest.take 64).getLast? with
  | none =>
    have hnil : rest = [] := by
      have := getLast?_eq_none_iff.1 hlast
      simpa using this
    have hn : (a.page C).next = none := by rw [Answer.page_next, hpage, Paging.next, hlast]; rfl
    refine .inr ⟨by rw [hsync, hn]; rfl, ?_⟩
    rw [hnew, hsplit, hnil, take_nil]
  | some last =>
    have hlast' : (done ++ rest.take 64).getLast? = some last := by rw [getLast?_append, hlast]; rfl
    have hn := Paging.next_split (by rw [hwhole]; exact index_ascending h) hlast' hlast
    rw [hwhole, ← hpage, ← Answer.page_next] at hn
    split at hn
    · rename_i hdone
      refine .inr ⟨by rw [hsync, hn]; rfl, ?_⟩
      rw [hnew, ← hwhole, hdone, append_nil]
    · refine .inl ⟨by rw [hsync, hn]; rfl, done ++ rest.take 64, rest.drop 64, hwhole.symm, hnew, ?_⟩
      rw [hnext, hn, hlast', map_some]

/-! ## Runs -/

/-- What a peer's entries are: those of records with its digests, up to the cursor of a running sync. -/
def Tracks (C : Crates) (K : Set (List MeshRecord)) (p : Peer) : Prop := ∃ records ∈ K, digests C records = (p.digest, p.heldDigest) ∧
    (p.syncing = true ∧ Partial p (index C records) ∨ p.syncing = false ∧ p.entries = contents (index C records))

structure Link.Inv (C : Crates) (K : Set (List MeshRecord)) (s : Link) : Prop where
  records : s.records ∈ K
  hellos : ∀ h ∈ s.hellos, h.records ∈ K
  answers : ∀ a ∈ s.answers, a.records ∈ K
  peer : ∀ p, s.peer = some p → Tracks C K p

section runs

variable {D : Set (List UInt8)} {K : Set (List MeshRecord)} {maxSlots : Nat}

theorem Tracks.onHello {known : Option Peer} (hknown : ∀ p, known = some p → Tracks C K p)
    (hrecords : records ∈ K) (did : String) (free : Nat) (localDigest : String) (now : Nat) :
    Tracks C K (Peer.onHello known did free (digests C records).1 (digests C records).2 localDigest now).1 := by
  unfold Peer.onHello
  simp only
  split
  · exact ⟨records, hrecords, rfl, .inl ⟨rfl, [], index C records, rfl, rfl, rfl⟩⟩
  · rename_i hrequest
    cases known with
    | none => exact absurd rfl hrequest
    | some p => exact hknown p rfl

section

variable (hK : ∀ records ∈ K, Listing records)

include hK

theorem Tracks.onIndex (hsame : ∀ a ∈ K, ∀ b ∈ K, digests C a = digests C b →
    index C a = index C b) {p : Peer} (hp : Tracks C K p) {a : Answer} (ha : a.records ∈ K)
    (htimely : p.accepts maxSlots (a.page C) = true →
      digests C a.records = (p.digest, p.heldDigest) ∧ a.cursor.getD "" ≤ p.after.getD "")
    (locals : Table String Entry) (now : Nat) : Tracks C K (p.onIndex maxSlots locals (a.page C) now) := by
  by_cases hacc : p.accepts maxSlots (a.page C) = true
  · obtain ⟨hdigests, hle⟩ := htimely hacc
    obtain ⟨records, hrecords, hd, hcase⟩ := hp
    have hsync : p.syncing = true := by
      simp only [Peer.accepts, Bool.and_eq_true] at hacc
      exact hacc.1.1
    rcases hcase with ⟨-, hpart⟩ | ⟨hidle, -⟩
    · rw [hsame records hrecords a.records ha (hd.trans hdigests.symm)] at hpart
      have hcursor := cursor_of_accepts (hK _ ha) hpart hacc hle
      refine ⟨a.records, ha, ?_, hpart.onIndex (hK _ ha) hacc hcursor⟩
      rw [hdigests, Peer.onIndex, if_pos hacc]
    · rw [hsync] at hidle
      cases hidle
  · rw [Peer.onIndex, if_neg hacc]
    exact hp

theorem Link.Inv.step (hsame : ∀ a ∈ K, ∀ b ∈ K, digests C a = digests C b →
    index C a = index C b) {s s' : Link} (hs : s.Inv C K) {e : Event} (hok : s.Timely C maxSlots e)
    (h : s.step C maxSlots e = some s') (hrecords : s'.records ∈ K) : s'.Inv C K := by
  obtain ⟨hr, hh, ha, hp⟩ := hs
  cases e with
  | change records =>
    cases h
    exact ⟨hrecords, hh, ha, hp⟩
  | hello free =>
    cases h
    exact ⟨hr, forall_mem_cons.2 ⟨hr, hh⟩, ha, hp⟩
  | hear hello did localDigest now =>
    simp only [Link.step] at h
    split at h
    · rename_i hmem
      cases h
      refine ⟨hr, hh, ha, fun p hpeer => ?_⟩
      cases hpeer
      exact Tracks.onHello hp (hh hello hmem) did hello.free localDigest now
    · cases h
  | tick now =>
    obtain ⟨p, hpeer, rfl⟩ := map_eq_some_iff.1 h
    split
    · refine ⟨hr, hh, ha, fun q hq => ?_⟩
      cases hq
      exact hp p hpeer
    · exact ⟨hr, hh, ha, hp⟩
  | answer cursor =>
    simp only [Link.step] at h
    split at h
    · cases h
      exact ⟨hr, hh, forall_mem_cons.2 ⟨hr, ha⟩, hp⟩
    · cases h
  | index a locals now =>
    simp only [Link.step] at h
    split at h
    · rename_i hmem
      obtain ⟨p, hpeer, rfl⟩ := map_eq_some_iff.1 h
      refine ⟨hr, hh, ha, fun q hq => ?_⟩
      cases hq
      exact (hp p hpeer).onIndex hK hsame (ha a hmem) (hok p hpeer) locals now
    · cases h
  | heads =>
    obtain ⟨p, hpeer, rfl⟩ := map_eq_some_iff.1 h
    refine ⟨hr, hh, ha, fun q hq => ?_⟩
    cases hq
    exact hp p hpeer
  | forget =>
    cases h
    exact ⟨hr, hh, ha, nofun⟩

theorem Link.Runs.inv (hsame : ∀ a ∈ K, ∀ b ∈ K, digests C a = digests C b →
    index C a = index C b) {s : Link} (hrun : Runs C maxSlots K (Link.Timely C maxSlots) s) : s.Inv C K := by
  induction hrun with
  | start h => exact ⟨h, nofun, nofun, nofun⟩
  | step _ hok hstep hrecords ih => exact ih.step hK hsame hok hstep hrecords

end

end runs

/-! ## One slot, held and given up -/

def noteRecords (held : Bool) : List MeshRecord :=
  [⟨Escrow.noteHead, none, some "did:key:z6Mkv9WMHQD8qwxombLiBsJDJbGiH5WiUpR5jGZrPMy7sB7Q", held⟩]

/-- The digests of the texts of those records: none, lines of the slot, and the head itself, which is a JSON object. -/
def noteDigest : List UInt8 → String
  | [] => "e3b0c44298fc1c149afbf4c8996fb92427ae41e4649b934ca495991b7852b855"
  | 97 :: _ => "8650be3e7611f23e3f859fe01230ca018e3f8187fe8d0a36e11a1d108c5eb91c"
  | _ => Escrow.noteHash

def noteCrates : Crates := { sampleCrates [] with digest := noteDigest }

theorem noteDigest_hex (bytes : List UInt8) : hexString (noteDigest bytes) 64 = true := by
  unfold noteDigest
  split
  · decide
  · decide
  · decide

/-- The link after some events that meet `ok`. -/
def Link.exec (C : Crates) (maxSlots : Nat) (ok : Link → Event → Bool) : Link → List Event → Option Link
  | s, [] => some s
  | s, e :: events => if ok s e then (s.step C maxSlots e).bind (fun s => s.exec C maxSlots ok events) else none

theorem Link.step_records {maxSlots : Nat} {s s' : Link} {e : Event} (h : s.step C maxSlots e = some s') :
    s'.records = s.records ∨ e = .change s'.records := by
  cases e with
  | change records => cases h; exact .inr rfl
  | hello free | forget => cases h; exact .inl rfl
  | hear hello did localDigest now | answer cursor =>
    simp only [Link.step] at h
    split at h
    · cases h; exact .inl rfl
    · cases h
  | tick now =>
    obtain ⟨p, -, rfl⟩ := map_eq_some_iff.1 h
    split
    · exact .inl rfl
    · exact .inl rfl
  | index a locals now =>
    simp only [Link.step] at h
    split at h
    · obtain ⟨p, -, rfl⟩ := map_eq_some_iff.1 h; exact .inl rfl
    · cases h
  | heads => obtain ⟨p, -, rfl⟩ := map_eq_some_iff.1 h; exact .inl rfl

theorem Link.Runs.exec {maxSlots : Nat} {K : Set (List MeshRecord)} {ok : Link → Event → Prop} {check : Link → Event → Bool}
    (hcheck : ∀ s e, check s e = true → ok s e) : ∀ (events : List Event) {s s' : Link}, Runs C maxSlots K ok s →
    s.records ∈ K → (∀ records, .change records ∈ events → records ∈ K) → s.exec C maxSlots check events = some s' →
    Runs C maxSlots K ok s'
  | [], s, s', hs, _, _, h => by cases h; exact hs
  | e :: events, s, s', hs, hr, hK, h => by
    rw [Link.exec] at h
    split at h
    · rename_i hok
      obtain ⟨t, ht, h⟩ := bind_eq_some_iff.1 h
      have htK : t.records ∈ K := by
        rcases step_records ht with heq | rfl
        · rw [heq]; exact hr
        · exact hK _ mem_cons_self
      exact Runs.exec hcheck events (.step hs (hcheck s e hok) ht htK) htK
        (fun records hmem => hK records (mem_cons_of_mem _ hmem)) h
    · cases h

/-- A peer that is not being synced, with the provider's digests and the entries `ok` tells. -/
def Link.settled (C : Crates) (s : Link) (ok : Table String Entry → Bool) : Bool :=
  s.peer.any (fun p => !p.syncing && decide ((p.digest, p.heldDigest) = digests C s.records) && ok p.entries)

theorem Link.settled_iff {s : Link} {ok : Table String Entry → Bool} : s.settled C ok = true ↔
    ∃ p, s.peer = some p ∧ p.syncing = false ∧ (p.digest, p.heldDigest) = digests C s.records ∧ ok p.entries = true := by
  unfold settled
  rw [Option.any_eq_true]
  simp only [Bool.and_eq_true, Bool.not_eq_true', decide_eq_true_eq, and_assoc]

/-- **The entries kept of a peer are its index.**  Where the pages that are taken in were cut from records with the
digests the sync was started for, at a cursor not past the reader's: a peer that is not being synced and whose kept
digests are the provider's has its entries. -/
theorem index_faithful (C : Crates) (D : Set (List UInt8)) (hD : Set.InjOn C.digest D)
    (hhex : ∀ bytes, hexString (C.digest bytes) 64 = true) (K : Set (List MeshRecord))
    (hK : ∀ records ∈ K, Listing records ∧ metadata C records ∈ D ∧ holdings C records ∈ D) (maxSlots : Nat) (s : Link)
    (hrun : Link.Runs C maxSlots K (Link.Timely C maxSlots) s) (p : Peer) (hp : s.peer = some p)
    (hsync : p.syncing = false) (hdigests : (p.digest, p.heldDigest) = digests C s.records) :
    p.entries = contents (index C s.records) := by
  have hsame : ∀ a ∈ K, ∀ b ∈ K, digests C a = digests C b → index C a = index C b := fun a ha b hb h =>
    digests_inj hD hhex (hK a ha).1 (hK b hb).1 (hK a ha).2.1 (hK a ha).2.2 (hK b hb).2.1 (hK b hb).2.2 h
  have hinv := hrun.inv (fun records h => (hK records h).1) hsame
  obtain ⟨records, hrecords, hd, ⟨hon, -⟩ | ⟨-, hentries⟩⟩ := hinv.peer p hp
  · rw [hsync] at hon
    cases hon
  · rw [hentries, hsame records hrecords s.records hinv.records (hd.trans hdigests)]

def once : List Event :=
  [.hello 0, .hear ⟨noteRecords true, 0⟩ "did:key:z6Mkv9WMHQD8qwxombLiBsJDJbGiH5WiUpR5jGZrPMy7sB7Q" "" 1000, .answer none,
    .index ⟨noteRecords true, none⟩ ∅ 1200, .heads]

theorem index_faithful_once : ∃ s p, Link.Runs noteCrates 64 {noteRecords true} (Link.Timely noteCrates 64) s ∧
    s.peer = some p ∧ p.syncing = false ∧ (p.digest, p.heldDigest) = digests noteCrates s.records ∧
    p.entries = contents (index noteCrates s.records) := by
  have hexec : ((Link.start (noteRecords true)).exec noteCrates 64 (fun s e => decide (s.Timely noteCrates 64 e)) once).any
      (fun s => s.settled noteCrates (fun _ => true)) = true := by
    decide
  obtain ⟨s, hs, hsettled⟩ := (Option.any_eq_true _ _).1 hexec
  obtain ⟨p, hp, hsync, hdigests, -⟩ := Link.settled_iff.1 hsettled
  have hrun : Link.Runs noteCrates 64 {noteRecords true} (Link.Timely noteCrates 64) s := by
    refine Link.Runs.exec (fun _ _ h => of_decide_eq_true h) once (.start rfl) rfl ?_ hs
    intro records hmem
    simp only [once, mem_cons, reduceCtorEq, not_mem_nil, or_false] at hmem
  have hlisting : Listing (noteRecords true) := by
    refine ⟨pairwise_singleton _ _, fun r hr => ?_⟩
    rw [mem_singleton.1 hr]
    decide
  refine ⟨s, p, hrun, hp, hsync, hdigests, ?_⟩
  refine index_faithful noteCrates {metadata noteCrates (noteRecords true)} (Set.injOn_singleton _ _)
    noteDigest_hex {noteRecords true} ?_ 64 s hrun p hp hsync hdigests
  rintro records rfl
  exact ⟨hlisting, rfl, rfl⟩

/-- The index is requested a second time, and both answers arrive, the second after the copy was given up. -/
def repeated : List Event :=
  [.hello 0, .hear ⟨noteRecords true, 0⟩ "did:key:z6Mkv9WMHQD8qwxombLiBsJDJbGiH5WiUpR5jGZrPMy7sB7Q" "" 1000, .tick 32000,
    .answer none, .answer none, .index ⟨noteRecords true, none⟩ ∅ 32100, .heads, .change (noteRecords false), .hello 0,
    .hear ⟨noteRecords false, 0⟩ "did:key:z6Mkv9WMHQD8qwxombLiBsJDJbGiH5WiUpR5jGZrPMy7sB7Q" "" 32200,
    .index ⟨noteRecords true, none⟩ ∅ 32300, .heads]

/-- **A page of an older index is taken for the new one**: the peer's copy is given up, and its entries say that it holds
it, under the digests of an index that does not. -/
theorem index_of_older_records : ∃ s p, Link.Runs noteCrates 64 {noteRecords true, noteRecords false} (fun _ _ => True) s ∧
    s.records.length ≤ 64 ∧ s.peer = some p ∧ p.syncing = false ∧
    (p.digest, p.heldDigest) = digests noteCrates s.records ∧ p.entries ≠ contents (index noteCrates s.records) := by
  have hexec : ((Link.start (noteRecords true)).exec noteCrates 64 (fun _ _ => true) repeated).any (fun s =>
      decide (s.records.length ≤ 64) && s.settled noteCrates
        (fun entries => decide (entries ≠ contents (index noteCrates s.records)))) = true := by
    decide
  obtain ⟨s, hs, hcheck⟩ := (Option.any_eq_true _ _).1 hexec
  obtain ⟨hlength, hsettled⟩ := Bool.and_eq_true_iff.1 hcheck
  obtain ⟨p, hp, hsync, hdigests, hne⟩ := Link.settled_iff.1 hsettled
  refine ⟨s, p, ?_, of_decide_eq_true hlength, hp, hsync, hdigests, of_decide_eq_true hne⟩
  refine Link.Runs.exec (fun _ _ _ => trivial) repeated (.start (.inl rfl)) (.inl rfl) ?_ hs
  intro records hmem
  simp only [repeated, mem_cons, reduceCtorEq, Event.change.injEq, not_mem_nil, or_false, false_or] at hmem
  exact .inr hmem

end Mistl.Mesh
