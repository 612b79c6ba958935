import Mistl.EscrowContent
import Mistl.EscrowSnapshot
import Mistl.Lib.Checks
import Mistl.Lib.JsonLine
import Mistl.WiresignCanon
/-!
# EscrowPortable — the portable export

`escrow/portable.rs`: a header line, for each entry a line of metadata and the raw bytes of its manifest and blob, and
a trailer line that counts the entries.
-/
open List Option

namespace Mistl.Escrow
namespace Portable

/-- The messages of an error, the outermost first; those of other crates are left out. -/
abbrev Chain := List String

def headerLine : Nat := 4096

def entryLine : Nat := 32768

def maxEntries : Nat := 65 * 65536

structure Entry where
  room : String
  head : Head
  manifest : List UInt8
  blob : List UInt8

def Entry.key (e : Entry) : String × String := (e.room, e.head.slot)

/-- `.map_err(|e| anyhow::anyhow!(e.code))` -/
def withCode {α : Type} : Except Error α → Except Chain α
  | .ok a => .ok a
  | .error e => .error [e.code.text]

/-- `.with_context(..)` -/
def withContext {α : Type} (context : String) : Except Chain α → Except Chain α
  | .ok a => .ok a
  | .error chain => .error (context :: chain)

variable (C : Crates)

def validate (head : Head) (blob bytes : List UInt8) (maxBlob : Nat) : Except Chain Unit := do
  withCode (head.validate C maxBlob)
  withCode (head.verify C)
  withCode (validateBlob C head blob)
  let manifest ← withCode (validateManifest C head bytes)
  ensure (chunksVerify C manifest blob) ["hash mismatch: chunk CID"]

/-! ## Lines -/

def headerJson (created : UInt64) : Json :=
  .obj [("format", .str "mistl-escrow-export"), ("version", .int 1), ("created_ms", .int created.toNat)]

def metadataJson (e : Entry) : Json := .obj [("room", .str e.room), ("head", e.head.toJson), ("manifest", .int e.manifest.length)]

def trailerJson (entries : Nat) : Json := .obj [("end", .bool true), ("entries", .int entries)]

structure Header where
  format : String
  version : Nat
  created : Nat

def Header.ofJson (j : Json) : Option Header :=
  match Json.structFields ["format", "version", "created_ms"] true j with
  | some [some format, some version, some created] => do
    let format ← format.asStr
    let version ← version.asUnsigned (2 ^ 64)
    let created ← created.asUnsigned (2 ^ 64)
    some ⟨format, version, created⟩
  | _ => none

structure Metadata where
  room : String
  head : Head
  manifest : Nat

def Metadata.ofJson (j : Json) : Option Metadata :=
  match Json.structFields ["room", "head", "manifest"] true j with
  | some [some room, some head, some manifest] => do
    let room ← room.asStr
    let head ← Head.ofJson head
    let manifest ← manifest.asUnsigned (2 ^ 64)
    some ⟨room, head, manifest⟩
  | _ => none

structure Trailer where
  isEnd : Bool
  entries : Nat

def Trailer.ofJson (j : Json) : Option Trailer :=
  match Json.structFields ["end", "entries"] true j with
  | some [some isEnd, some entries] => do
    let isEnd ← isEnd.asBool
    let entries ← entries.asUnsigned (2 ^ 64)
    some ⟨isEnd, entries⟩
  | _ => none

/-! ## Writing -/

def jsonLine (output : List UInt8) (value : Json) (limit : Nat) : Except Chain (List UInt8) :=
  if value.toVec.length < limit then .ok (output ++ (value.toVec ++ [Json.newline]))
  else .error ["escrow export: oversized JSON line"]

structure Writer where
  output : List UInt8
  entries : Nat
  seen : Finset (String × String)

def Writer.new (created : UInt64) : Except Chain Writer := do
  let output ← jsonLine [] (headerJson created) headerLine
  .ok ⟨output, 0, ∅⟩

def Writer.entry (w : Writer) (e : Entry) : Except Chain Writer := do
  ensure (validRoom e.room) ["escrow export: invalid room"]
  validate C e.head e.blob e.manifest (1024 * 1024 * 1024)
  ensure (decide (e.key ∉ w.seen)) ["escrow export: duplicate slot"]
  let seen := insert e.key w.seen
  ensure (decide (seen.card ≤ maxEntries)) ["escrow export: too many slots"]
  let output ← jsonLine w.output (metadataJson e) entryLine
  .ok ⟨output ++ e.manifest ++ e.blob, w.entries + 1, seen⟩

def Writer.finish (w : Writer) : Except Chain (List UInt8) := jsonLine w.output (trailerJson w.entries) entryLine

def Writer.all (w : Writer) : List Entry → Except Chain Writer
  | [] => .ok w
  | e :: entries => do
    let w ← w.entry C e
    w.all entries

/-! ## Reading -/

/-- `fill_buf`: the bytes that are buffered of those that remain, some if any do; `window` says how many. -/
def fillBuf (window : Nat → Nat) (rest : List UInt8) : List UInt8 := rest.take (window rest.length + 1)

/-- The loop of `line`, each turn consuming some bytes. -/
def lineLoop (window : Nat → Nat) (limit : Nat) : Nat → List UInt8 → List UInt8 → Except Chain (List UInt8 × List UInt8)
  | 0, _, _ => .error ["escrow import: truncated file or missing trailer"]
  | fuel + 1, rest, bytes =>
    let available := fillBuf window rest
    if available = [] then .error ["escrow import: truncated file or missing trailer"]
    else
      let count := match available.findIdx? (· == Json.newline) with
        | none => available.length
        | some i => i + 1
      if limit - bytes.length < count then .error ["escrow import: oversized JSON line"]
      else
        let found := available.getD (count - 1) 0 == Json.newline
        let bytes := bytes ++ available.take count
        if found then .ok (bytes, rest.drop count) else lineLoop window limit fuel (rest.drop count) bytes

/-- `line`: a line with its line break, and what remains. -/
def line (window : Nat → Nat) (limit : Nat) (rest : List UInt8) : Except Chain (List UInt8 × List UInt8) :=
  lineLoop window limit (rest.length + 1) rest []

def readExact (count : Nat) (rest : List UInt8) : Option (List UInt8 × List UInt8) :=
  if count ≤ rest.length then some (rest.take count, rest.drop count) else none

structure Reader where
  rest : List UInt8
  maxBlob : Nat
  entries : Nat
  seen : Finset (String × String)
  done : Bool

variable (window : Nat → Nat)

def Reader.new (input : List UInt8) (maxBlob : Nat) : Except Chain Reader := do
  let (bytes, rest) ← line window headerLine input
  let header ← okOr ((Json.fromSlice bytes).bind Header.ofJson) ["escrow import: invalid header"]
  ensure (header.format == "mistl-escrow-export" && header.version == 1) ["escrow import: unsupported format or version"]
  .ok ⟨rest, maxBlob, 0, ∅, false⟩

def Reader.readEntry (r : Reader) (metadata : Metadata) (rest : List UInt8) : Except Chain (Reader × Entry) := do
  ensure (validRoom metadata.room) ["invalid room"]
  withCode (metadata.head.validate C r.maxBlob)
  withCode (metadata.head.verify C)
  ensure (decide (metadata.manifest ≤ maxManifest)) ["oversized manifest"]
  ensure (decide ((metadata.room, metadata.head.slot) ∉ r.seen)) ["duplicate slot"]
  let seen := insert (metadata.room, metadata.head.slot) r.seen
  ensure (decide (seen.card ≤ maxEntries)) ["too many slots"]
  let (manifest, rest) ← okOr (readExact metadata.manifest rest) ["truncated manifest"]
  let (blob, rest) ← okOr (readExact metadata.head.size rest) ["truncated blob"]
  validate C metadata.head blob manifest r.maxBlob
  .ok (⟨rest, r.maxBlob, r.entries + 1, seen, false⟩, ⟨metadata.room, metadata.head, manifest, blob⟩)

def Reader.readTrailer (r : Reader) (trailer : Trailer) (rest : List UInt8) : Except Chain Reader := do
  ensure (trailer.isEnd && trailer.entries == r.entries) ["escrow import: trailer count mismatch"]
  ensure (decide (fillBuf window rest = [])) ["escrow import: trailing bytes after trailer"]
  .ok ⟨rest, r.maxBlob, r.entries, r.seen, true⟩

/-- What `next` makes of a line. -/
def Reader.readLine (r : Reader) (bytes rest : List UInt8) : Except Chain (Reader × Option Entry) :=
  match (Json.fromSlice bytes).bind Trailer.ofJson with
  | some trailer => (r.readTrailer window trailer rest).map (fun r => (r, none))
  | none =>
    match (Json.fromSlice bytes).bind Metadata.ofJson with
    | none => .error [s!"escrow import: invalid entry {r.entries + 1}"]
    | some metadata =>
      (withContext s!"escrow import: entry {r.entries + 1} (room {metadata.room}, slot {metadata.head.slot})"
        (r.readEntry C metadata rest)).map (fun p => (p.1, some p.2))

def Reader.next (r : Reader) : Except Chain (Reader × Option Entry) :=
  if r.done then .ok (r, none)
  else
    match line window entryLine r.rest with
    | .error chain => .error chain
    | .ok (bytes, rest) => r.readLine C window bytes rest

/-- The entries `next` yields until it yields none, or fails. -/
inductive Reads : Reader → List Entry → Option Chain → Prop
  | none {r r' : Reader} : r.next C window = .ok (r', none) → Reads r [] none
  | some {r r' : Reader} {e : Entry} {entries : List Entry} {failure : Option Chain} :
      r.next C window = .ok (r', some e) → Reads r' entries failure → Reads r (e :: entries) failure
  | error {r : Reader} {chain : Chain} : r.next C window = .error chain → Reads r [] (some chain)

/-- An input that is read to its end: the entries, and the failure if it ends in one. -/
inductive Imports (maxBlob : Nat) (input : List UInt8) : List Entry → Option Chain → Prop
  | header {chain : Chain} : Reader.new window input maxBlob = .error chain → Imports maxBlob input [] (some chain)
  | entries {r : Reader} {entries : List Entry} {failure : Option Chain} : Reader.new window input maxBlob = .ok r →
      Reads C window r entries failure → Imports maxBlob input entries failure

/-! ## Lines read back -/

variable {C window} {limit : Nat}

theorem fillBuf_eq_nil {rest : List UInt8} : fillBuf window rest = [] ↔ rest = [] := by
  rw [fillBuf]
  simp

variable {l : List UInt8}

theorem findIdx_newline (h : Json.newline ∉ l) : l.findIdx? (· == Json.newline) = none := by
  rw [findIdx?_eq_none_iff]
  intro x hx
  exact beq_false_of_ne (fun he => h (he ▸ hx))

theorem getD_ne_newline (h : Json.newline ∉ l) {i : Nat} (hi : i < l.length) : (l.getD i 0 == Json.newline) = false := by
  refine beq_false_of_ne (fun he => h ?_)
  rw [← he, getD_eq_getElem?_getD, getElem?_eq_getElem hi]
  exact getElem_mem hi

theorem lineLoop_ok : ∀ (fuel : Nat) {text rest bytes : List UInt8}, text.length < fuel → Json.newline ∉ text →
    bytes.length + text.length + 1 ≤ limit →
    lineLoop window limit fuel (text ++ Json.newline :: rest) bytes = .ok (bytes ++ (text ++ [Json.newline]), rest)
  | 0, _, _, _, hf, _, _ => absurd hf (Nat.not_lt_zero _)
  | fuel + 1, text, rest, bytes, hf, htext, hlimit => by
    rw [lineLoop]
    have hne : fillBuf window (text ++ Json.newline :: rest) ≠ [] := by
      rw [Ne, fillBuf_eq_nil]
      simp
    simp only [if_neg hne]
    generalize hw : window (text ++ Json.newline :: rest).length = w
    have hfill : fillBuf window (text ++ Json.newline :: rest) = (text ++ Json.newline :: rest).take (w + 1) := by
      rw [fillBuf, hw]
    by_cases hlt : w + 1 ≤ text.length
    · -- the line break is not buffered yet
      have havail : fillBuf window (text ++ Json.newline :: rest) = text.take (w + 1) := by
        rw [hfill, take_append_of_le_length hlt]
      have hnot : Json.newline ∉ text.take (w + 1) := fun h => htext (mem_of_mem_take h)
      have hlen : (text.take (w + 1)).length = w + 1 := length_take_of_le hlt
      have hlast : ((text.take (w + 1)).getD (w + 1 - 1) 0 == Json.newline) = false := getD_ne_newline hnot (by omega)
      rw [havail, findIdx_newline hnot]
      simp only [hlen, hlast, Bool.false_eq_true, if_false]
      rw [if_neg (by omega), take_take, Nat.min_self, drop_append_of_le_length hlt,
        lineLoop_ok fuel (by rw [length_drop]; omega) (fun h => htext (mem_of_mem_drop h))
          (by rw [length_append, length_drop]; omega)]
      simp only [append_assoc]
      rw [← append_assoc (text.take (w + 1)), take_append_drop]
    · have havail : fillBuf window (text ++ Json.newline :: rest) = text ++ Json.newline :: rest.take (w - text.length) := by
        rw [hfill, take_append, take_of_length_le (by omega), show w + 1 - text.length = (w - text.length) + 1 by omega, take_succ_cons]
      have hidx : (text ++ Json.newline :: rest.take (w - text.length)).findIdx? (· == Json.newline) = some text.length := by
        rw [findIdx?_append, findIdx_newline htext]
        simp [findIdx?_cons]
      rw [havail, hidx]
      have hlast : ((text ++ Json.newline :: rest.take (w - text.length)).getD (text.length + 1 - 1) 0 == Json.newline)
          = true := by simp
      simp only
      rw [if_neg (by omega)]
      simp [take_append]

theorem lineLoop_error : ∀ (fuel : Nat) {rest bytes : List UInt8}, Json.newline ∉ rest →
    ∃ chain, lineLoop window limit fuel rest bytes = .error chain
  | 0, _, _, _ => ⟨_, rfl⟩
  | fuel + 1, rest, bytes, h => by
    rw [lineLoop]
    by_cases hnil : fillBuf window rest = []
    · exact ⟨_, by rw [if_pos hnil]⟩
    have hnot : Json.newline ∉ fillBuf window rest := fun hm => h (mem_of_mem_take hm)
    have hpos : 0 < (fillBuf window rest).length := length_pos_iff.2 hnil
    simp only [if_neg hnil, findIdx_newline hnot, getD_ne_newline hnot (by omega : (fillBuf window rest).length - 1 < _)]
    split
    · exact ⟨_, rfl⟩
    · exact lineLoop_error fuel (fun hm => h (mem_of_mem_drop hm))

theorem line_ok {text rest : List UInt8} (h : Json.newline ∉ text) (hl : text.length < limit) :
    line window limit (text ++ Json.newline :: rest) = .ok (text ++ [Json.newline], rest) := by
  refine lineLoop_ok _ ?_ h ?_
  · rw [length_append]
    omega
  · rw [length_nil]
    omega

theorem line_error {rest : List UInt8} (h : Json.newline ∉ rest) : ∃ chain, line window limit rest = .error chain := lineLoop_error _ h

/-! ## What the writer accepts -/

theorem withCode_eq_ok {α : Type} {x : Except Error α} {a : α} : withCode x = .ok a ↔ x = .ok a := by
  cases x <;> simp [withCode]

theorem validate_eq_ok {head : Head} {blob bytes : List UInt8} {maxBlob : Nat} :
    validate C head blob bytes maxBlob = .ok () ↔ head.validate C maxBlob = .ok () ∧ head.verify C = .ok () ∧
      validateBlob C head blob = .ok () ∧
      ∃ manifest, validateManifest C head bytes = .ok manifest ∧ chunksVerify C manifest blob = true := by
  unfold validate
  simp only [bind_eq_ok, withCode_eq_ok, ensure_eq_ok]
  constructor
  · rintro ⟨_, h1, _, h2, _, h3, m, h4, h5⟩
    exact ⟨h1, h2, h3, m, h4, h5⟩
  · rintro ⟨h1, h2, h3, m, h4, h5⟩
    exact ⟨_, h1, _, h2, _, h3, m, h4, h5⟩

/-- What `Writer::entry` checks of an entry alone. -/
structure Entry.Accepted (C : Crates) (e : Entry) : Prop where
  room : validRoom e.room = true
  valid : validate C e.head e.blob e.manifest gib = .ok ()
  fits : (metadataJson e).toVec.length < entryLine

def Entry.bytes (e : Entry) : List UInt8 := (metadataJson e).toVec ++ Json.newline :: (e.manifest ++ e.blob)

namespace Entry.Accepted

variable {e : Entry}

section

variable (h : e.Accepted C)

include h

theorem head : e.head.Valid C gib := Head.valid_of_checks C (validate_eq_ok.1 h.valid).1 (validate_eq_ok.1 h.valid).2.1

theorem blob_length : e.blob.length = e.head.size := by
  have hb := (validate_eq_ok.1 h.valid).2.2.1
  unfold validateBlob at hb
  split at hb
  · cases hb
  · rename_i hn
    rw [not_or, not_not] at hn
    exact hn.1

theorem manifest_length : e.manifest.length ≤ maxManifest := by
  obtain ⟨m, hm, -⟩ := (validate_eq_ok.1 h.valid).2.2.2
  unfold validateManifest at hm
  split at hm
  · cases hm
  · rename_i hn
    rw [not_or, Nat.not_lt] at hn
    exact hn.1.trans (Nat.min_le_right _ _)

theorem validate_of_le {maxBlob : Nat} (hmax : e.head.size ≤ maxBlob) : validate C e.head e.blob e.manifest maxBlob = .ok () := by
  obtain ⟨-, h2, h3⟩ := validate_eq_ok.1 h.valid
  exact validate_eq_ok.2 ⟨h.head.validate C hmax, h2, h3⟩

theorem words : e.head.Words :=
  ⟨by rw [h.head.v_eq]; decide, lt_of_le_of_lt h.head.seq_le (by decide), lt_of_le_of_lt h.head.size_le (by decide),
    lt_of_le_of_lt h.head.at_le (by decide)⟩

theorem manifest_word : e.manifest.length < 2 ^ 64 := lt_of_le_of_lt h.manifest_length (by decide)

theorem integral : Json.Integral (metadataJson e) := by
  have hw := h.manifest_word
  rw [metadataJson]
  simp only [Json.IntegralFields, Json.Integral, h.words.exact.integral, true_and, and_true]
  omega

end

theorem nesting (e : Entry) : Json.nesting (metadataJson e) < Json.maxDepth := by
  rw [metadataJson]
  simp only [Json.nestingFields, Json.nesting, nesting_head]
  decide

theorem metadata (h : e.Accepted C) : (Json.fromSlice ((metadataJson e).toVec ++ [Json.newline])).bind Trailer.ofJson = none ∧
    (Json.fromSlice ((metadataJson e).toVec ++ [Json.newline])).bind Metadata.ofJson
      = some ⟨e.room, e.head, e.manifest.length⟩ := by
  rw [Json.fromSlice_line h.integral (nesting e), bind_some, bind_some]
  have hfields : Json.structFields ["room", "head", "manifest"] true (metadataJson e)
      = some [some (.str e.room), some e.head.toJson, some (.int e.manifest.length)] := rfl
  refine ⟨rfl, ?_⟩
  rw [Metadata.ofJson, hfields]
  simp only [Json.asStr, h.head.ofJson_toJson, asUnsigned_int h.manifest_word, bind_eq_bind, bind_some]

end Entry.Accepted

variable {w w' : Writer}

theorem writer_entry_eq_ok {e : Entry} : w.entry C e = .ok w' ↔ e.Accepted C ∧ e.key ∉ w.seen ∧
    (insert e.key w.seen).card ≤ maxEntries ∧ w' = ⟨w.output ++ e.bytes, w.entries + 1, insert e.key w.seen⟩ := by
  unfold Writer.entry
  simp only [bind_eq_ok, ensure_eq_ok, decide_eq_true_eq]
  constructor
  · rintro ⟨_, h1, _, h2, _, h3, _, h4, output, h5, h6⟩
    unfold jsonLine at h5
    split at h5
    · rename_i hfits
      cases h5
      cases h6
      refine ⟨⟨h1, h2, hfits⟩, h3, h4, ?_⟩
      simp [Entry.bytes]
    · cases h5
  · rintro ⟨h, h3, h4, rfl⟩
    refine ⟨(), h.room, (), h.valid, (), h3, (), h4, _, if_pos h.fits, ?_⟩
    simp [Entry.bytes]

/-! ## Header and trailer -/

theorem header_fits (created : UInt64) : (headerJson created).toVec.length < headerLine := by
  have hn := Json.size_int_le created.toNat_lt
  have h1 : Json.stringSize "format" = 8 := by decide
  have h2 : Json.stringSize "version" = 9 := by decide
  have h3 : Json.stringSize "created_ms" = 12 := by decide
  have h4 : Json.size (.str "mistl-escrow-export") = 21 := by decide
  have h5 : Json.size (.int 1) = 1 := by decide
  show Json.size (headerJson created) < headerLine
  rw [headerJson, Json.size_obj]
  simp only [Json.fieldsSize, headerLine]
  omega

theorem trailer_fits {n : Nat} (h : n < 2 ^ 64) : (trailerJson n).toVec.length < entryLine := by
  have hn := Json.size_int_le h
  have h1 : Json.stringSize "end" = 5 := by decide
  have h2 : Json.stringSize "entries" = 9 := by decide
  have h3 : Json.size (.bool true) = 4 := by decide
  show Json.size (trailerJson n) < entryLine
  rw [trailerJson, Json.size_obj]
  simp only [Json.fieldsSize, entryLine]
  omega

theorem header_integral (created : UInt64) : Json.Integral (headerJson created) := by
  have := created.toNat_lt
  rw [headerJson]
  simp only [Json.IntegralFields, Json.Integral, true_and, and_true]
  omega

theorem trailer_integral {n : Nat} (h : n < 2 ^ 64) : Json.Integral (trailerJson n) := by
  rw [trailerJson]
  simp only [Json.IntegralFields, Json.Integral, true_and, and_true]
  omega

theorem header_nesting (created : UInt64) : Json.nesting (headerJson created) < Json.maxDepth := by
  rw [headerJson]
  simp only [Json.nestingFields, Json.nesting]
  decide

theorem trailer_nesting (n : Nat) : Json.nesting (trailerJson n) < Json.maxDepth := by
  rw [trailerJson]
  simp only [Json.nestingFields, Json.nesting]
  decide

theorem reader_new (created : UInt64) (maxBlob : Nat) (rest : List UInt8) :
    Reader.new window ((headerJson created).toVec ++ Json.newline :: rest) maxBlob = .ok ⟨rest, maxBlob, 0, ∅, false⟩ := by
  have hread : (Json.fromSlice ((headerJson created).toVec ++ [Json.newline])).bind Header.ofJson
      = some ⟨"mistl-escrow-export", 1, created.toNat⟩ := by
    have hfields : Json.structFields ["format", "version", "created_ms"] true (headerJson created)
        = some [some (.str "mistl-escrow-export"), some (.int 1), some (.int created.toNat)] := rfl
    have hversion : (Json.int 1).asUnsigned (2 ^ 64) = some 1 := rfl
    rw [Json.fromSlice_line (header_integral created) (header_nesting created), bind_some, Header.ofJson, hfields]
    simp only [Json.asStr, hversion, asUnsigned_int created.toNat_lt, bind_eq_bind, bind_some]
  rw [Reader.new, line_ok (Json.newline_notMem_toVec (header_integral created)) (header_fits created)]
  show (okOr _ _ >>= _) = _
  rw [hread]
  rfl

theorem next_trailer {r : Reader} {tail : List UInt8} (hdone : r.done = false) (hn : r.entries < 2 ^ 64)
    (hrest : r.rest = (trailerJson r.entries).toVec ++ Json.newline :: tail) :
    r.next C window = if tail = [] then .ok (⟨[], r.maxBlob, r.entries, r.seen, true⟩, none)
      else .error ["escrow import: trailing bytes after trailer"] := by
  have hread : (Json.fromSlice ((trailerJson r.entries).toVec ++ [Json.newline])).bind Trailer.ofJson
      = some ⟨true, r.entries⟩ := by
    have hfields : Json.structFields ["end", "entries"] true (trailerJson r.entries)
        = some [some (.bool true), some (.int r.entries)] := rfl
    rw [Json.fromSlice_line (trailer_integral hn) (trailer_nesting r.entries), bind_some, Trailer.ofJson, hfields]
    simp only [Json.asBool, asUnsigned_int hn, bind_eq_bind, bind_some]
  rw [Reader.next, hdone, hrest, line_ok (Json.newline_notMem_toVec (trailer_integral hn)) (trailer_fits hn)]
  simp only [Reader.readLine, hread]
  by_cases htail : tail = []
  · subst htail
    simp [Reader.readTrailer, ensure, fillBuf, Except.map, bind, Except.bind]
  · simp [Reader.readTrailer, ensure, fillBuf_eq_nil, htail, Except.map, bind, Except.bind]

/-! ## Entries -/

theorem readExact_append (a b : List UInt8) : readExact a.length (a ++ b) = some (a, b) := by
  rw [readExact, if_pos (by rw [length_append]; omega), take_left, drop_left]

theorem readExact_short {n : Nat} (h : l.length < n) : readExact n l = none := if_neg (by omega)

section entries

variable {r : Reader} {e : Entry}

/-- What a reader needs of an entry: the checks of the writer, and room for its blob and its slot. -/
structure Expects (C : Crates) (r : Reader) (e : Entry) : Prop where
  accepted : e.Accepted C
  size : e.head.size ≤ r.maxBlob
  fresh : e.key ∉ r.seen
  room : (insert e.key r.seen).card ≤ maxEntries

def Entry.metadata (e : Entry) : Metadata := ⟨e.room, e.head, e.manifest.length⟩

theorem readEntry_reads (h : Expects C r e) (rest : List UInt8) : r.readEntry C e.metadata rest =
    (okOr (readExact e.manifest.length rest) ["truncated manifest"] >>= fun p =>
      okOr (readExact e.head.size p.2) ["truncated blob"] >>= fun q =>
      validate C e.head q.1 p.1 r.maxBlob >>= fun _ =>
      .ok (⟨q.2, r.maxBlob, r.entries + 1, insert e.key r.seen, false⟩, ⟨e.room, e.head, p.1, q.1⟩)) := by
  have h1 : decide ((e.room, e.head.slot) ∉ r.seen) = true := decide_eq_true h.fresh
  have h2 : decide ((insert (e.room, e.head.slot) r.seen).card ≤ maxEntries) = true := decide_eq_true h.room
  unfold Reader.readEntry Entry.metadata
  simp only [h.accepted.room, h.accepted.head.validate C h.size, h.accepted.head.signed, h.accepted.manifest_length, h1, h2]
  rfl

theorem readEntry_ok (h : Expects C r e) (tail : List UInt8) : r.readEntry C e.metadata (e.manifest ++ (e.blob ++ tail))
    = .ok (⟨tail, r.maxBlob, r.entries + 1, insert e.key r.seen, false⟩, e) := by
  have hblob : readExact e.head.size (e.blob ++ tail) = some (e.blob, tail) := by
    rw [← h.accepted.blob_length]
    exact readExact_append _ _
  rw [readEntry_reads h, readExact_append]
  show (okOr (readExact e.head.size (e.blob ++ tail)) _ >>= _) = _
  rw [hblob]
  show (validate C e.head e.blob e.manifest r.maxBlob >>= _) = _
  rw [h.accepted.validate_of_le h.size]
  rfl

theorem readEntry_short (h : Expects C r e) {part more : List UInt8} (hmore : more ≠ [])
    (hpart : part ++ more = e.manifest ++ e.blob) : ∃ chain, r.readEntry C e.metadata part = .error chain := by
  rw [readEntry_reads h]
  have hlength := congrArg List.length hpart
  rw [length_append, length_append] at hlength
  have hpos := length_pos_iff.2 hmore
  by_cases hlt : part.length < e.manifest.length
  · rw [readExact_short hlt]
    exact ⟨_, rfl⟩
  · have hexact : readExact e.manifest.length part = some (part.take e.manifest.length, part.drop e.manifest.length) :=
      if_pos (Nat.not_lt.1 hlt)
    rw [hexact]
    show ∃ chain, (okOr (readExact e.head.size (part.drop e.manifest.length)) _ >>= _) = _
    rw [readExact_short (by rw [length_drop, ← h.accepted.blob_length]; omega)]
    exact ⟨_, rfl⟩

theorem next_entry (hdone : r.done = false) (h : Expects C r e) {tail : List UInt8} (hrest : r.rest = e.bytes ++ tail) :
    r.next C window = .ok (⟨tail, r.maxBlob, r.entries + 1, insert e.key r.seen, false⟩, some e) := by
  have hline : r.rest = (metadataJson e).toVec ++ Json.newline :: (e.manifest ++ (e.blob ++ tail)) := by
    rw [hrest, Entry.bytes]
    simp
  obtain ⟨htrailer, hmetadata⟩ := h.accepted.metadata
  rw [Reader.next, hdone, hline, line_ok (Json.newline_notMem_toVec h.accepted.integral) h.accepted.fits]
  simp only [Reader.readLine, htrailer, hmetadata]
  have := readEntry_ok h tail
  rw [Entry.metadata] at this
  rw [this]
  rfl

theorem next_entry_part (hdone : r.done = false) (h : Expects C r e) {more : List UInt8} (hmore : more ≠ [])
    (hrest : r.rest ++ more = e.bytes) : ∃ chain, r.next C window = .error chain := by
  have hnot := Json.newline_notMem_toVec h.accepted.integral
  rw [Reader.next, hdone]
  simp only [Bool.false_eq_true, if_false]
  rcases append_eq_append_iff.1 hrest with ⟨t, ht, -⟩ | ⟨t, ht, hmanifest⟩
  · -- the line itself is cut
    obtain ⟨chain, hchain⟩ := @line_error window entryLine r.rest (fun hm => hnot (ht ▸ mem_append_left _ hm))
    exact ⟨chain, by rw [hchain]⟩
  · cases t with
    | nil =>
      rw [append_nil] at ht
      obtain ⟨chain, hchain⟩ := @line_error window entryLine r.rest (ht ▸ hnot)
      exact ⟨chain, by rw [hchain]⟩
    | cons c part =>
      obtain ⟨rfl, hpart⟩ := cons.inj hmanifest
      obtain ⟨htrailer, hmetadata⟩ := h.accepted.metadata
      obtain ⟨chain, hchain⟩ := readEntry_short h hmore hpart.symm
      rw [Entry.metadata] at hchain
      rw [ht, line_ok hnot h.accepted.fits]
      simp only [Reader.readLine, htrailer, hmetadata, hchain]
      exact ⟨_, rfl⟩

end entries

/-! ## Whole exports -/

structure Writer.Counted (w : Writer) : Prop where
  entries : w.entries = w.seen.card
  room : w.seen.card ≤ maxEntries

structure Beside (w : Writer) (r : Reader) : Prop where
  done : r.done = false
  seen : r.seen = w.seen
  entries : r.entries = w.entries

def bytesOf (entries : List Entry) : List UInt8 := entries.flatMap Entry.bytes

def trailerBytes (entries : Nat) : List UInt8 := (trailerJson entries).toVec ++ [Json.newline]

theorem writer_all_cons {e : Entry} {entries : List Entry} :
    w.all C (e :: entries) = .ok w' ↔ ∃ w₁, w.entry C e = .ok w₁ ∧ w₁.all C entries = .ok w' := bind_eq_ok

theorem Writer.Counted.entry {e : Entry} (hw : w.Counted) (h : w.entry C e = .ok w') : w'.Counted := by
  obtain ⟨-, hfresh, hroom, rfl⟩ := writer_entry_eq_ok.1 h
  refine ⟨?_, hroom⟩
  rw [Finset.card_insert_of_notMem hfresh, hw.entries]

theorem Writer.Counted.all : ∀ {entries : List Entry} {w w' : Writer}, w.Counted → w.all C entries = .ok w' → w'.Counted
  | [], _, _, hw, h => by cases h; exact hw
  | _ :: _, _, _, hw, h => by
    obtain ⟨w₁, h1, h2⟩ := writer_all_cons.1 h
    exact Writer.Counted.all (hw.entry h1) h2

theorem Writer.Counted.word {w : Writer} (hw : w.Counted) : w.entries < 2 ^ 64 := by
  rw [hw.entries]
  exact lt_of_le_of_lt hw.room (by decide)

theorem writer_all_output : ∀ {entries : List Entry} {w w' : Writer}, w.all C entries = .ok w' → w'.output = w.output ++ bytesOf entries
  | [], _, _, h => by cases h; exact (append_nil _).symm
  | e :: entries, w, w', h => by
    obtain ⟨w₁, h1, h2⟩ := writer_all_cons.1 h
    obtain ⟨-, -, -, rfl⟩ := writer_entry_eq_ok.1 h1
    rw [writer_all_output h2, bytesOf, bytesOf, flatMap_cons, append_assoc]

section runs

variable {maxBlob : Nat}

theorem Beside.expects {w w₁ : Writer} {r : Reader} {e : Entry} (hb : Beside w r) (h : w.entry C e = .ok w₁)
    (hsize : e.head.size ≤ r.maxBlob) : Expects C r e ∧
      ∀ tail, Beside w₁ ⟨tail, r.maxBlob, r.entries + 1, insert e.key r.seen, false⟩ := by
  obtain ⟨hacc, hfresh, hroom, rfl⟩ := writer_entry_eq_ok.1 h
  refine ⟨⟨hacc, hsize, by rw [hb.seen]; exact hfresh, by rw [hb.seen]; exact hroom⟩, fun tail => ⟨rfl, ?_, ?_⟩⟩
  · rw [hb.seen]
  · rw [hb.entries]

theorem reads_all : ∀ {entries : List Entry} {w w' : Writer} {r : Reader} {tail : List UInt8}, w.Counted → Beside w r →
    w.all C entries = .ok w' → (∀ e ∈ entries, e.head.size ≤ r.maxBlob) →
    r.rest = bytesOf entries ++ (trailerBytes w'.entries ++ tail) →
    Reads C window r entries (if tail = [] then none else some ["escrow import: trailing bytes after trailer"])
  | [], w, w', r, tail, hw, hb, h, _, hrest => by
    cases h
    have hline : r.rest = (trailerJson r.entries).toVec ++ Json.newline :: tail := by
      rw [hrest, hb.entries, bytesOf, trailerBytes]
      simp
    have hnext := @next_trailer C window r tail hb.done (by rw [hb.entries]; exact hw.word) hline
    split
    · rename_i htail
      rw [if_pos htail] at hnext
      exact .none hnext
    · rename_i htail
      rw [if_neg htail] at hnext
      exact .error hnext
  | e :: entries, w, w', r, tail, hw, hb, h, hsize, hrest => by
    obtain ⟨w₁, h1, h2⟩ := writer_all_cons.1 h
    obtain ⟨hexp, hbeside⟩ := hb.expects h1 (hsize e mem_cons_self)
    rw [bytesOf, flatMap_cons, append_assoc] at hrest
    refine .some (next_entry hb.done hexp hrest) ?_
    exact reads_all (hw.entry h1) (hbeside _) h2 (fun x hx => hsize x (mem_cons_of_mem _ hx)) rfl

theorem reads_part : ∀ {entries : List Entry} {w w' : Writer} {r : Reader} {more : List UInt8}, w.Counted → Beside w r →
    w.all C entries = .ok w' → (∀ e ∈ entries, e.head.size ≤ r.maxBlob) → more ≠ [] →
    r.rest ++ more = bytesOf entries ++ trailerBytes w'.entries → ∃ got chain, Reads C window r got (some chain)
  | [], w, w', r, more, hw, hb, h, _, hmore, hrest => by
    cases h
    -- the trailer's only line break is its last byte
    have hnot : Json.newline ∉ r.rest := by
      obtain ⟨init, last, rfl⟩ := eq_nil_or_concat more |>.resolve_left hmore
      rw [bytesOf, flatMap_nil, nil_append, concat_eq_append, ← append_assoc] at hrest
      have hpart := (append_inj' hrest rfl).1
      intro hm
      exact Json.newline_notMem_toVec (trailer_integral hw.word) (hpart ▸ mem_append_left _ hm)
    obtain ⟨chain, hchain⟩ := @line_error window entryLine r.rest hnot
    refine ⟨[], chain, .error ?_⟩
    rw [Reader.next, hb.done, hchain]
    rfl
  | e :: entries, w, w', r, more, hw, hb, h, hsize, hmore, hrest => by
    obtain ⟨w₁, h1, h2⟩ := writer_all_cons.1 h
    obtain ⟨hexp, hbeside⟩ := hb.expects h1 (hsize e mem_cons_self)
    rw [bytesOf, flatMap_cons, append_assoc] at hrest
    rcases append_eq_append_iff.1 hrest with ⟨t, ht, -⟩ | ⟨t, ht, hpart⟩
    · by_cases hnil : t = []
      · rw [hnil, append_nil] at ht
        obtain ⟨got, chain, hreads⟩ := @reads_part entries w₁ w' ⟨[], r.maxBlob, r.entries + 1, insert e.key r.seen, false⟩
          (bytesOf entries ++ trailerBytes w'.entries) (hw.entry h1) (hbeside _) h2
          (fun x hx => hsize x (mem_cons_of_mem _ hx)) (by simp [trailerBytes]) rfl
        exact ⟨_, chain, .some (next_entry hb.done hexp (by rw [ht, append_nil])) hreads⟩
      · obtain ⟨chain, hchain⟩ := next_entry_part hb.done hexp hnil ht.symm
        exact ⟨[], chain, .error hchain⟩
    · obtain ⟨got, chain, hreads⟩ := @reads_part entries w₁ w' ⟨t, r.maxBlob, r.entries + 1, insert e.key r.seen, false⟩
        more (hw.entry h1) (hbeside _) h2 (fun x hx => hsize x (mem_cons_of_mem _ hx)) hmore hpart.symm
      exact ⟨_, chain, .some (next_entry hb.done hexp ht) hreads⟩

theorem Reads.det {r : Reader} {a b : List Entry} {f g : Option Chain} (h : Reads C window r a f)
    (h' : Reads C window r b g) : a = b ∧ f = g := by
  induction h generalizing b g with
  | none hnext =>
    cases h' with
    | none => exact ⟨rfl, rfl⟩
    | some hnext' => rw [hnext] at hnext'; cases hnext'
    | error hnext' => rw [hnext] at hnext'; cases hnext'
  | some hnext _ ih =>
    cases h' with
    | none hnext' => rw [hnext] at hnext'; cases hnext'
    | some hnext' hreads =>
      rw [hnext] at hnext'
      cases hnext'
      obtain ⟨rfl, rfl⟩ := ih hreads
      exact ⟨rfl, rfl⟩
    | error hnext' => rw [hnext] at hnext'; cases hnext'
  | error hnext =>
    cases h' with
    | none hnext' => rw [hnext] at hnext'; cases hnext'
    | some hnext' => rw [hnext] at hnext'; cases hnext'
    | error hnext' => rw [hnext] at hnext'; cases hnext'; exact ⟨rfl, rfl⟩

theorem Imports.det {input : List UInt8} {a b : List Entry} {f g : Option Chain} (h : Imports C window maxBlob input a f)
    (h' : Imports C window maxBlob input b g) : a = b ∧ f = g := by
  cases h with
  | header hnew =>
    cases h' with
    | header hnew' => rw [hnew] at hnew'; cases hnew'; exact ⟨rfl, rfl⟩
    | entries hnew' => rw [hnew] at hnew'; cases hnew'
  | entries hnew hreads =>
    cases h' with
    | header hnew' => rw [hnew] at hnew'; cases hnew'
    | entries hnew' hreads' =>
      rw [hnew] at hnew'
      cases hnew'
      exact hreads.det hreads'

end runs

def Writer.first (created : UInt64) : Writer := ⟨(headerJson created).toVec ++ [Json.newline], 0, ∅⟩

theorem writer_new (created : UInt64) (entries : List Entry) :
    (Writer.new created >>= fun w => w.all C entries) = (Writer.first created).all C entries := by
  rw [Writer.new, jsonLine, if_pos (header_fits created)]
  rfl

/-- **An export reads back as what was written**: the entries that the writer accepted and then no more, however the
bytes are buffered; every part of the bytes, and everything longer that begins with them, ends in an error. -/
theorem export_reads_back (C : Crates) (created : UInt64) (entries : List Entry) (maxBlob : Nat) (w : Writer)
    (hsize : ∀ e ∈ entries, e.head.size ≤ maxBlob) (hw : (Writer.new created >>= fun w => w.all C entries) = .ok w) :
    ∃ bytes, w.finish = .ok bytes ∧ ∀ window, Imports C window maxBlob bytes entries none ∧
      (∀ part more, part ++ more = bytes → more ≠ [] →
        (∃ got chain, Imports C window maxBlob part got (some chain)) ∧ ∀ got, ¬ Imports C window maxBlob part got none) ∧
      ∀ extra, extra ≠ [] → (∃ got chain, Imports C window maxBlob (bytes ++ extra) got (some chain)) ∧
        ∀ got, ¬ Imports C window maxBlob (bytes ++ extra) got none := by
  rw [writer_new] at hw
  have hcounted : (Writer.first created).Counted := ⟨rfl, Nat.zero_le _⟩
  have hbeside : ∀ rest, Beside (Writer.first created) ⟨rest, maxBlob, 0, ∅, false⟩ := fun _ => ⟨rfl, rfl, rfl⟩
  have hbytes : w.output ++ trailerBytes w.entries
      = (headerJson created).toVec ++ Json.newline :: (bytesOf entries ++ trailerBytes w.entries) := by
    rw [writer_all_output hw, Writer.first]
    simp
  have herror : ∀ {window : Nat → Nat} {input : List UInt8}, (∃ got chain, Imports C window maxBlob input got (some chain)) →
      (∃ got chain, Imports C window maxBlob input got (some chain)) ∧ ∀ got, ¬ Imports C window maxBlob input got none := by
    rintro window input ⟨got, chain, h⟩
    refine ⟨⟨got, chain, h⟩, fun got' h' => ?_⟩
    cases (h.det h').2
  refine ⟨w.output ++ trailerBytes w.entries, if_pos (trailer_fits (hcounted.all hw).word), fun window => ⟨?_, ?_, ?_⟩⟩
  · rw [hbytes]
    refine .entries (reader_new created maxBlob _) ?_
    have := @reads_all C window entries _ w ⟨_, maxBlob, 0, ∅, false⟩ [] hcounted (hbeside _) hw hsize
      (by rw [append_nil])
    simpa using this
  · intro part more hpart hmore
    refine herror ?_
    rw [hbytes] at hpart
    have hnot := Json.newline_notMem_toVec (header_integral created)
    -- the input ends in the header line, or a reader is opened
    have hcut : Json.newline ∉ part → ∃ got chain, Imports C window maxBlob part got (some chain) := by
      intro hn
      obtain ⟨chain, hchain⟩ := @line_error window headerLine part hn
      exact ⟨[], chain, .header (by rw [Reader.new, hchain]; rfl)⟩
    rcases append_eq_append_iff.1 hpart with ⟨t, ht, -⟩ | ⟨t, ht, hrest⟩
    · exact hcut (fun hm => hnot (ht ▸ mem_append_left _ hm))
    · cases t with
      | nil => exact hcut (by rw [ht, append_nil]; exact hnot)
      | cons c rest =>
        obtain ⟨rfl, htail⟩ := cons.inj hrest
        obtain ⟨got, chain, hreads⟩ := @reads_part C window entries _ w ⟨rest, maxBlob, 0, ∅, false⟩ more hcounted
          (hbeside _) hw hsize hmore htail.symm
        rw [ht]
        exact ⟨got, chain, .entries (reader_new created maxBlob rest) hreads⟩
  · intro extra hextra
    refine herror ⟨entries, ["escrow import: trailing bytes after trailer"], ?_⟩
    rw [hbytes, append_assoc, cons_append, append_assoc]
    refine .entries (reader_new created maxBlob _) ?_
    have := @reads_all C window entries _ w ⟨_, maxBlob, 0, ∅, false⟩ extra hcounted (hbeside _) hw hsize rfl
    rwa [if_neg hextra] at this

def noteEntry : Entry := ⟨"notes", noteHead, noteManifest, noteBlob⟩

theorem export_reads_back_note : ∃ w, (Writer.new 7 >>= fun w => w.all noteCrates [noteEntry]) = .ok w ∧
    ∃ bytes, w.finish = .ok bytes ∧ Imports noteCrates (fun _ => 0) 4 bytes [noteEntry] none := by
  have hacc : noteEntry.Accepted noteCrates := ⟨by decide +kernel, by decide +kernel, by decide +kernel⟩
  have hentry : ∀ w : Writer, w.seen = ∅ → ∃ w', w.entry noteCrates noteEntry = .ok w' := fun w hs =>
    ⟨_, writer_entry_eq_ok.2 ⟨hacc, by rw [hs]; exact Finset.notMem_empty _, by rw [hs]; decide, rfl⟩⟩
  obtain ⟨w, hw⟩ := hentry (Writer.first 7) rfl
  have hall : (Writer.new 7 >>= fun w => w.all noteCrates [noteEntry]) = .ok w := by
    rw [writer_new]
    exact writer_all_cons.2 ⟨w, hw, rfl⟩
  obtain ⟨bytes, hfinish, hread⟩ := export_reads_back noteCrates 7 [noteEntry] 4 w
    (fun e he => by rw [mem_singleton.1 he]; decide) hall
  exact ⟨w, hall, bytes, hfinish, (hread (fun _ => 0)).1⟩

end Portable
end Mistl.Escrow
