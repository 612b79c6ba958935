import Mistl.Lib.Machine
import Mistl.Lib.Serde
import Mistl.Wiresign
/-!
# EscrowProtocol — signed heads, deletions and replies

`escrow/protocol.rs`: the head of a slot, its deletion request, the error a request is answered with and the
compare-and-swap rule `checkCas`.
-/
open Mistl.Json Option

namespace Mistl

namespace Escrow

/-- `MAX_SAFE`: the largest integer a JSON number carries exactly. -/
def maxSafe : Nat := 9007199254740991

/-- The largest blob any head may announce, `1024 * 1024 * 1024`. -/
def gib : Nat := 1024 * 1024 * 1024

structure Head where
  v : Nat
  kind : String
  slot : String
  seq : Nat
  parent : Option String
  cid : String
  size : Nat
  sha256 : String
  comp : String
  schema : String
  writer : String
  at_ : Nat
  sig : String
  deriving DecidableEq

structure Delete where
  slot : String
  seq : Nat
  head : String
  sig : String
  deriving DecidableEq

/-! ## Errors -/

inductive Code where
  | badRequest | tooLarge | badSig | badSignature | writerMismatch | conflict | deleted | quota | migrating | busy
  | fetchFailed | hashMismatch | forbidden
  deriving DecidableEq

def Code.text : Code → String
  | .badRequest => "bad_request"
  | .tooLarge => "too_large"
  | .badSig => "bad_sig"
  | .badSignature => "bad_signature"
  | .writerMismatch => "writer_mismatch"
  | .conflict => "conflict"
  | .deleted => "deleted"
  | .quota => "quota"
  | .migrating => "migrating"
  | .busy => "busy"
  | .fetchFailed => "fetch_failed"
  | .hashMismatch => "hash_mismatch"
  | .forbidden => "forbidden"

structure Error where
  code : Code
  head : Option Head
  deriving DecidableEq

def Error.new (code : Code) : Error := ⟨code, none⟩

def Error.conflict (head : Head) : Error := ⟨.conflict, some head⟩

/-! ## Shapes -/

/-- A lowercase hex string of `len` bytes. -/
def hexString (value : String) (len : Nat) : Bool :=
  value.utf8ByteSize == len && value.toList.all (fun c => c.isDigit || (decide ('a' ≤ c) && decide (c ≤ 'f')))

theorem hexString_ofList {l : List Char} (h : ∀ c ∈ l, (c.isDigit || (decide ('a' ≤ c) && decide (c ≤ 'f'))) = true) :
    hexString (String.ofList l) l.length = true := by
  have hsize : (String.ofList l).utf8ByteSize = l.length := by
    rw [← length_utf8]
    induction l with
    | nil => rfl
    | cons c l ih =>
      have hc := h c List.mem_cons_self
      have h1 : c.utf8Size = 1 := by
        rw [Char.utf8Size_eq_one_iff]
        simp only [Bool.or_eq_true, Char.isDigit, Bool.and_eq_true, decide_eq_true_eq] at hc
        rcases hc with hc | hc
        · exact UInt32.le_trans hc.2 (by decide)
        · exact UInt32.le_trans hc.2 (by decide)
      rw [utf8_cons, List.length_append, utf8_singleton_length h1,
        ih (fun x hx => h x (List.mem_cons_of_mem _ hx)), List.length_cons, Nat.add_comm]
  rw [hexString, hsize, String.toList_ofList, beq_self_eq_true, Bool.true_and, List.all_eq_true]
  exact h

theorem hex_ne {l : String} {n : Nat} (h : hexString l n = true) {c : Char}
    (hc : (c.isDigit || (decide ('a' ≤ c) && decide (c ≤ 'f'))) = false) : c ∉ l.toList := by
  intro hmem
  have := List.all_eq_true.1 (Bool.and_eq_true_iff.1 h).2 c hmem
  rw [hc] at this
  cases this

theorem escapeChar_hex {c : Char} (h : (c.isDigit || (decide ('a' ≤ c) && decide (c ≤ 'f'))) = true) : escapeChar c = [c] := by
  have hne : ∀ d : Char, (d.isDigit || (decide ('a' ≤ d) && decide (d ≤ 'f'))) = false → c ≠ d := by
    rintro d hd rfl
    rw [h] at hd
    cases hd
  have hlow : 48 ≤ c.toNat := by
    simp only [Bool.or_eq_true, Char.isDigit, Bool.and_eq_true, decide_eq_true_eq] at h
    rcases h with h | h
    · exact h.1
    · exact Nat.le_trans (by decide) (h.1 : 97 ≤ c.toNat)
  unfold escapeChar
  rw [if_neg (hne _ rfl), if_neg (hne _ rfl), if_neg (hne _ rfl), if_neg (hne _ rfl), if_neg (hne _ rfl), if_neg (hne _ rfl),
    if_neg (hne _ rfl), if_neg (by omega)]

theorem stringSize_hex {text : String} {len : Nat} (h : hexString text len = true) : stringSize text = len + 2 := by
  rw [hexString, Bool.and_eq_true, beq_iff_eq, List.all_eq_true] at h
  rw [stringSize_plain (fun c hc => escapeChar_hex (h.2 c hc)), h.1]

/-- The last four hexadecimal digits of a number, after `pad` zeros -/
def hexPad (pad n : Nat) : String := String.ofList (List.replicate pad '0' ++
    [(n / 4096 % 16).digitChar, (n / 256 % 16).digitChar, (n / 16 % 16).digitChar, (n % 16).digitChar])

theorem hexString_hexPad (pad n : Nat) : hexString (hexPad pad n) (pad + 4) = true := by
  have hdigit : ∀ m < 16, (m.digitChar.isDigit || (decide ('a' ≤ m.digitChar) && decide (m.digitChar ≤ 'f'))) = true := by
    decide
  have hlen : pad + 4 = (List.replicate pad '0' ++
      [(n / 4096 % 16).digitChar, (n / 256 % 16).digitChar, (n / 16 % 16).digitChar, (n % 16).digitChar]).length := by simp
  rw [hexPad, hlen]
  refine hexString_ofList (fun c hc => ?_)
  simp only [List.mem_append, List.mem_replicate, List.mem_cons, List.not_mem_nil, or_false] at hc
  rcases hc with ⟨-, rfl⟩ | rfl | rfl | rfl | rfl
  · decide
  all_goals exact hdigit _ (Nat.mod_lt _ (by decide))

theorem hexPad_inj {pad a b : Nat} (ha : a < 65536) (hb : b < 65536) (h : hexPad pad a = hexPad pad b) : a = b := by
  have hdigit : ∀ a < 16, ∀ b < 16, a.digitChar = b.digitChar → a = b := by decide
  have hlist := congrArg String.toList h
  unfold hexPad at hlist
  rw [String.toList_ofList, String.toList_ofList] at hlist
  simp only [List.append_cancel_left_eq, List.cons.injEq, and_true] at hlist
  obtain ⟨h1, h2, h3, h4⟩ := hlist
  have e1 := hdigit _ (Nat.mod_lt _ (by decide)) _ (Nat.mod_lt _ (by decide)) h1
  have e2 := hdigit _ (Nat.mod_lt _ (by decide)) _ (Nat.mod_lt _ (by decide)) h2
  have e3 := hdigit _ (Nat.mod_lt _ (by decide)) _ (Nat.mod_lt _ (by decide)) h3
  have e4 := hdigit _ (Nat.mod_lt _ (by decide)) _ (Nat.mod_lt _ (by decide)) h4
  omega

def optStr : Option String → Json
  | none => .null
  | some s => .str s

def Head.toJson (h : Head) : Json :=
  .obj [("v", .int h.v), ("type", .str h.kind), ("slot", .str h.slot), ("seq", .int h.seq), ("parent", optStr h.parent),
    ("cid", .str h.cid), ("size", .int h.size), ("sha256", .str h.sha256), ("comp", .str h.comp),
    ("schema", .str h.schema), ("writer", .str h.writer), ("at", .int h.at_), ("sig", .str h.sig)]

def headNames : List String := ["v", "type", "slot", "seq", "parent", "cid", "size", "sha256", "comp", "schema", "writer", "at", "sig"]

def removeField (key : String) : Json → Json
  | .obj fields => .obj (fields.filter (fun f => f.1 != key))
  | j => j

def Head.signingPayload (h : Head) : List UInt8 :=
  utf8 ("tc-escrow/v1/head\n".toList ++ Wiresign.stableStringify (removeField "sig" h.toJson))

variable (C : Crates)

def Head.hash (h : Head) : String := C.digest (utf8 (Wiresign.stableStringify h.toJson))

def Head.validate (h : Head) (maxBlob : Nat) : Except Error Unit :=
  if h.v ≠ 1 ∨ h.kind ≠ "tc-escrow-head" ∨ hexString h.slot 32 = false ∨ h.seq = 0 ∨ maxSafe < h.seq
      ∨ maxSafe < h.at_ ∨ (h.parent.any (fun p => !hexString p 64)) = true ∨ C.isValidCid h.cid = false
      ∨ hexString h.sha256 64 = false ∨ (h.comp ≠ "none" ∧ h.comp ≠ "gzip") ∨ h.schema.utf8ByteSize = 0
      ∨ 256 < h.schema.utf8ByteSize ∨ h.writer.utf8ByteSize ≠ 43 ∨ h.sig.utf8ByteSize ≠ 86 then
    .error (.new .badRequest)
  else if maxBlob < h.size then .error (.new .tooLarge)
  else .ok ()

/-- A signature by the key `writer` spells, over `payload`. -/
def signedBy (writer sig : String) (payload : List UInt8) : Bool :=
  match C.b64Decode writer, C.b64Decode sig with
  | some key, some sig => key.length == 32 && sig.length == 64 && C.verifyStrict key payload sig
  | _, _ => false

def Head.verify (h : Head) : Except Error Unit := if signedBy C h.writer h.sig h.signingPayload then .ok () else .error (.new .badSig)

def Head.ack (h : Head) (id : String) : Json :=
  .obj [("v", .int 1), ("type", .str "escrow_ack"), ("id", .str id), ("slot", .str h.slot), ("seq", .int h.seq),
    ("hash", .str (h.hash C))]

def Delete.validate (d : Delete) : Except Error Unit :=
  if hexString d.slot 32 = false ∨ d.seq = 0 ∨ maxSafe < d.seq ∨ hexString d.head 64 = false
      ∨ d.sig.utf8ByteSize ≠ 86 then
    .error (.new .badRequest)
  else .ok ()

def Delete.signingPayload (d : Delete) : List UInt8 := utf8 ("tc-escrow/v1/delete\n".toList ++
    Wiresign.stableStringify (.obj [("slot", .str d.slot), ("seq", .int d.seq), ("head", .str d.head)]))

def Delete.verify (d : Delete) (writer : String) : Except Error Unit :=
  if signedBy C writer d.sig d.signingPayload then .ok () else .error (.new .badSignature)

def Delete.reply (d : Delete) (id : String) : Json :=
  .obj [("v", .int 1), ("type", .str "escrow_deleted"), ("id", .str id), ("slot", .str d.slot)]

/-- `Error::reply`: a conflict or a deletion carries the head it is about. -/
def Error.reply (e : Error) (id : String) : Json :=
  .obj ([("v", .int 1), ("type", .str "escrow_error"), ("id", .str id), ("code", .str e.code.text), ("message", .str e.code.text)] ++
    if e.code = .conflict ∨ e.code = .deleted then [("head", match e.head with | none => .null | some h => h.toJson)]
    else [])

/-- `check_cas`: `ok true` is an idempotent PUT of the current head, `ok false` a head that extends it. -/
def checkCas (head : Head) (current : Option Head) : Except Error Bool :=
  match current with
  | some current =>
    if head.writer ≠ current.writer then .error (.new .writerMismatch)
    else if head = current then .ok true
    else if head.parent ≠ some (current.hash C) ∨ head.seq ≠ current.seq + 1 then .error (.conflict current)
    else .ok false
  | none => if head.parent.isSome then .error (.new .conflict) else .ok false

/-! ## What the checks establish -/

/-- A head that passed its checks: its shape up to `maxBlob`, and its signature. -/
structure Head.Valid (h : Head) (maxBlob : Nat) : Prop where
  v_eq : h.v = 1
  kind_eq : h.kind = "tc-escrow-head"
  slot_hex : hexString h.slot 32 = true
  seq_pos : 0 < h.seq
  seq_le : h.seq ≤ maxSafe
  at_le : h.at_ ≤ maxSafe
  parent_hex : ∀ p, h.parent = some p → hexString p 64 = true
  cid_valid : C.isValidCid h.cid = true
  sha_hex : hexString h.sha256 64 = true
  comp_eq : h.comp = "none" ∨ h.comp = "gzip"
  schema_pos : h.schema.utf8ByteSize ≠ 0
  schema_le : h.schema.utf8ByteSize ≤ 256
  writer_len : h.writer.utf8ByteSize = 43
  sig_len : h.sig.utf8ByteSize = 86
  size_le : h.size ≤ maxBlob
  signed : h.verify C = .ok ()

variable {h : Head}

theorem Head.valid_of_checks {maxBlob : Nat} (hv : h.validate C maxBlob = .ok ())
    (hs : h.verify C = .ok ()) : h.Valid C maxBlob := by
  unfold Head.validate at hv
  split at hv
  · cases hv
  · rename_i hn
    split at hv
    · cases hv
    · rename_i hsize
      simp only [not_or, not_and_or, not_not, Bool.not_eq_false, Nat.not_lt, any_eq_true, Bool.not_eq_true'] at hn
      obtain ⟨h1, h2, h3, h4, h5, h6, h7, h8, h9, h10, h11, h12, h13, h14⟩ := hn
      refine ⟨h1, h2, h3, Nat.pos_of_ne_zero h4, h5, h6, fun p hp => ?_, h8, h9, h10, h11, h12, h13, h14, Nat.not_lt.1 hsize, hs⟩
      cases hx : hexString p 64 with
      | true => rfl
      | false => exact absurd ⟨p, hp, hx⟩ h7

theorem Head.Valid.validate {maxBlob bound : Nat} (hv : h.Valid C maxBlob) (hb : h.size ≤ bound) : h.validate C bound = .ok () := by
  unfold Head.validate
  rw [if_neg, if_neg (Nat.not_lt.2 hb)]
  simp only [not_or, not_and_or, not_not, Bool.not_eq_false, Nat.not_lt, any_eq_true]
  refine ⟨hv.v_eq, hv.kind_eq, hv.slot_hex, Nat.pos_iff_ne_zero.1 hv.seq_pos, hv.seq_le, hv.at_le, ?_, hv.cid_valid,
    hv.sha_hex, hv.comp_eq, hv.schema_pos, hv.schema_le, hv.writer_len, hv.sig_len⟩
  rintro ⟨p, hp, hx⟩
  rw [hv.parent_hex p hp] at hx
  cases hx

theorem Head.Valid.mono {maxBlob bound : Nat} (hv : h.Valid C maxBlob) (hb : maxBlob ≤ bound) :
    h.Valid C bound := { hv with size_le := hv.size_le.trans hb }

/-- **A head that extends the current one**: the same writer, the next sequence number, its hash as parent. -/
structure Extends (next current : Head) : Prop where
  writer : next.writer = current.writer
  seq : next.seq = current.seq + 1
  parent : next.parent = some (current.hash C)

theorem Extends.ne {next current : Head} (h : Extends C next current) : next ≠ current := by
  rintro rfl
  have := h.seq
  omega

theorem checkCas_false {head current : Head} (h : checkCas C head (some current) = .ok false) : Extends C head current := by
  unfold checkCas at h
  split at h
  · rename_i hc; cases hc
    split at h
    · cases h
    · rename_i hw
      split at h
      · cases h
      · split at h
        · cases h
        · rename_i hp
          rw [not_or, not_not, not_not] at hp
          exact ⟨not_not.1 hw, hp.2, hp.1⟩
  · rename_i hc; cases hc

theorem checkCas_true {head current : Head} (h : checkCas C head (some current) = .ok true) : head = current := by
  unfold checkCas at h
  split at h
  · rename_i hc; cases hc
    split at h
    · cases h
    · split at h
      · assumption
      · split at h <;> cases h
  · rename_i hc; cases hc

theorem Extends.checkCas {next current : Head} (h : Extends C next current) : checkCas C next (some current) = .ok false := by
  simp [Escrow.checkCas, h.writer, h.seq, h.parent, h.ne]

/-! ## The text of a head -/

def Head.document (h : Head) : List UInt8 := utf8 (Wiresign.stableStringify h.toJson)

def Head.sorted (h : Head) : Json := .obj [("at", .int h.at_), ("cid", .str h.cid), ("comp", .str h.comp), ("parent", optStr h.parent),
    ("schema", .str h.schema), ("seq", .int h.seq), ("sha256", .str h.sha256), ("sig", .str h.sig), ("size", .int h.size),
    ("slot", .str h.slot), ("type", .str h.kind), ("v", .int h.v), ("writer", .str h.writer)]

theorem sort_headNames : (List.range 13).insertionSort (fun i j => decide (headNames.getD i "" ≤ headNames.getD j "") = true)
      = [11, 5, 8, 4, 9, 3, 7, 12, 6, 2, 1, 0, 10] := by decide

theorem Head.stableStringify_toJson (h : Head) : Wiresign.stableStringify h.toJson = h.sorted.write := by
  have hp : Wiresign.stableStringify (optStr h.parent) = (optStr h.parent).write := by
    cases h.parent <;> simp [optStr, Wiresign.stableStringify, Json.write]
  rw [Head.toJson]
  simp only [Wiresign.stableFields, Wiresign.stableStringify]
  generalize Wiresign.stableStringify (optStr h.parent) = p at *
  let values : List (List Char) := [writeInt h.v, writeString h.kind, writeString h.slot,
    writeInt h.seq, p, writeString h.cid, writeInt h.size, writeString h.sha256,
    writeString h.comp, writeString h.schema, writeString h.writer, writeInt h.at_,
    writeString h.sig]
  have hsort := List.map_insertionSort (fun i j => decide (headNames.getD i "" ≤ headNames.getD j "") = true)
    (fun a b => Wiresign.keyLe a b = true) (fun i => (headNames.getD i "", values.getD i [])) (List.range 13)
    (fun _ _ _ _ => Iff.rfl)
  have hmap : (List.range 13).map (fun i => (headNames.getD i "", values.getD i [])) = headNames.zip values := rfl
  rw [sort_headNames, hmap] at hsort
  show _ :: (Wiresign.join (((headNames.zip values).insertionSort _).map _) ++ _) = _
  rw [← hsort]
  simp [Head.sorted, Json.write, writeFields, Wiresign.join, headNames, values, hp]

variable {C}

theorem Head.Valid.repr (hv : h.Valid C gib) : Json.Repr h.toJson := by
  have hp : Json.Repr (optStr h.parent) := by
    cases h.parent <;> (trivial)
  have hint : ∀ n : Nat, n < 2 ^ 64 → Json.Repr (.int n) := by
    intro n hn
    rw [Json.Repr]
    omega
  have hstr : ∀ x : String, Json.Repr (.str x) := fun x => by trivial
  have h2 : h.seq < 2 ^ 64 := lt_of_le_of_lt hv.seq_le (by decide)
  have h3 : h.size < 2 ^ 64 := lt_of_le_of_lt hv.size_le (by decide)
  have h4 : h.at_ < 2 ^ 64 := lt_of_le_of_lt hv.at_le (by decide)
  rw [Head.toJson, Json.Repr]
  simp only [ReprFields, hstr, hp, hint h.v (by rw [hv.v_eq]; decide), hint _ h2, hint _ h3, hint _ h4, and_true]

theorem nesting_head (h : Head) : nesting h.toJson = 1 := by
  have hp : nesting (optStr h.parent) = 0 := by
    cases h.parent <;> rw [optStr, nesting]
  rw [Head.toJson]
  simp [nestingFields, nesting, hp]

theorem Head.document_inj {h k : Head} (hh : h.Valid C gib) (hk : k.Valid C gib) (he : h.document = k.document) : h = k := by
  have hparse : ∀ x : Head, x.Valid C gib → fromSlice x.document = some x.sorted := by
    intro x hx
    have hr := hx.repr
    have hn := nesting_head x
    rw [Head.toJson, Json.Repr] at hr
    rw [Head.toJson] at hn
    rw [Head.document, Head.stableStringify_toJson]
    refine fromSlice_toVec x.sorted ?_ ?_
    · rw [Head.sorted, Json.Repr]
      simp only [ReprFields] at hr ⊢
      tauto
    · rw [Head.sorted]
      simp only [nestingFields, nesting, maxDepth] at hn ⊢
      omega
  have hsorted : h.sorted = k.sorted := by
    have := hparse k hk
    rw [← he, hparse h hh] at this
    exact Option.some.inj this
  have hparent : optStr h.parent = optStr k.parent → h.parent = k.parent := by
    cases h.parent <;> cases k.parent <;> simp [optStr]
  obtain ⟨⟩ := h
  obtain ⟨⟩ := k
  simp only [Head.sorted, Json.obj.injEq, List.cons.injEq, Prod.mk.injEq, Json.int.injEq, Json.str.injEq, Nat.cast_inj] at hsorted
  simp only [Head.mk.injEq]
  tauto

theorem Head.hash_inj {D : Set (List UInt8)} (hD : Set.InjOn C.digest D) {h k : Head} (hh : h.Valid C gib)
    (hk : k.Valid C gib) (hhD : h.document ∈ D) (hkD : k.document ∈ D) (he : h.hash C = k.hash C) : h = k :=
  Head.document_inj hh hk (hD hhD hkD he)

/-- A first head of a slot, for concrete runs: the head of the four bytes `note`, signed. -/
def noteHead : Head where
  v := 1
  kind := "tc-escrow-head"
  slot := "aaaaaaaaaaaaaaaaaaaaaaaaaaaaaaaa"
  seq := 1
  parent := none
  cid := "bafyreiezo4u2ziubmhi3yvl5vun52jzwfdr2kgxgvrpsdlof5xngcnmkd4"
  size := 4
  sha256 := "edb465624291e4053c6c5ea4b7eb320dec773e10a57d26b95dcf0564f8e310f8"
  comp := "none"
  schema := "notes"
  writer := "A6EHv_POEL4dcN0Y50vAmWfk1jCbpQ1fHdyGZBJVMbg"
  at_ := 7
  sig := "6WRinRJ5xABCTA1ts2AIAjcmo97piRlYtdYrzke-OjHQJZ0DuTLTp2CzT4Brz5J0oJ9y7Yr2yGZxQjB-qVb7Ag"

def noteHash : String := "ab265aafc44e351f791637402cecfbfe9e8fa979d27348995a4491ce19f783b3"

def noteDelete : Delete where
  slot := "aaaaaaaaaaaaaaaaaaaaaaaaaaaaaaaa"
  seq := 1
  head := noteHash
  sig := "K2glSb52Tv-jT3nk1Z_ySx9HkSl-vT3cEuL16RR26A8htJOzQ1h_2GyYMMnK6mVHP3qQvLF79i9HCez7iwnqAg"

end Escrow
end Mistl
