import Mistl.Lib.JsonLine
import Mistl.WiresignCanon
import Mistl.Lib.Checks
/-!
# NostrEvent — events, their kinds and tags, and their JSON

`event.rs`: an event has an id, an author, a time, a kind, tags, a content and a signature.  `parse` checks the shape
of each field; `verify` checks the id and the signature.
-/
open List Mistl.Json Option

namespace Mistl.Nostr

structure Event where
  id : String
  pubkey : String
  createdAt : Nat
  kind : Nat
  tags : List (List String)
  content : String
  sig : String
  deriving DecidableEq

inductive KindClass where
  | regular
  | replaceable
  | ephemeral
  | addressable
  deriving DecidableEq

inductive EventError where
  | shape (text : String)
  | badId
  | badSignature

def isLowerHex (value : String) (len : Nat) : Bool :=
  value.utf8ByteSize == len && value.toList.all (fun c => c.isDigit || (decide ('a' ≤ c) && decide (c ≤ 'f')))

/-- `str::parse` for an unsigned integer below `bound`. -/
def parseUnsigned (bound : Nat) (text : List Char) : Option Nat := let digits := match text with
    | '+' :: rest => rest
    | _ => text
  if digits = [] ∨ digits.all Char.isDigit = false then none
  else
    let n := digits.foldl (fun n c => 10 * n + (c.toNat - 48)) 0
    if n < bound then some n else none

/-! ## Parsing -/

def stringField (value : Json) (name : String) : Except EventError String :=
  match (value.get? name).bind asStr with
  | some s => .ok s
  | none => .error (.shape (name ++ " must be a string"))

def hexField (value : Json) (name : String) (len : Nat) : Except EventError String := do
  let field ← stringField value name
  if isLowerHex field len = false then
    .error (.shape (name ++ " must be " ++ toString len ++ " lowercase hex characters"))
  else .ok field

def tagParts : List Json → Except EventError (List String)
  | [] => .ok []
  | part :: parts => do
    match part.asStr with
    | none => .error (.shape "tag values must be strings")
    | some s => .ok (s :: (← tagParts parts))

def tagList : List Json → Except EventError (List (List String))
  | [] => .ok []
  | .arr parts :: tags => do
    let tag ← tagParts parts
    .ok (tag :: (← tagList tags))
  | _ :: _ => .error (.shape "tags must be arrays of strings")

def Event.parseFields (value : Json) : Except EventError Event := do
  let id ← hexField value "id" 64
  let pubkey ← hexField value "pubkey" 64
  let sig ← hexField value "sig" 128
  let createdAt ← okOr ((value.get? "created_at").bind (asUnsigned (2 ^ 64)))
    (.shape "created_at must be a non-negative integer")
  let kind ← okOr ((value.get? "kind").bind (asUnsigned 65536)) (.shape "kind must be an integer from 0 to 65535")
  let items ← okOr ((value.get? "tags").bind asArr) (.shape "tags must be an array of string arrays")
  let tags ← tagList items
  let content ← stringField value "content"
  .ok ⟨id, pubkey, createdAt, kind, tags, content, sig⟩

def Event.parse (value : Json) : Except EventError Event :=
  match value with
  | .obj _ => Event.parseFields value
  | _ => .error (.shape "event must be an object")

namespace Event

def tagsJson (tags : List (List String)) : Json := .arr (tags.map (fun tag => .arr (tag.map .str)))

def toJson (e : Event) : Json :=
  .obj [("id", .str e.id), ("pubkey", .str e.pubkey), ("created_at", .int e.createdAt), ("kind", .int e.kind),
    ("tags", tagsJson e.tags), ("content", .str e.content), ("sig", .str e.sig)]

def canonicalJson (e : Event) : List Char :=
  (Json.arr [.int 0, .str e.pubkey, .int e.createdAt, .int e.kind, tagsJson e.tags, .str e.content]).write

def computeId (C : Crates) (e : Event) : String := C.digest (utf8 e.canonicalJson)

/-- `Event::verify`, `schnorr` being `verify_schnorr`: key, message and signature in hex. -/
def verify (C : Crates) (schnorr : String → String → String → Bool) (e : Event) : Except EventError Unit :=
  if e.computeId C ≠ e.id then .error .badId
  else if schnorr e.pubkey e.id e.sig = false then .error .badSignature
  else .ok ()

def kindClass (e : Event) : KindClass :=
  if e.kind = 0 ∨ e.kind = 3 ∨ (10000 ≤ e.kind ∧ e.kind < 20000) then .replaceable
  else if 20000 ≤ e.kind ∧ e.kind < 30000 then .ephemeral
  else if 30000 ≤ e.kind ∧ e.kind < 40000 then .addressable
  else .regular

def firstTag (e : Event) (name : String) : Option String := (e.tags.find? (fun tag => tag.head? == some name)).bind fun tag => tag[1]?

def dTag (e : Event) : String := (e.firstTag "d").getD ""

def tagValues (e : Event) (name : String) : List String := e.tags.filterMap fun tag => if tag.head? = some name then tag[1]? else none

def expiration (e : Event) : Option Nat := (e.firstTag "expiration").bind (fun value => parseUnsigned (2 ^ 64) value.toList)

def body (e : Event) : Event := { e with sig := "" }

/-! ## Reading an event back -/

/-- The fields are what `parse` lets through. -/
structure Shaped (e : Event) : Prop where
  id : isLowerHex e.id 64 = true
  pubkey : isLowerHex e.pubkey 64 = true
  sig : isLowerHex e.sig 128 = true
  createdAt : e.createdAt < 2 ^ 64
  kind : e.kind < 65536

theorem tagParts_str : ∀ (tag : List String), tagParts (tag.map .str) = .ok tag
  | [] => rfl
  | s :: tag => by
    rw [map_cons, tagParts, tagParts_str tag]
    rfl

theorem tagList_tags : ∀ (tags : List (List String)), tagList (tags.map (fun tag => .arr (tag.map .str))) = .ok tags
  | [] => rfl
  | tag :: tags => by
    rw [map_cons, tagList, tagParts_str, tagList_tags tags]
    rfl

theorem Shaped.parse_obj {e : Event} (h : e.Shaped) {fields : List (String × Json)}
    (hid : (Json.obj fields).get? "id" = some (.str e.id)) (hpubkey : (Json.obj fields).get? "pubkey" = some (.str e.pubkey))
    (hcreated : (Json.obj fields).get? "created_at" = some (.int e.createdAt))
    (hkind : (Json.obj fields).get? "kind" = some (.int e.kind))
    (htags : (Json.obj fields).get? "tags" = some (tagsJson e.tags))
    (hcontent : (Json.obj fields).get? "content" = some (.str e.content))
    (hsig : (Json.obj fields).get? "sig" = some (.str e.sig)) : Event.parse (.obj fields) = .ok e := by
  have hstring : ∀ {name s : String}, (Json.obj fields).get? name = some (.str s) → stringField (.obj fields) name = .ok s := by
    intro name s hget
    rw [stringField, hget]
    rfl
  have hhex : ∀ {name s : String} {len : Nat}, (Json.obj fields).get? name = some (.str s) → isLowerHex s len = true →
      hexField (.obj fields) name len = .ok s := by
    intro name s len hget hlower
    rw [hexField, hstring hget]
    simp only [bind, Except.bind, hlower, Bool.true_eq_false, if_false]
  have hcreated' : ((Json.obj fields).get? "created_at").bind (asUnsigned (2 ^ 64)) = some e.createdAt := by
    rw [hcreated, bind_some, asUnsigned, if_pos ⟨Int.natCast_nonneg _, h.createdAt⟩, Int.toNat_natCast]
  have hkind' : ((Json.obj fields).get? "kind").bind (asUnsigned 65536) = some e.kind := by
    rw [hkind, bind_some, asUnsigned, if_pos ⟨Int.natCast_nonneg _, h.kind⟩, Int.toNat_natCast]
  have htags' : ((Json.obj fields).get? "tags").bind asArr = some (e.tags.map (fun tag => .arr (tag.map .str))) := by
    rw [htags]
    rfl
  show Event.parseFields (.obj fields) = .ok e
  rw [Event.parseFields, hhex hid h.id, hhex hpubkey h.pubkey, hhex hsig h.sig, hcreated', hkind', htags', hstring hcontent]
  simp only [bind, Except.bind, okOr, tagList_tags]

theorem Shaped.parse {e : Event} (h : e.Shaped) : Event.parse e.toJson = .ok e := h.parse_obj rfl rfl rfl rfl rfl rfl rfl

theorem integral_strings : ∀ (tag : List String), IntegralItems (tag.map .str)
  | [] => by trivial
  | s :: tag => by exact ⟨trivial, integral_strings tag⟩

theorem integral_tags : ∀ (tags : List (List String)), IntegralItems (tags.map (fun tag => .arr (tag.map .str)))
  | [] => by trivial
  | tag :: tags => by
    exact ⟨integral_strings tag, integral_tags tags⟩

theorem nesting_strings : ∀ (tag : List String), nestingItems (tag.map .str) = 0
  | [] => rfl
  | s :: tag => by rw [map_cons, nestingItems, nesting_strings tag]; rfl

theorem nesting_tags : ∀ (tags : List (List String)), nestingItems (tags.map (fun tag => .arr (tag.map .str))) ≤ 1
  | [] => Nat.zero_le _
  | tag :: tags => by
    rw [map_cons, nestingItems, nesting, nesting_strings]
    exact max_le le_rfl (nesting_tags tags)

theorem integral_nat {n : Nat} (h : n < 2 ^ 64) : Integral (.int n) := by
  constructor
  · exact le_trans (by decide) (Int.natCast_nonneg n)
  · exact_mod_cast h

theorem Shaped.integral {e : Event} (h : e.Shaped) : Integral e.toJson := by
  have h1 := integral_nat h.createdAt
  have h2 := integral_nat (lt_of_lt_of_le h.kind (by decide : 65536 ≤ 2 ^ 64))
  exact ⟨trivial, trivial, h1, h2, integral_tags _, trivial, trivial, trivial⟩

theorem nesting_toJson (e : Event) : nesting e.toJson ≤ 3 := by
  have := nesting_tags e.tags
  simp only [toJson, tagsJson, nesting, nestingFields]
  omega

theorem Shaped.canonicalJson_inj {e f : Event} (he : e.Shaped) (hf : f.Shaped) (h : e.canonicalJson = f.canonicalJson) :
    e.pubkey = f.pubkey ∧ e.createdAt = f.createdAt ∧ e.kind = f.kind ∧ e.tags = f.tags ∧ e.content = f.content := by
  have hrepr : ∀ e : Event, e.Shaped → Json.Repr (.arr [.int 0, .str e.pubkey, .int e.createdAt, .int e.kind,
      tagsJson e.tags, .str e.content]) := by
    intro e he
    have hkind : e.kind < 2 ^ 64 := lt_of_lt_of_le he.kind (by decide)
    have hzero : Integral (.int 0) := integral_nat (n := 0) (by decide)
    have htags : Integral (tagsJson e.tags) := by
      exact integral_tags _
    have h0 := hzero.repr
    have h1 := (integral_nat he.createdAt).repr
    have h2 := (integral_nat hkind).repr
    exact ⟨h0, trivial, h1, h2, htags.repr, trivial, trivial⟩
  have hj := write_inj (hrepr e he) (hrepr f hf) h
  simp only [Json.arr.injEq, cons.injEq, Json.str.injEq, Json.int.injEq, Nat.cast_inj, tagsJson, and_true, true_and] at hj
  obtain ⟨h1, h2, h3, h4, h5⟩ := hj
  have hinner : Function.Injective (fun tag : List String => Json.arr (tag.map Json.str)) := by
    intro a b hab
    exact map_injective_iff.2 (fun _ _ => Json.str.inj) (Json.arr.inj hab)
  exact ⟨h1, h2, h3, map_injective_iff.2 hinner h4, h5⟩

/-- **One id, one body**: verified events with the same id differ in their signatures at most, where no two of their
texts have the same digest. -/
theorem body_of_id {C : Crates} {schnorr : String → String → String → Bool} {D : Set (List UInt8)}
    (hD : Set.InjOn C.digest D) {e f : Event} (he : e.Shaped) (hf : f.Shaped) (hve : e.verify C schnorr = .ok ())
    (hvf : f.verify C schnorr = .ok ()) (hde : utf8 e.canonicalJson ∈ D) (hdf : utf8 f.canonicalJson ∈ D)
    (hid : e.id = f.id) : e.body = f.body := by
  have hcompute : ∀ g : Event, g.verify C schnorr = .ok () → g.computeId C = g.id := by
    intro g hg
    unfold verify at hg
    split at hg
    · cases hg
    · rename_i hne
      exact not_not.1 hne
  have hdig : C.digest (utf8 e.canonicalJson) = C.digest (utf8 f.canonicalJson) :=
    (hcompute e hve).trans (hid.trans (hcompute f hvf).symm)
  obtain ⟨h1, h2, h3, h4, h5⟩ := he.canonicalJson_inj hf (Wiresign.utf8_inj (hD hde hdf hdig))
  rw [body, body, hid, h1, h2, h3, h4, h5]

end Event
end Mistl.Nostr
