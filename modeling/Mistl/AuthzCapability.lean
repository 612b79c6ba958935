import Mistl.AuthzUsage
import Mistl.EscrowContent
import Mistl.Lib.Checks
/-!
# AuthzCapability — signed chains of grants

`authz/capability.rs`.  A capability is at most three links deep and verified link by link from the leaf to the root.
`Narrows` is an order, so what is checked of neighbours holds of every ancestor.
-/
open List Mistl.Json

namespace Mistl.Authz

inductive Action where
  | infer | read | write
  deriving DecidableEq

/-- `capability::Error` -/
inductive CapError where
  | oversize | depth | shape | signature | time | audience | coverage | verifier | attenuation | untrustedRoot | revoked
  deriving DecidableEq

/-- `Error`'s `Display` -/
def CapError.text : CapError → String
  | .oversize => "capability exceeds 8 KiB"
  | .depth => "capability chain exceeds depth 3"
  | .shape => "invalid capability shape"
  | .signature => "invalid capability signature"
  | .time => "capability expired or not yet valid"
  | .audience => "capability audience differs from verified holder"
  | .coverage => "capability does not cover request"
  | .verifier => "capability excludes this verifier"
  | .attenuation => "delegation widens parent authority"
  | .untrustedRoot => "untrusted capability root"
  | .revoked => "capability chain is revoked"

def maxBytes : Nat := 8 * 1024

def maxDepth : Nat := 3

def maxLifetimeMs : Int := 366 * 24 * 60 * 60 * 1000

def maxClockSkewMs : Int := 120000

/-- One link of a chain: a `Capability` without its parent. -/
structure Link where
  wire : Json
  id : String
  issuer : String
  aud : String
  service : Service
  actions : List Action
  resource : String
  to_ : Option (List String)
  nbf : Int
  exp : Int
  limits : Option Limits
  deriving DecidableEq

inductive Capability where
  | root (link : Link)
  | child (link : Link) (parent : Capability)
  deriving DecidableEq

namespace Capability

def leaf : Capability → Link
  | .root link => link
  | .child link _ => link

/-- `Capability::root` -/
def rootLink : Capability → Link
  | .root link => link
  | .child _ parent => parent.rootLink

def chain : Capability → List Link
  | .root link => [link]
  | .child link parent => link :: parent.chain

def containsId (cap : Capability) (id : String) : Bool := cap.chain.any fun link => link.id == id

end Capability

/-! ## Reading -/

def validId (id : String) : Bool := Escrow.hexString id 32

/-- `text.rsplit_once('/')` -/
def rsplitSlash (text : String) : Option (String × String) :=
  (splitLast '/' text.toList).map (fun p => (String.ofList p.1, String.ofList p.2))

/-- `text.strip_suffix("/*")` -/
def stripStar (text : String) : Option String := (stripSuffix ['/', '*'] text.toList).map String.ofList

def exactResource (resource : String) : Option (String × String) :=
  (rsplitSlash resource).filter fun p => Escrow.validRoom p.1 && Escrow.hexString p.2 32

def validResource (resource : String) : Bool :=
  resource == "*" || (stripStar resource).any Escrow.validRoom || (exactResource resource).isSome

def covers (parent child : String) : Bool := parent == "*" || parent == child ||
    (stripStar parent).any (fun room => (rsplitSlash child).any (fun p => p.1 == room))

/-- An enumeration without data: the name of the variant, or an object that maps it to null. -/
def readVariant {α : Type} (names : List (String × α)) : Json → Option α
  | .str s => names.lookup s
  | .obj [(s, .null)] => names.lookup s
  | _ => none

def readService : Json → Option Service := readVariant [("ai", .ai), ("escrow", .escrow)]

def readAction : Json → Option Action := readVariant [("infer", .infer), ("read", .read), ("write", .write)]

def readPeriod : Json → Option Period := readVariant [("day", .day), ("month", .month), ("total", .total)]

def readList {α : Type} (read : Json → Option α) : Json → Option (List α)
  | .arr items => items.mapM read
  | _ => none

/-- A field of type `Option<u64>` with a default. -/
def readMax : Option Json → Option (Option Nat)
  | none | some .null => some none
  | some j => (j.asUnsigned (2 ^ 64)).map some

/-- `Limits` read from an object, absent fields at their defaults -/
def readLimits (j : Json) : Option Limits := do
  let .obj _ := j | none
  let period ← match j.get? "period" with
    | none => some .day
    | some p => readPeriod p
  let maxRequests ← readMax (j.get? "max_requests")
  let maxOutputChars ← readMax (j.get? "max_output_chars")
  let maxStoredBytes ← readMax (j.get? "max_stored_bytes")
  return ⟨period, maxRequests, maxOutputChars, maxStoredBytes⟩

def Limits.default : Limits := ⟨.day, none, none, none⟩

variable (C : Crates)

def validDid (did : String) : Bool := (pubkeyFromDid C did).isSome

def Action.foreign (service : Service) (action : Action) : Bool :=
  match service with
  | .ai => action != .infer
  | .escrow => action == .infer

def readMember {α : Type} (wire : Json) (key : String) (read : Json → Option α) : Except CapError (Option α) :=
  match wire.get? key with
  | none => .ok none
  | some j => (okOr (read j) .shape).map some

/-- `parse_link`, up to the parent -/
def readLink (wire : Json) : Except CapError Link := do
  let t ← okOr (wire.index "t").asStr .shape
  ensure (t == "mistl-cap-v1" && ["type", "v", "kind"].all (fun key => (wire.get? key).isNone)) CapError.shape
  let id ← okOr (wire.index "id").asStr .shape
  let issuer ← okOr (wire.index "fromId").asStr .shape
  let aud ← okOr (wire.index "aud").asStr .shape
  let resource ← okOr (wire.index "res").asStr .shape
  let service ← okOr (readService (wire.index "svc")) .shape
  let actions ← okOr (readList readAction (wire.index "act")) .shape
  let nbf ← okOr (wire.index "nbf").asI64 .shape
  let exp ← okOr (wire.index "exp").asI64 .shape
  ensure (validId id && validDid C issuer && validDid C aud && validResource resource
    && !(service == .ai && resource != "*") && decide (0 ≤ nbf) && decide (nbf < exp)
    && decide (exp - nbf ≤ maxLifetimeMs) && !actions.isEmpty && decide (actions.length ≤ 2)
    && !actions.any (Action.foreign service) && !(actions.length == 2 && actions[0]? == actions[1]?)) CapError.shape
  let to_ ← readMember wire "to" (readList asStr)
  ensure (!to_.any (fun dids => decide (8 < dids.length) || dids.any (fun did => !validDid C did))) CapError.shape
  let limits ← readMember wire "lim" readLimits
  return ⟨wire, id, issuer, aud, service, actions, resource, to_, nbf, exp, limits⟩

/-- `parse_link`, with the number of links it may still read -/
def parseLink : Nat → Json → Except CapError Capability
  | 0, _ => .error .depth
  | left + 1, wire => do
    let link ← readLink C wire
    match wire.get? "prf" with
    | none => return .root link
    | some p =>
      let parent ← parseLink left p
      return .child link parent

def parse (wire : Json) : Except CapError Capability := if maxBytes < wire.size then .error .oversize else parseLink C maxDepth wire

/-! ## Verifying -/

def limitNarrows (child parent : Option Nat) : Bool :=
  match parent with
  | none => true
  | some p => child.any (fun c => decide (c ≤ p))

/-- The limits of a parent, as far as they are set, are those of its child or wider. -/
def limitsNarrow (child : Option Limits) (parent : Limits) : Bool :=
  let c := child.getD .default
  let bounded := parent.maxRequests.isSome || parent.maxOutputChars.isSome || parent.maxStoredBytes.isSome
  (!bounded || c.period == parent.period) && limitNarrows c.maxRequests parent.maxRequests
    && limitNarrows c.maxOutputChars parent.maxOutputChars && limitNarrows c.maxStoredBytes parent.maxStoredBytes

def attenuates (child parent : Link) : Bool :=
  child.issuer == parent.aud && child.service == parent.service && child.actions.all (fun a => parent.actions.contains a)
    && covers parent.resource child.resource && decide (child.exp ≤ parent.exp) && decide (parent.nbf ≤ child.nbf)
    && parent.to_.all (fun p => child.to_.any (fun c => c.all (fun d => p.contains d)))
    && parent.limits.all (limitsNarrow child.limits)

structure Context where
  nowMs : Int
  holder : String
  localDid : String
  service : Service
  action : Action
  resource : String
  trustedRoot : String → Bool
  isRevoked : String → Bool

/-- The checks on one link, presented by `holder`, under its parent. -/
def checkLink (ctx : Context) (holder : String) (link : Link) (parent : Option Link) : Except CapError Unit := do
  ensure (!decide (ctx.nowMs < max (-2 ^ 63) (link.nbf - maxClockSkewMs)) && decide (ctx.nowMs < link.exp)) CapError.time
  ensure (link.aud == holder) CapError.audience
  ensure (link.service == ctx.service && link.actions.contains ctx.action && covers link.resource ctx.resource)
    CapError.coverage
  ensure (link.to_.all (fun dids => dids.contains ctx.localDid)) CapError.verifier
  ensure (!ctx.isRevoked link.id) CapError.revoked
  ensure (parent.all (attenuates link)) CapError.attenuation
  ensure (Wiresign.verifyWire C link.wire) CapError.signature

/-- The loop of `verify` -/
def checkChain (ctx : Context) : String → List Link → Except CapError Unit
  | _, [] => .ok ()
  | holder, link :: rest => do
    checkLink C ctx holder link rest.head?
    checkChain ctx link.issuer rest

def verify (wire : Json) (ctx : Context) : Except CapError Capability := do
  let cap ← parse C wire
  checkChain C ctx ctx.holder cap.chain
  ensure (ctx.trustedRoot cap.rootLink.issuer) CapError.untrustedRoot
  return cap

/-! ## What a resource denotes -/

/-- **The slots of a resource**: `*` all of them, `room/*` those of a room, `room/slot` one. -/
def denoted (resource : String) : Set (String × String) := {p | Escrow.validRoom p.1 = true ∧ Escrow.hexString p.2 32 = true ∧
    (resource = "*" ∨ resource = p.1 ++ "/*" ∨ resource = p.1 ++ "/" ++ p.2)}

theorem stripStar_eq_some {text room : String} : stripStar text = some room ↔ text = room ++ "/*" := by
  unfold stripStar
  rw [Option.map_eq_some_iff]
  constructor
  · rintro ⟨l, hl, rfl⟩
    rw [stripSuffix_eq_some] at hl
    refine String.toList_inj.1 ?_
    rw [hl, String.toList_append, String.toList_ofList]
    rfl
  · rintro rfl
    refine ⟨room.toList, stripSuffix_eq_some.2 ?_, String.ofList_toList⟩
    rw [String.toList_append]
    rfl

theorem rsplitSlash_eq_some {text room rest : String} :
    rsplitSlash text = some (room, rest) ↔ text = room ++ "/" ++ rest ∧ '/' ∉ rest.toList :=
  splitLast_text (by decide)

variable {parent child : String}

theorem covers_eq_true : covers parent child = true ↔
    parent = "*" ∨ parent = child ∨ ∃ room rest, parent = room ++ "/*" ∧ rsplitSlash child = some (room, rest) := by
  unfold covers
  simp only [Bool.or_eq_true, beq_iff_eq, Option.any_eq_true, or_assoc, stripStar_eq_some]
  refine or_congr Iff.rfl (or_congr Iff.rfl ?_)
  constructor
  · rintro ⟨room, hp, ⟨_, rest⟩, hc, rfl⟩
    exact ⟨_, rest, hp, hc⟩
  · rintro ⟨room, rest, hp, hc⟩
    exact ⟨room, hp, _, hc, rfl⟩

theorem denoted_subset_of_covers (h : covers parent child = true) : denoted child ⊆ denoted parent := by
  rcases covers_eq_true.1 h with rfl | rfl | ⟨room, rest, rfl, hsplit⟩
  · exact fun p hp => ⟨hp.1, hp.2.1, .inl rfl⟩
  · exact fun _ hp => hp
  · rintro ⟨r, s⟩ ⟨hroom, hslot, hc⟩
    refine ⟨hroom, hslot, .inr (.inl ?_)⟩
    rcases hc with rfl | rfl | rfl
    · cases hsplit
    · rw [show r ++ "/*" = r ++ "/" ++ "*" by rw [String.append_assoc]; rfl, rsplitSlash_eq_some.2 ⟨rfl, by decide⟩] at hsplit
      cases hsplit
      rfl
    · rw [rsplitSlash_eq_some.2 ⟨rfl, Escrow.hex_ne hslot rfl⟩] at hsplit
      cases hsplit
      rfl

theorem validResource_cases {resource : String} (h : validResource resource = true) :
    resource = "*" ∨ (∃ room, Escrow.validRoom room = true ∧ resource = room ++ "/*") ∨
      ∃ room slot, Escrow.validRoom room = true ∧ Escrow.hexString slot 32 = true ∧ resource = room ++ "/" ++ slot := by
  unfold validResource at h
  simp only [Bool.or_eq_true, beq_iff_eq, Option.any_eq_true, or_assoc, stripStar_eq_some] at h
  rcases h with h | ⟨room, h, hroom⟩ | h
  · exact .inl h
  · exact .inr (.inl ⟨room, hroom, h⟩)
  · obtain ⟨⟨room, slot⟩, h⟩ := Option.isSome_iff_exists.1 h
    obtain ⟨hsplit, hvalid⟩ := Option.filter_eq_some_iff.1 h
    rw [Bool.and_eq_true] at hvalid
    exact .inr (.inr ⟨room, slot, hvalid.1, hvalid.2, (rsplitSlash_eq_some.1 hsplit).1⟩)

def slotOf (c : Char) : String := String.ofList (List.replicate 32 c)

theorem covers_of_denoted (hvalid : validResource child = true)
    (h : denoted child ⊆ denoted parent) : covers parent child = true := by
  have h0 : Escrow.hexString (slotOf '0') 32 = true := by decide
  have h1 : Escrow.hexString (slotOf '1') 32 = true := by decide
  rw [covers_eq_true]
  rcases validResource_cases hvalid with rfl | ⟨room, hroom, rfl⟩ | ⟨room, slot, hroom, hslot, rfl⟩
  · -- two slots of two rooms
    have ha := (h (show ("a", slotOf '0') ∈ denoted "*" from ⟨by decide, h0, .inl rfl⟩)).2.2
    have hb := (h (show ("b", slotOf '0') ∈ denoted "*" from ⟨by decide, h0, .inl rfl⟩)).2.2
    rcases ha with rfl | rfl | rfl
    · exact .inl rfl
    · exact absurd hb (by decide)
    · exact absurd hb (by decide)
  · -- two slots of the room
    have ha := (h (show (room, slotOf '0') ∈ denoted (room ++ "/*") from ⟨hroom, h0, .inr (.inl rfl)⟩)).2.2
    have hb := (h (show (room, slotOf '1') ∈ denoted (room ++ "/*") from ⟨hroom, h1, .inr (.inl rfl)⟩)).2.2
    rcases ha with rfl | rfl | rfl
    · exact .inl rfl
    · exact .inr (.inl rfl)
    · refine absurd hb ?_
      simp only [← String.toList_inj, String.toList_append, append_assoc, append_cancel_left_eq]
      rintro (hb | hb | hb)
      · cases hr : room.toList with
        | nil => rw [hr] at hb; exact absurd hb (by decide)
        | cons c l => rw [hr] at hb; simp at hb
      · exact absurd hb (by decide)
      · exact absurd hb (by decide)
  · have ha := (h (show (room, slot) ∈ denoted (room ++ "/" ++ slot) from ⟨hroom, hslot, .inr (.inr rfl)⟩)).2.2
    rcases ha with ha | ha | ha
    · exact .inl ha
    · exact .inr (.inr ⟨room, slot, ha, rsplitSlash_eq_some.2 ⟨rfl, Escrow.hex_ne hslot rfl⟩⟩)
    · exact .inr (.inl ha)

theorem covers_iff (hvalid : validResource child = true) : covers parent child = true ↔ denoted child ⊆ denoted parent :=
  ⟨denoted_subset_of_covers, covers_of_denoted hvalid⟩

/-! ## Narrowing -/

def Link.verifiers (link : Link) : Set String := {did | ∀ dids, link.to_ = some dids → did ∈ dids}

def Limits.bounds : List (Limits → Option Nat) := [Limits.maxRequests, Limits.maxOutputChars, Limits.maxStoredBytes]

/-- **A link that exceeds another in nothing.** -/
structure Narrows (link ancestor : Link) : Prop where
  service : link.service = ancestor.service
  actions : ∀ a ∈ link.actions, a ∈ ancestor.actions
  resources : denoted link.resource ⊆ denoted ancestor.resource
  interval : ancestor.nbf ≤ link.nbf ∧ link.exp ≤ ancestor.exp
  verifiers : link.verifiers ⊆ ancestor.verifiers
  limits : ∀ bound ∈ Limits.bounds, ∀ p n, ancestor.limits = some p → bound p = some n →
    ∃ c m, link.limits = some c ∧ bound c = some m ∧ m ≤ n ∧ c.period = p.period

theorem Narrows.refl (link : Link) : Narrows link link := ⟨rfl, fun _ h => h, fun _ h => h, ⟨le_rfl, le_rfl⟩, fun _ h => h,
    fun _ _ p n hp hn => ⟨p, n, hp, hn, le_rfl, rfl⟩⟩

theorem Narrows.trans {a b c : Link} (h : Narrows a b) (h' : Narrows b c) : Narrows a c := by
  refine ⟨h.service.trans h'.service, fun x hx => h'.actions x (h.actions x hx), h.resources.trans h'.resources,
    ⟨h'.interval.1.trans h.interval.1, h.interval.2.trans h'.interval.2⟩, h.verifiers.trans h'.verifiers, ?_⟩
  intro bound hb p n hp hn
  obtain ⟨q, m, hq, hm, hmn, hper⟩ := h'.limits bound hb p n hp hn
  obtain ⟨r, k, hr, hk, hkm, hper'⟩ := h.limits bound hb q m hq hm
  exact ⟨r, k, hr, hk, hkm.trans hmn, hper'.trans hper⟩

theorem limitsNarrow_bounds {child : Option Limits} {p : Limits} (h : limitsNarrow child p = true)
    {bound : Limits → Option Nat} (hb : bound ∈ Limits.bounds) {n : Nat} (hn : bound p = some n) :
    ∃ c m, child = some c ∧ bound c = some m ∧ m ≤ n ∧ c.period = p.period := by
  unfold limitsNarrow at h
  simp only [Bool.and_eq_true, Bool.or_eq_true, Bool.not_eq_true', beq_iff_eq] at h
  obtain ⟨⟨⟨hper, h1⟩, h2⟩, h3⟩ := h
  have hbounded : (child.getD .default).period = p.period := by
    rcases hper with hnone | hper
    · simp only [Bool.or_eq_false_iff, Option.isSome_eq_false_iff, Option.isNone_iff_eq_none] at hnone
      simp only [Limits.bounds, mem_cons, not_mem_nil, or_false] at hb
      rcases hb with rfl | rfl | rfl
      · rw [hnone.1.1] at hn; cases hn
      · rw [hnone.1.2] at hn; cases hn
      · rw [hnone.2] at hn; cases hn
    · exact hper
  have hnarrow : limitNarrows (bound (child.getD .default)) (bound p) = true := by
    simp only [Limits.bounds, mem_cons, not_mem_nil, or_false] at hb
    rcases hb with rfl | rfl | rfl
    · exact h1
    · exact h2
    · exact h3
  rw [hn, limitNarrows, Option.any_eq_true] at hnarrow
  obtain ⟨m, hm, hle⟩ := hnarrow
  cases child with
  | none =>
    simp only [Limits.bounds, mem_cons, not_mem_nil, or_false] at hb
    rcases hb with rfl | rfl | rfl <;> cases hm
  | some c => exact ⟨c, m, rfl, hm, of_decide_eq_true hle, hbounded⟩

/-- **A link that attenuates its parent narrows it**, and is issued by the parent's audience. -/
theorem attenuates_narrows {child parent : Link} (h : attenuates child parent = true) :
    child.issuer = parent.aud ∧ Narrows child parent := by
  unfold attenuates at h
  simp only [Bool.and_eq_true, beq_iff_eq, decide_eq_true_eq, List.all_eq_true, contains_iff_mem] at h
  obtain ⟨⟨⟨⟨⟨⟨⟨hissuer, hservice⟩, hactions⟩, hcovers⟩, hexp⟩, hnbf⟩, hto⟩, hlimits⟩ := h
  refine ⟨hissuer, hservice, hactions, denoted_subset_of_covers hcovers, ⟨hnbf, hexp⟩, ?_, ?_⟩
  · intro did hdid dids hdids
    rw [hdids, Option.all_some, Option.any_eq_true] at hto
    obtain ⟨c, hc, hall⟩ := hto
    exact contains_iff_mem.1 (List.all_eq_true.1 hall did (hdid c hc))
  · intro bound hb p n hp hn
    rw [hp] at hlimits
    exact limitsNarrow_bounds hlimits hb hn

/-! ## What verification establishes -/

variable {C}

def Link.Signed (C : Crates) (link : Link) : Prop :=
  ∃ fields sig, link.wire = .obj fields ∧ ((link.wire.get? "signature").bind asStr).bind C.b64Decode = some sig ∧
    verifyDid C link.issuer (utf8 (Wiresign.signingPayload fields)) sig = true

variable {wire : Json}

theorem verifyWire_signed (h : Wiresign.verifyWire C wire = true) :
    ∃ fields did sig, wire = .obj fields ∧ wire.index "fromId" = .str did ∧
      ((wire.get? "signature").bind asStr).bind C.b64Decode = some sig ∧
      verifyDid C did (utf8 (Wiresign.signingPayload fields)) sig = true := by
  unfold Wiresign.verifyWire at h
  split at h
  · rename_i fields
    split at h
    · rename_i did signature hdid hsignature
      split at h
      · cases h
      split at h
      · cases h
      rename_i sig hsig
      obtain ⟨j, hj, hstr⟩ := Option.bind_eq_some_iff.1 hdid
      refine ⟨fields, did, sig, rfl, ?_, by rw [hsignature]; exact hsig, h⟩
      rw [Json.index, hj]
      cases j <;> simp_all [asStr]
    · cases h
  · cases h

structure Shaped (link : Link) : Prop where
  issuer : (link.wire.index "fromId").asStr = some link.issuer
  resource : validResource link.resource = true
  id : validId link.id = true
  lifetime : 0 ≤ link.nbf ∧ link.nbf < link.exp ∧ link.exp ≤ link.nbf + maxLifetimeMs
  word : link.exp < 2 ^ 63

theorem asI64_lt {j : Json} {n : Int} (h : j.asI64 = some n) : n < 2 ^ 63 := by
  unfold asI64 at h
  split at h
  · split at h
    · rename_i hn
      cases h
      exact hn.2
    · cases h
  · cases h

theorem readLink_shaped {link : Link} (h : readLink C wire = .ok link) : link.wire = wire ∧ Shaped link := by
  unfold readLink at h
  simp only [okOr_bind_eq_ok, ensure_bind_eq_ok, Bool.and_eq_true, decide_eq_true_eq] at h
  obtain ⟨t, -, -, id, -, issuer, hissuer, aud, -, resource, -, service, -, actions, -, nbf, -, exp, hexp64, hshape, h⟩ := h
  obtain ⟨to_, -, h⟩ := bind_eq_ok.1 h
  obtain ⟨-, h⟩ := ensure_bind_eq_ok.1 h
  obtain ⟨limits, -, h⟩ := bind_eq_ok.1 h
  cases h
  obtain ⟨⟨⟨⟨⟨⟨⟨⟨⟨⟨⟨hid, -⟩, -⟩, hresource⟩, -⟩, hnbf⟩, hexp⟩, hlife⟩, -⟩, -⟩, -⟩, -⟩ := hshape
  exact ⟨rfl, hissuer, hresource, hid, ⟨hnbf, hexp, by dsimp only; omega⟩, asI64_lt hexp64⟩

theorem parseLink_links {P : Link → Prop} (hP : ∀ {wire link}, readLink C wire = .ok link → link.wire = wire ∧ P link) :
    ∀ {left : Nat} {wire : Json} {cap : Capability}, parseLink C left wire = .ok cap → cap.leaf.wire = wire ∧ ∀ link ∈ cap.chain, P link
  | 0, _, _, h => by cases h
  | left + 1, wire, cap, h => by
    obtain ⟨link, hlink, h⟩ := bind_eq_ok.1 h
    obtain ⟨hwire, hshaped⟩ := hP hlink
    split at h
    · cases h
      exact ⟨hwire, fun l hl => by rw [mem_singleton.1 hl]; exact hshaped⟩
    · obtain ⟨parent, hparent, h⟩ := bind_eq_ok.1 h
      cases h
      refine ⟨hwire, fun l hl => ?_⟩
      rcases mem_cons.1 hl with rfl | hl
      · exact hshaped
      · exact (parseLink_links hP hparent).2 l hl

theorem parse_links {P : Link → Prop} (hP : ∀ {wire link}, readLink C wire = .ok link → link.wire = wire ∧ P link)
    {cap : Capability} (h : parse C wire = .ok cap) : cap.leaf.wire = wire ∧ ∀ link ∈ cap.chain, P link := by
  unfold parse at h
  split at h
  · cases h
  · exact parseLink_links hP h

theorem parse_shaped {cap : Capability} (h : parse C wire = .ok cap) :
    cap.leaf.wire = wire ∧ ∀ link ∈ cap.chain, Shaped link := parse_links readLink_shaped h

/-- **What is checked of one link.** -/
structure Checked (C : Crates) (ctx : Context) (holder : String) (link : Link) (parent : Option Link) : Prop where
  time : max (-2 ^ 63) (link.nbf - maxClockSkewMs) ≤ ctx.nowMs
  live : ctx.nowMs < link.exp
  audience : link.aud = holder
  coverage : link.service = ctx.service ∧ ctx.action ∈ link.actions ∧ covers link.resource ctx.resource = true
  verifier : ctx.localDid ∈ link.verifiers
  standing : ctx.isRevoked link.id = false
  attenuation : ∀ p, parent = some p → attenuates link p = true
  signature : Wiresign.verifyWire C link.wire = true

theorem checkLink_eq_ok {ctx : Context} {holder : String} {link : Link} {parent : Option Link} {u : Unit} :
    checkLink C ctx holder link parent = .ok u ↔ Checked C ctx holder link parent := by
  unfold checkLink
  simp only [ensure_bind_eq_ok, ensure_eq_ok, Bool.and_eq_true, Bool.not_eq_true', decide_eq_true_eq,
    decide_eq_false_iff_not, beq_iff_eq, contains_iff_mem, Option.all_eq_true, not_lt]
  constructor
  · rintro ⟨⟨h1, h2⟩, h3, ⟨⟨h4, h5⟩, h6⟩, h7, h8, h9, h10⟩
    exact ⟨h1, h2, h3, ⟨h4, h5, h6⟩, h7, h8, h9, h10⟩
  · intro h
    exact ⟨⟨h.time, h.live⟩, h.audience, ⟨⟨h.coverage.1, h.coverage.2.1⟩, h.coverage.2.2⟩, h.verifier, h.standing,
      h.attenuation, h.signature⟩

theorem checkChain_eq_ok {ctx : Context} {u : Unit} : ∀ {links : List Link} {holder : String}, checkChain C ctx holder links = .ok u →
      (∀ link ∈ links, ∃ h p, Checked C ctx h link p) ∧ (∀ link, links.head? = some link → link.aud = holder) ∧
        links.IsChain (fun child parent => child.issuer = parent.aud ∧ Narrows child parent)
  | [], _, _ => ⟨fun _ h => (by cases h), fun _ h => (by cases h), .nil⟩
  | link :: rest, holder, h => by
    obtain ⟨_, hlink, hrest⟩ := bind_eq_ok.1 h
    have hlink := checkLink_eq_ok.1 hlink
    obtain ⟨hall, -, hchain⟩ := checkChain_eq_ok hrest
    refine ⟨fun l hl => ?_, fun l hl => ?_, ?_⟩
    · rcases mem_cons.1 hl with rfl | hl
      · exact ⟨_, _, hlink⟩
      · exact hall l hl
    · cases hl
      exact hlink.audience
    · cases rest with
      | nil => exact .singleton _
      | cons parent rest => exact .cons_cons (attenuates_narrows (hlink.attenuation parent rfl)) hchain

theorem Capability.chain_eq (cap : Capability) : ∃ rest, cap.chain = cap.leaf :: rest := by
  cases cap with
  | root link => exact ⟨[], rfl⟩
  | child link parent => exact ⟨parent.chain, rfl⟩

theorem Capability.rootLink_mem : ∀ cap : Capability, cap.chain.getLast? = some cap.rootLink
  | .root link => rfl
  | .child link parent => by
    obtain ⟨rest, hrest⟩ := parent.chain_eq
    have ih := parent.rootLink_mem
    rw [hrest] at ih
    rw [Capability.chain, hrest, getLast?_cons_cons, ih]
    rfl

/-- **A verified chain**: who may present it, who signed it, and what its leaf may not exceed. -/
structure Verified (C : Crates) (wire : Json) (ctx : Context) (cap : Capability) : Prop where
  wire : cap.leaf.wire = wire
  holder : cap.leaf.aud = ctx.holder
  issued : cap.chain.IsChain (fun child parent => child.issuer = parent.aud)
  signed : ∀ link ∈ cap.chain, link.Signed C
  trusted : ∃ root, cap.chain.getLast? = some root ∧ ctx.trustedRoot root.issuer = true
  standing : ∀ link ∈ cap.chain, ctx.isRevoked link.id = false
  narrows : ∀ ancestor ∈ cap.chain, Narrows cap.leaf ancestor

/-- **Chains never widen authority**: what `verify` returns is a verified chain, and its resources are compared by the slots
they denote. -/
theorem verify_never_widens (C : Crates) (wire : Json) (ctx : Context) (cap : Capability)
    (h : verify C wire ctx = .ok cap) :
    Verified C wire ctx cap ∧ (∀ link ∈ cap.chain, validResource link.resource = true) ∧ ∀ parent child, validResource child = true →
        (covers parent child = true ↔ denoted child ⊆ denoted parent) := by
  obtain ⟨cap', hparse, h⟩ := bind_eq_ok.1 h
  obtain ⟨_, hchain, h⟩ := bind_eq_ok.1 h
  obtain ⟨htrusted, h⟩ := ensure_bind_eq_ok.1 h
  cases h
  obtain ⟨hwire, hshaped⟩ := parse_shaped hparse
  obtain ⟨hall, hhead, hpairs⟩ := checkChain_eq_ok hchain
  obtain ⟨rest, hrest⟩ := cap.chain_eq
  refine ⟨⟨hwire, hhead _ (by rw [hrest]; rfl), hpairs.imp (fun _ _ h => h.1), ?_,
    ⟨_, cap.rootLink_mem, htrusted⟩, ?_, ?_⟩, fun link hl => (hshaped link hl).resource, fun _ _ => covers_iff⟩
  · intro link hl
    obtain ⟨_, _, hc⟩ := hall link hl
    obtain ⟨fields, did, sig, hobj, hdid, hsig, hverify⟩ := verifyWire_signed hc.signature
    have hissuer := (hshaped link hl).issuer
    rw [hdid] at hissuer
    cases hissuer
    exact ⟨fields, sig, hobj, hsig, hverify⟩
  · intro link hl
    obtain ⟨_, _, hc⟩ := hall link hl
    exact hc.standing
  · intro ancestor ha
    have hnarrow : cap.chain.IsChain Narrows := hpairs.imp (fun _ _ h => h.2)
    have : Trans Narrows Narrows Narrows := ⟨Narrows.trans⟩
    rw [hrest] at hnarrow ha
    rcases mem_cons.1 ha with rfl | ha
    · exact .refl _
    · exact (pairwise_cons.1 (isChain_iff_pairwise.1 hnarrow)).1 ancestor ha

def teamGrant : Json :=
  .obj [("act", .arr [.str "read", .str "write"]), ("aud", .str "did:key:z6Mko9hTggMwjSTEaJaPUfE6tqcy2xvU6BnNq3e3o8qVBiyH"),
    ("exp", .int 90000), ("fromId", .str "did:key:z6Mkon3Necd6NkkyfoGoHxid2znGc59LU3K7mubaRcFbLfLX"),
    ("id", .str "00000000000000000000000000000001"), ("lim", .obj [("max_requests", .int 10), ("period", .str "day")]),
    ("nbf", .int 1000), ("res", .str "team/a/*"),
    ("signature", .str "dUhzgbKbWmfBqaXs-yYy026eoY5O8q0Njh8oWQsCq0qPPnWhFm8eoiCViv0373xuS2REwGyNVCQ3nCZSZH2ZAA"),
    ("svc", .str "escrow"), ("t", .str "mistl-cap-v1")]

def slotGrant : Json := .obj [("act", .arr [.str "read"]), ("aud", .str "did:key:z6MkvRXNYcE7MMduynWTgeKbDaT1iijDSC8pZqXZc8rHPrf2"),
    ("exp", .int 80000), ("fromId", .str "did:key:z6Mko9hTggMwjSTEaJaPUfE6tqcy2xvU6BnNq3e3o8qVBiyH"),
    ("id", .str "00000000000000000000000000000002"), ("lim", .obj [("max_requests", .int 5), ("period", .str "day")]),
    ("nbf", .int 2000), ("prf", teamGrant), ("res", .str "team/a/00000000000000000000000000000000"),
    ("signature", .str "CDFN5v7dsbAUuqUW-E_xZv_npCVZY8vmwEaqOHNSW9IizsT1YEPoGFIen1IFJXvF8R4ylhA2tlVy9R5_eMauAA"),
    ("svc", .str "escrow"), ("t", .str "mistl-cap-v1")]

def slotContext : Context :=
  { nowMs := 3000, holder := "did:key:z6MkvRXNYcE7MMduynWTgeKbDaT1iijDSC8pZqXZc8rHPrf2", localDid := "",
    service := .escrow, action := .read, resource := "team/a/00000000000000000000000000000000",
    trustedRoot := fun did => did == "did:key:z6Mkon3Necd6NkkyfoGoHxid2znGc59LU3K7mubaRcFbLfLX",
    isRevoked := fun _ => false }

theorem verify_never_widens_slot : ∃ cap, verify (sampleCrates []) slotGrant slotContext = .ok cap ∧
    Verified (sampleCrates []) slotGrant slotContext cap ∧ cap.chain.length = 2 := by
  have hsize : ¬ maxBytes < slotGrant.size :=
    Nat.not_lt.2 ((size_le_bound slotGrant).trans (by decide +kernel))
  have hok : (verify (sampleCrates []) slotGrant slotContext).toOption.any (fun cap => cap.chain.length == 2) = true := by
    unfold verify parse
    rw [if_neg hsize]
    decide +kernel
  cases h : verify (sampleCrates []) slotGrant slotContext with
  | error e => rw [h] at hok; cases hok
  | ok cap =>
    rw [h] at hok
    exact ⟨cap, rfl, (verify_never_widens _ _ _ _ h).1, beq_iff_eq.1 hok⟩

end Mistl.Authz
