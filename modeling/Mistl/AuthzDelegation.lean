import Mistl.AuthzCapability
/-!
# AuthzDelegation — the store of capabilities and revocations

`authz/delegation.rs`, and what `authz/mod.rs` does with it when a peer is authorized.  A revocation is recorded until the
last expiry of the links of its id that the store knows at that moment.
-/
open Mistl.Json

namespace Mistl.Authz

def maxHeld : Nat := 256

def maxDeliveredPerIssuer : Nat := 16

def maxIssued : Nat := 1024

def maxPresented : Nat := 1024

def maxPerNode : Nat := 8

def maxRevoked : Nat := 4096

def presentTag : String := "mistl-cap-present-v1"

def deliverTag : String := "mistl-cap-deliver-v1"

def revokeTag : String := "mistl-cap-revoke-v1"

/-- `now.timestamp_millis()` -/
def timestampMillis (now : Int) : Int := now / 10 ^ 6

/-- `a.saturating_add(b)` of signed words -/
def satAddSigned (a b : Int) : Int := max (-2 ^ 63) (min (a + b) (2 ^ 63 - 1))

structure Issued where
  cap : Json
  revoked : Bool

structure Revoked where
  id : String
  exp : Int
  at_ : Int

structure Presented where
  node : String
  did : String
  cap : Capability
  at_ : Nat
  trusted : Bool

structure Book where
  issued : List Issued
  held : List Json
  revoked : List Revoked
  presented : List Presented
  sequence : Nat
  dirty : Bool

def Book.default : Book := ⟨[], [], [], [], 0, false⟩

/-- The position of the first entry of least `key` among those that count. -/
def oldest {α : Type} (key : α → Int) (counts : α → Bool) (l : List α) : Option Nat :=
  ((l.zipIdx.filter (fun e => counts e.1)).foldl (fun best e =>
    match best with
    | none => some e
    | some b => if key e.1 < key b.1 then some e else some b) none).map Prod.snd

/-- `v.remove(i)` of the entry found, if any -/
def removeAt {α : Type} (l : List α) : Option Nat → List α
  | none => l
  | some i => l.eraseIdx i

variable (C : Crates)

namespace Book

def markTrusted (b : Book) (node id : String) : Book :=
  { b with presented := b.presented.map (fun p => if p.node == node && p.cap.leaf.id == id then { p with trusted := true } else p) }

def isRevoked (b : Book) (id : String) (now : Int) : Bool := b.revoked.any (fun r => r.id == id && decide (now < r.exp))
    || b.issued.any (fun i => i.revoked && (i.cap.index "id").asStr == some id)

def live (b : Book) (cap : Capability) (now : Int) : Bool := cap.chain.all (fun c => decide (now < c.exp) && !b.isRevoked c.id now)

def prune (b : Book) (now : Int) : Book :=
  let held := b.held.filter (fun v => (parse C v).toOption.any (fun c => decide (now < c.leaf.exp)))
  let issued := b.issued.filter (fun i => (i.cap.index "exp").asI64.any (fun exp => decide (now < exp)))
  let revoked := b.revoked.filter (fun r => decide (now < r.exp))
  let ids := revoked.map Revoked.id
  { b with
    held := held, issued := issued, revoked := revoked,
    presented := b.presented.filter (fun p => p.cap.chain.all (fun c => decide (now < c.exp) && !ids.contains c.id)),
    dirty := b.dirty || (b.held.length, b.revoked.length, b.issued.length) != (held.length, revoked.length, issued.length) }

def knownExps (b : Book) (id : String) : List Int :=
  ((b.presented.flatMap (fun p => p.cap.chain)).filter (fun c => c.id == id)).map Link.exp
    ++ (((b.issued.map Issued.cap ++ b.held).filterMap (fun v => (parse C v).toOption)).flatMap
        (fun c => (c.chain.filter (fun link => link.id == id)).map Link.exp))
    ++ (b.revoked.filter (fun r => r.id == id)).map Revoked.exp

def revoke (b : Book) (id : String) (now : Int) : Book :=
  let exp := (b.knownExps C id).max?.getD (satAddSigned now maxLifetimeMs)
  let presented := b.presented.filter (fun p => !p.cap.containsId id)
  if exp ≤ now then { b with presented := presented }
  else
    let revoked := match b.revoked.findIdx? (fun r => r.id == id) with
      | some i => b.revoked.modify i (fun old => { old with exp := max old.exp exp })
      | none =>
        (if maxRevoked ≤ b.revoked.length then
          b.revoked.eraseIdx ((oldest Revoked.at_ (fun _ => true) b.revoked).getD 0) else b.revoked) ++ [⟨id, exp, now⟩]
    { b with revoked := revoked, presented := presented, dirty := true }

def insertPresented (b : Book) (node did : String) (cap : Capability) (trusted : Bool) : Book :=
  let presented := b.presented.filter (fun p => !(p.node == node && p.cap.leaf.id == cap.leaf.id))
  let presented := if maxPerNode ≤ (presented.filter (fun p => p.node == node)).length then
      removeAt presented (oldest (fun p => (p.at_ : Int)) (fun p => p.node == node) presented)
    else presented
  let presented :=
    if maxPresented ≤ presented.length then removeAt presented (oldest (fun p => (p.at_ : Int)) (fun _ => true) presented)
    else presented
  let sequence := satAdd b.sequence 1
  { b with sequence := sequence, presented := presented ++ [⟨node, did, cap, sequence, trusted⟩] }

end Book

/-! ## The store -/

inductive AccessMode where
  | open_ | allowlist
  deriving DecidableEq

structure Rule where
  subject : String
  expiresAt : Option Int

structure LimitOverride where
  subject : String
  limits : Limits

structure ServicePolicy where
  mode : AccessMode
  allow : List Rule
  deny : List Rule
  limits : Limits
  overrides : List LimitOverride
  issuers : List String

structure Policy where
  ai : ServicePolicy
  escrow : ServicePolicy

def ServicePolicy.default : ServicePolicy := ⟨.open_, [], [], .default, [], []⟩

def Policy.service (p : Policy) : Service → ServicePolicy
  | .ai => p.ai
  | .escrow => p.escrow

structure Principal where
  node : String
  did : Option String
  deriving DecidableEq

def Principal.account (p : Principal) : String := "node:" ++ p.node

def Rule.active (r : Rule) (now : Int) : Bool := r.expiresAt.all (fun expiry => decide (now < expiry))

def subjectMatches (subject : String) (p : Principal) : Bool := subject == p.node || p.did == some subject

namespace ServicePolicy

def denied (s : ServicePolicy) (p : Principal) (now : Int) : Bool := s.deny.any fun r => r.active now && subjectMatches r.subject p

def explicitlyAllowed (s : ServicePolicy) (p : Principal) (now : Int) : Bool :=
  p.did.isSome && s.allow.any fun r => r.active now && subjectMatches r.subject p

def limitsFor (s : ServicePolicy) (p : Principal) : Limits :=
  ((s.overrides.find? (fun r => subjectMatches r.subject p)).map LimitOverride.limits).getD s.limits

end ServicePolicy

/-- `Store`, without its tokens and its files -/
structure Store where
  policy : Policy
  usage : UsageBook
  usageDirty : Bool
  caps : Book
  localDid : Option String

def Denied.forbidden : Denied := ⟨"forbidden", "Access denied"⟩

structure Authorized where
  principal : Option Principal
  accounts : List String
  service : Service
  limits : Limits
  capAccounts : List (String × Limits)
  deriving DecidableEq

/-- Why a capability is not imported or a command not run: a reason, or what is wrong with the capability. -/
inductive CommandError where
  | reason (text : String)
  | cap (e : CapError)

namespace Store

/-- The context of `verify_cap` -/
def context (s : Store) (holder : String) (service : Service) (action : Action) (resource : String)
    (owner : Option String) (now : Int) : Context :=
  let local_ := s.localDid.getD ""
  { nowMs := timestampMillis now, holder := holder, localDid := local_, service := service, action := action, resource := resource,
    trustedRoot := fun did => did == local_ || (s.policy.service service).issuers.contains did
      || (service == .escrow && (exactResource resource).isSome && owner == some did),
    isRevoked := fun id => s.caps.isRevoked id (timestampMillis now) }

def verifyCap (s : Store) (wire : Json) (holder : String) (service : Service) (action : Action) (resource : String)
    (owner : Option String) (now : Int) : Except CapError Capability :=
  verify C wire (s.context holder service action resource owner now)

def presentedCap (s : Store) (service : Service) (action : Action) (p : Principal) (resource owner : Option String)
    (now : Int) : Option Capability :=
  p.did.bind (fun did =>
    (s.caps.presented.filter (fun e => e.node == p.node && e.did == did)).findSome? (fun e =>
      (s.verifyCap C e.cap.leaf.wire did service action (resource.getD "*") owner now).toOption))

def trusting (s : Store) (node : String) (cap : Option Capability) : Store :=
  match cap with
  | some c => { s with caps := s.caps.markTrusted node c.leaf.id }
  | none => s

/-- The end of `authorize_peer_owned`: the accounts of a peer that may proceed -/
def chargePeer (s : Store) (service : Service) (p : Principal) (cap : Option Capability) (now : Int) :
    Store × Except Denied Authorized :=
  if service = .escrow ∧ (cap.bind (fun c => c.leaf.limits)).isNone = true then
    (s, .ok ⟨some p, [], service, .default, []⟩)
  else
    let policy := s.policy.service service
    let account := s.usage.account service p.account
    let limits := if account = "*" then policy.limits else policy.limitsFor p
    let (usage, checked) := if service = .ai then s.usage.check service account limits now else (s.usage, .ok ())
    let s := { s with usageDirty := true, usage := usage }
    match checked with
    | .error e => (s, .error e)
    | .ok () =>
      match cap.bind (fun c => c.leaf.limits.map (fun limits => (c.leaf.id, limits))) with
      | none => (s, .ok ⟨some p, [account], service, limits, []⟩)
      | some (id, capLimits) =>
        let capAccount := s.usage.account service ("cap:" ++ id)
        let (usage, checked) := s.usage.check service capAccount capLimits now
        let s := { s with usage := usage }
        match checked with
        | .error e => (s, .error e)
        | .ok () => (s, .ok ⟨some p, [account], service, limits, [(capAccount, capLimits)]⟩)

def authorizePeerOwned (s : Store) (service : Service) (action : Action) (p : Principal)
    (resource owner : Option String) (now : Int) : Store × Except Denied Authorized :=
  let policy := s.policy.service service
  if policy.denied p now then (s, .error .forbidden)
  else
    let cap := if policy.explicitlyAllowed p now then none else s.presentedCap C service action p resource owner now
    if !policy.explicitlyAllowed p now && cap.isNone && policy.mode != .open_ then (s, .error .forbidden)
    else (s.trusting p.node cap).chargePeer service p cap now

/-- The check of `import_cap`: any root is good enough for a holder, the rest of the chain is not. -/
def checkImport (s : Store) (wire : Json) (did : String) (now : Int) : Except CommandError Unit := do
  let cap ← (parse C wire).mapError .cap
  let _ ← (verify C wire
    { nowMs := timestampMillis now, holder := did, localDid := (cap.leaf.to_.bind List.head?).getD did,
      service := cap.leaf.service, action := cap.leaf.actions.headD .infer, resource := cap.leaf.resource,
      trustedRoot := fun _ => true, isRevoked := fun id => s.caps.isRevoked id (timestampMillis now) }).mapError .cap
  match s.caps.held.find? (fun v => v.index "id" == wire.index "id") with
  | some old => ensure (old == wire) (.reason "capability id collides with a different held capability")
  | none => ensure (decide (s.caps.held.length < maxHeld)) (.reason "too many held capabilities")

def importCap (s : Store) (wire : Json) (did : String) (now : Int) : Except CommandError (Store × Json) := do
  s.checkImport C wire did now
  let held := if s.caps.held.any (fun v => v.index "id" == wire.index "id") then s.caps.held else s.caps.held ++ [wire]
  return ({ s with caps := { s.caps with held := held, dirty := true } }, wire)

end Store

/-! ## Commands -/

/-- What a command takes from outside: a fresh id, the signature of the local identity, the reading of a time, and whether
the files are written. -/
structure Env where
  nonce : String
  sign : List UInt8 → String
  readTime : Json → Option Int
  saved : Bool

def field {α : Type} (args : Json) (key : String) (read : Json → Option α) : Except CommandError α := do
  let j ← okOr (args.get? key) (.reason ("missing `" ++ key ++ "`"))
  okOr (read j) (.reason ("invalid `" ++ key ++ "`"))

def optionalField {α : Type} (args : Json) (key : String) (read : Json → Option α) : Except CommandError (Option α) :=
  match args.get? key with
  | none | some .null => .ok none
  | some j => (okOr (read j) (.reason ("invalid `" ++ key ++ "`"))).map some

/-- `MAX_TTL`, in seconds -/
def maxTtl : Int := 10 * 366 * 24 * 60 * 60

/-- `DateTime::<Utc>::MAX_UTC`, in nanoseconds -/
def maxUtc : Int := 8210266876799 * 10 ^ 9 + 999999999

def expiry (args : Json) (env : Env) (now : Int) : Except CommandError (Option Int) := do
  let expiresAt ← optionalField args "expires_at" env.readTime
  let ttl ← optionalField args "ttl_secs" asI64
  ensure (expiresAt.isNone || ttl.isNone) (.reason "use either expires_at or ttl_secs")
  match ttl with
  | some ttl =>
    ensure (decide (60 ≤ ttl) && decide (ttl ≤ maxTtl)) (.reason "ttl_secs must be between 60 seconds and 10 years")
    ensure (decide (now + ttl * 10 ^ 9 ≤ maxUtc)) (.reason "expiry is out of range")
    return some (now + ttl * 10 ^ 9)
  | none =>
    ensure (expiresAt.all (fun e => decide (now < e) && decide (e - now ≤ maxTtl * 10 ^ 9)))
      (.reason "expires_at must be in the future within 10 years")
    return expiresAt

def capArg (args : Json) : Except CommandError Json := do
  let cap ← okOr (args.get? "cap") (.reason "missing `cap`")
  match cap with
  | .str text =>
    ensure (decide (text.utf8ByteSize ≤ maxBytes)) (.reason "capability exceeds 8 KiB")
    okOr (valueOf (utf8 text.toList)) (.reason "invalid capability JSON")
  | _ => return cap

def Service.json : Service → Json
  | .ai => .str "ai"
  | .escrow => .str "escrow"

def Action.json : Action → Json
  | .infer => .str "infer"
  | .read => .str "read"
  | .write => .str "write"

def Period.json : Period → Json
  | .day => .str "day"
  | .month => .str "month"
  | .total => .str "total"

def maxJson : Option Nat → Json
  | none => .null
  | some n => .int n

def Limits.json (l : Limits) : Json := .obj [("max_output_chars", maxJson l.maxOutputChars), ("max_requests", maxJson l.maxRequests),
    ("max_stored_bytes", maxJson l.maxStoredBytes), ("period", l.period.json)]

namespace Store

variable (s : Store) (args : Json) (did : String) (env : Env) (now : Int)

/-- The members of the capability `authz.cap.issue` builds, before it is signed. -/
def issueFields (aud : String) (service : Service) (actions : List Action) (resource : String) (exp : Int)
    (parent : Option Json) : List (String × Json) :=
  let fields := [("act", .arr (actions.map Action.json)), ("aud", .str aud), ("exp", .int exp), ("fromId", .str did),
    ("id", .str env.nonce), ("nbf", .int (timestampMillis now)), ("res", .str resource), ("svc", service.json),
    ("t", Json.str "mistl-cap-v1")]
  let fields := ((args.get? "to").map (fun j => setField "to" j fields)).getD fields
  let fields := ((args.get? "limits").map (fun j => setField "lim" j fields)).getD fields
  (parent.map (fun j => setField "prf" j fields)).getD fields

def heldParent (parentId : Option String) : Except CommandError (Option Json) :=
  match parentId with
  | none => .ok none
  | some id => (okOr (s.caps.held.find? (fun v => (v.index "id").asStr == some id))
      (CommandError.reason "unknown held parent capability")).map some

/-- `parent.as_ref().map(capability::parse).transpose()` -/
def parseParent (parent : Option Json) : Except CommandError (Option Capability) :=
  match parent with
  | none => .ok none
  | some p => ((parse C p).mapError CommandError.cap).map some

def checkWidens (parsed : Capability) : Except CommandError Unit :=
  match parsed with
  | .child link p => ensure (attenuates link p.leaf) (.reason "delegation widens parent authority")
  | .root _ => .ok ()

/-- `authz.cap.issue` -/
def capIssue : Except CommandError (Store × Json) := do
  ensure (decide (s.caps.issued.length < maxIssued)) (.reason "too many issued capabilities")
  let aud ← field args "aud" asStr
  let service ← field args "service" readService
  let actions ← field args "actions" (readList readAction)
  let parentId ← optionalField args "parent" asStr
  let parent ← s.heldParent parentId
  let parentCap ← parseParent C parent
  ensure (parentCap.all (fun p => p.leaf.aud == did && s.caps.live p (timestampMillis now)))
    (.reason "parent is not a live held capability")
  let exp := ((← expiry args env now).getD (now + 7 * dayNanos))
  let resource := ((← optionalField args "resource" asStr).getD "*")
  let fields := issueFields args did env now aud service actions resource (timestampMillis exp) parent
  let parsed ← (parse C (.obj fields)).mapError CommandError.cap
  checkWidens parsed
  let cap := Json.obj (setField "signature" (.str (env.sign (utf8 (Wiresign.signingPayload fields)))) fields)
  let parsed ← (parse C cap).mapError CommandError.cap
  let _ ← (verify C cap
    { nowMs := timestampMillis now, holder := parsed.leaf.aud, localDid := (parsed.leaf.to_.bind List.head?).getD did,
      service := service, action := parsed.leaf.actions.headD .infer, resource := parsed.leaf.resource,
      trustedRoot := fun _ => true,
      isRevoked := fun id => s.caps.isRevoked id (timestampMillis now) }).mapError CommandError.cap
  return ({ s with caps := { s.caps with issued := s.caps.issued ++ [⟨cap, false⟩] } }, .obj [("cap", cap), ("delivered", .bool false)])

/-- `authz.cap.remove` -/
def capRemove : Except CommandError (Store × Json) := do
  let id ← field args "id" asStr
  let held := s.caps.held.filter (fun v => (v.index "id").asStr != some id)
  return ({ s with caps := { s.caps with held := held } }, .obj [("removed", .bool (held.length != s.caps.held.length))])

/-- The id `authz.cap.revoke` revokes, and the book it is revoked in. -/
def revokeTarget : Except CommandError (String × Book) := do
  let id ← field args "id" asStr
  ensure (validId id) (.reason "invalid capability id")
  let local_ := ((← optionalField args "local" asBool).getD false)
  if local_ then return (id, s.caps)
  else
    let i ← okOr (s.caps.issued.findIdx? (fun i => (i.cap.index "id").asStr == some id
        && (i.cap.index "fromId").asStr == some did))
      (.reason "capability was not issued by this node; use local:true for a local revocation")
    return (id, { s.caps with issued := s.caps.issued.modify i (fun e => { e with revoked := true }) })

/-- `authz.cap.revoke` -/
def capRevoke : Except CommandError (Store × Json) := do
  let (id, book) ← s.revokeTarget args did
  return ({ s with caps := book.revoke C id (timestampMillis now) }, .obj [("broadcast", .bool false), ("revoked", .bool true)])

/-- `authz.cap.list` -/
def capList : Json := .obj [("held", .arr s.caps.held),
    ("issued", .arr (s.caps.issued.map (fun i => .obj [("cap", i.cap), ("revoked", .bool i.revoked)]))),
    ("presented", .arr (s.caps.presented.map (fun p => .obj [("cap", .obj [("act", .arr (p.cap.leaf.actions.map Action.json)),
        ("aud", .str p.cap.leaf.aud), ("exp", .int p.cap.leaf.exp), ("fromId", .str p.cap.leaf.issuer),
        ("id", .str p.cap.leaf.id), ("lim", (p.cap.leaf.limits.map Limits.json).getD .null),
        ("res", .str p.cap.leaf.resource), ("svc", p.cap.leaf.service.json)]), ("did", .str p.did), ("node", .str p.node)]))),
    ("revoked", .arr (s.caps.revoked.map (fun r => .obj [("at", .int r.at_), ("exp", .int r.exp), ("id", .str r.id)])))]

/-- `authz.cap.verify` -/
def capVerify : Except CommandError Json := do
  let wire ← capArg args
  match parse C wire with
  | .error e => return .obj [("chain", .arr []), ("ok", .bool false), ("reason", .str e.text), ("root", .null)]
  | .ok cap =>
    let service := ((← optionalField args "service" readService).getD cap.leaf.service)
    let action := ((← optionalField args "action" readAction).getD (cap.leaf.actions.headD .infer))
    let resource := ((← optionalField args "resource" asStr).getD cap.leaf.resource)
    let chain := ("chain", Json.arr (cap.chain.map (fun c => .str c.id)))
    let root := ("root", Json.str cap.rootLink.issuer)
    match s.verifyCap C wire cap.leaf.aud service action resource none now with
    | .ok _ => return .obj [chain, ("ok", .bool true), root]
    | .error e => return .obj [chain, ("ok", .bool false), ("reason", .str e.text), root]

def runCommand (cmd : String) : Except CommandError (Store × Json) :=
  match cmd with
  | "authz.cap.issue" => s.capIssue C args did env now
  | "authz.cap.import" => do s.importCap C (← capArg args) did now
  | "authz.cap.remove" => s.capRemove args
  | "authz.cap.revoke" => s.capRevoke C args did now
  | "authz.cap.list" => return (s, s.capList)
  | "authz.cap.verify" => do return (s, ← s.capVerify C args now)
  | _ => .error (.reason ("unknown capability command: " ++ cmd))

def prepared : Store := { s with localDid := some did, caps := s.caps.prune C (timestampMillis now) }

def capCommand (cmd : String) : Store × Except CommandError Json :=
  match args with
  | .obj _ =>
    match (s.prepared C did now).runCommand C args did env now cmd with
    | .error e => (s, .error e)
    | .ok (next, result) =>
      if env.saved then ({ next with caps := { next.caps with dirty := false } }, .ok result)
      else (s, .error (.reason "cannot save capabilities"))
  | _ => (s, .error (.reason "arguments must be an object"))

/-! ## Messages -/

def trustsRevoker (sender : String) : Bool := sender == did || (s.policy.ai.issuers ++ s.policy.escrow.issuers).contains sender
    || s.caps.presented.any (fun p => p.trusted && s.caps.live p.cap (timestampMillis now)
      && p.cap.chain.any (fun c => c.issuer == sender))

def idList : Json → Option (List Json)
  | .arr l => if l.length ≤ 64 ∧ l ≠ [] then some l else none
  | _ => none

def acceptRevocation (sender : String) (holder : Option String) (wire : Json) : Option (List String) := do
  let signer ← (wire.index "fromId").asStr
  guard (nodeIdForDid C signer = sender ∧ holder = some signer)
  let ts ← (wire.index "ts").asI64
  guard ((ts - timestampMillis now).natAbs ≤ maxClockSkewMs)
  let ids ← idList (wire.index "ids")
  guard (ids.all (fun id => id.asStr.any validId) = true)
  guard (s.trustsRevoker did now signer = true ∧ Wiresign.verifyWire C wire = true)
  return ids.filterMap asStr

/-- `Store::receive_cap`, a `mistl-cap-present-v1` -/
def receivePresent (sender : String) (holder : Option String) (wire : Json) : Store :=
  match holder, parse C (wire.index "cap") with
  | some holder, .ok cap =>
    let result := s.verifyCap C cap.leaf.wire holder cap.leaf.service (cap.leaf.actions.headD .infer) cap.leaf.resource none now
    let trusted := result.toOption.isSome
    let candidate := match result with
      | .error .untrustedRoot => cap.leaf.service == .escrow && (exactResource cap.leaf.resource).isSome
      | _ => false
    if trusted || candidate then { s with caps := s.caps.insertPresented sender holder cap trusted } else s
  | _, _ => s

/-- `Store::receive_cap`, a `mistl-cap-deliver-v1` -/
def receiveDeliver (holder : Option String) (wire : Json) : Store × Bool :=
  let cap := wire.index "cap"
  match (cap.index "fromId").asStr with
  | none => (s, false)
  | some issuer =>
    if holder ≠ some issuer then (s, false)
    else if maxDeliveredPerIssuer ≤ (s.caps.held.filter (fun v => (v.index "fromId").asStr == some issuer
        && v.index "id" != cap.index "id")).length then (s, false)
    else match s.importCap C cap did now with
      | .ok (s, _) => (s, true)
      | .error _ => (s, false)

/-- `Store::receive_cap`, a `mistl-cap-revoke-v1` -/
def receiveRevoke (sender : String) (holder : Option String) (wire : Json) : Store :=
  match s.acceptRevocation C did now sender holder wire with
  | none => s
  | some ids => { s with caps := ids.foldl (fun b id => b.revoke C id (timestampMillis now)) s.caps }

def receiveCap (sender : String) (holder : Option String) (wire : Json) : Store × Bool :=
  match (wire.index "t").asStr with
  | some t =>
    if t = presentTag then (s.receivePresent C now sender holder wire, false)
    else if t = deliverTag then s.receiveDeliver C did now holder wire
    else if t = revokeTag then (s.receiveRevoke C did now sender holder wire, false)
    else (s, false)
  | none => (s, false)

end Store

end Mistl.Authz
