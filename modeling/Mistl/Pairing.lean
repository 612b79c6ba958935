import Mistl.EscrowProtocol
import Mistl.Lib.Checks
import Mistl.Lib.Runs
/-!
# Pairing — sessions, requests and delegations

`identity/pairing.rs`, the issuer's side, and `delegation::issue`.  A request reads the session under its lock, and writes its
status after the broadcast; what happened to the session in between is not looked at.
-/
open Mistl.Table Mistl.Json Option

namespace Mistl.Pairing

/-- What pairing takes from crates that no other service uses. -/
structure Keys where
  /-- `Sha256::digest` -/
  sha256 : List UInt8 → List UInt8
  /-- `Hmac<Sha256>`: key, payload -/
  hmac : List UInt8 → List UInt8 → List UInt8
  /-- `to_rfc3339_opts(SecondsFormat::Millis, true)` of a time in nanoseconds -/
  rfc3339 : Int → String

def codeAlphabet : List Char := "0123456789ABCDEFGHJKMNPQRSTVWXYZ".toList

def codeLen : Nat := 16

def wireRequest : String := "tc-did-pair:request"

def wireResponse : String := "tc-did-pair:response"

/-- `MAX_TTL_DAYS`, in nanoseconds -/
def maxTtl : Int := 400 * 24 * 3600 * 10 ^ 9

/-- `generate_code` from the bytes that were drawn -/
def generateCode (bytes : Vector UInt8 codeLen) : String :=
  String.ofList (bytes.toList.map (fun b => codeAlphabet.getD (b.toNat % 32) '0'))

section Wires
variable (C : Crates) (K : Keys)

def roomId (code : String) : String :=
  "tc-did-pair-" ++ String.ofList ((C.digest (utf8 ("tc-did-pair-v1|room|" ++ code).toList)).toList.take 32)

def macKey (code : String) : List UInt8 := K.sha256 (utf8 ("tc-did-pair-v1|mac|" ++ code).toList)

def macPayload (msg : Json) : List UInt8 := utf8 (Wiresign.stableStringify (match msg with
    | .obj fields => Escrow.removeField "mac" (.obj fields)
    | _ => .obj []))

def computeMac (msg : Json) (key : List UInt8) : String := C.b64Encode (K.hmac key (macPayload msg))

def verifyMac (msg : Json) (key : List UInt8) (claimed : String) : Bool :=
  (C.b64Decode claimed).any (fun bytes => decide (bytes = K.hmac key (macPayload msg)))

/-! ## Delegations -/

/-- `DelegationV1` -/
structure Delegation where
  v : Nat
  root : String
  leaf : String
  iat : String
  exp : String
  sig : String
  deriving DecidableEq

def Delegation.toJson (d : Delegation) : Json :=
  .obj [("v", .int d.v), ("root", .str d.root), ("leaf", .str d.leaf), ("iat", .str d.iat), ("exp", .str d.exp), ("sig", .str d.sig)]

def Delegation.signingPayload (d : Delegation) : List UInt8 := utf8 (Wiresign.stableStringify (Escrow.removeField "sig" d.toJson))

/-- `Identity`: its DID and its key's signature -/
structure Identity where
  did : String
  sign : List UInt8 → List UInt8

def issue (identity : Identity) (leaf : String) (ttl now : Int) : Except String Delegation := do
  ensure (decide (leaf ≠ identity.did)) "cannot delegate to the root identity itself (root == leaf)"
  ensure (pubkeyFromDid C leaf).isSome "leaf is not a well-formed Ed25519 did:key"
  ensure (decide (0 < ttl)) "ttl must be positive"
  ensure (decide (ttl ≤ maxTtl)) "ttl exceeds the 400-day sanity cap"
  let d : Delegation := ⟨1, identity.did, leaf, K.rfc3339 now, K.rfc3339 (now + ttl), ""⟩
  return { d with sig := C.b64Encode (identity.sign d.signingPayload) }

/-! ## Requests -/

/-- A request whose MAC verified, and what it was read with. -/
structure Request where
  code : String
  ttl : Int
  leaf : String
  nonce : String
  app : String

/-- The checks of `handle_pair_request` before its first `await`. -/
def readRequest (code : String) (ttl : Int) (msg : Json) : Option Request := do
  let mac ← (msg.get? "mac").bind asStr
  if verifyMac C K msg (macKey K code) mac then
    let leaf ← (msg.get? "leaf").bind asStr
    let nonce ← (msg.get? "nonce").bind asStr
    let _ ← pubkeyFromDid C leaf
    some ⟨code, ttl, leaf, nonce, ((msg.get? "app").bind asStr).getD "unknown"⟩
  else none

def response (r : Request) (d : Delegation) : Json :=
  let fields := [("v", Json.int 1), ("type", .str wireResponse), ("nonce", .str r.nonce), ("delegation", d.toJson)]
  .obj (fields ++ [("mac", .str (computeMac C K (.obj fields) (macKey K r.code)))])

/-! ## The session -/

/-- `PairingStatus` -/
inductive Status where
  | waiting
  | issued (delegation : Delegation) (leaf app : String)
  | expired
  | cancelled
  deriving DecidableEq

/-- `PairingSession` -/
structure Session where
  code : String
  room : String
  ttl : Int
  startedAt : Int
  expiresAt : Int
  status : Status

def waitsIn (session : Option Session) (room : String) : Bool :=
  session.any (fun s => decide (s.room = room) && decide (s.status = .waiting))

inductive Event where
  | installed (code : String)
  | broadcast (code : String) (bytes : List UInt8)
  | recorded (code : String) (delegation : Delegation)
  | cancelled (code : String)
  | expired (code : String)

/-- What a call has still to do, from its next lock section or `await` on. -/
inductive Call where
  | request (room : String) (msg : Json)
  | identify (room : String) (request : Request)
  | send (room : String) (request : Request) (delegation : Delegation)
  | settle (room : String) (request : Request) (delegation : Delegation)
  | start (ttl timeout : Int)
  | expire (room : String)

/-- What a call meets in a section: the identity, the time, the bytes of a code, and whether the network and the file did
what they were asked to. -/
structure Env where
  identity : Option Identity
  now : Int
  bytes : Vector UInt8 codeLen
  joined : Bool
  sent : Bool
  saved : Bool

/-- The session after a section, what happened in it, the rest of the call, and a call that it spawned. -/
structure Turn where
  session : Option Session
  events : List Event
  rest : Option Call
  spawned : Option Call

def Call.turn (env : Env) (session : Option Session) : Call → Turn
  | .request room msg =>
    match session.filter (fun s => decide (s.room = room) && decide (s.status = .waiting)) with
    | some s => ⟨session, [], (readRequest C K s.code s.ttl msg).map (.identify room), none⟩
    | none => ⟨session, [], none, none⟩
  | .identify room req =>
    match env.identity with
    | some identity =>
      match issue C K identity req.leaf req.ttl env.now with
      | .ok d => ⟨session, [], some (.send room req d), none⟩
      | .error _ => ⟨session, [], none, none⟩
    | none => ⟨session, [], none, none⟩
  | .send room req d =>
    if env.sent then
      ⟨session, .broadcast req.code (response C K req d).toVec ::
        (if env.saved then [.recorded req.code d] else []), some (.settle room req d), none⟩
    else ⟨session, [], none, none⟩
  | .settle room req d =>
    ⟨session.map (fun s => if s.room = room then { s with status := .issued d req.leaf req.app } else s), [], none, none⟩
  | .start ttl timeout =>
    if env.joined then
      let code := generateCode env.bytes
      let room := roomId C code
      ⟨some ⟨code, room, ttl, env.now, env.now + timeout, .waiting⟩, [.installed code], none, some (.expire room)⟩
    else ⟨session, [], none, none⟩
  | .expire room =>
    match session.filter (fun s => decide (s.room = room) && decide (s.status = .waiting)) with
    | some s => ⟨some { s with status := .expired }, [.expired s.code], none, none⟩
    | none => ⟨session, [], none, none⟩

/-! ## Overlapping calls -/

/-- The session, the calls in progress, and what happened so far. -/
structure Pairings where
  session : Option Session
  calls : Table Nat Call
  next : Nat
  log : List Event

/-- A message comes in, a command is given, or a call has one section more. -/
inductive Act where
  | receive (room : String) (msg : Json)
  | start (ttl timeout : Int)
  | cancel
  | turn (id : Nat) (env : Env)

namespace Pairings

def empty : Pairings := ⟨none, ∅, 0, []⟩

def spawn (x : Pairings) (call : Call) : Pairings := { x with calls := x.calls.insert x.next call, next := x.next + 1 }

def turned (x : Pairings) (id : Nat) (t : Turn) : Pairings := let x := { x with
    session := t.session
    calls := t.rest.elim (x.calls.erase id) (x.calls.insert id)
    log := x.log ++ t.events }
  t.spawned.elim x x.spawn

/-- `cancel` and whether there was something to cancel -/
def cancel (x : Pairings) : Pairings × Bool :=
  match x.session.filter (fun s => decide (s.status = .waiting)) with
  | some s => ({ x with session := some { s with status := .cancelled }, log := x.log ++ [.cancelled s.code] }, true)
  | none => (x, false)

def step (x : Pairings) : Act → Option Pairings
  | .receive room msg =>
    if waitsIn x.session room ∧ (msg.get? "type").bind asStr = some wireRequest then some (x.spawn (.request room msg))
    else some x
  | .start ttl timeout => some (x.spawn (.start ttl timeout))
  | .cancel => some x.cancel.1
  | .turn id env => (x.calls.get id).map (fun call => x.turned id (call.turn C K env x.session))

def run (acts : List Act) : Option Pairings := Runs.run (step C K) empty acts

end Pairings

/-! ## Codes -/

def Event.installedCode : Event → Option String
  | .installed code => some code
  | _ => none

def Event.broadcastCode : Event → Option String
  | .broadcast code _ => some code
  | _ => none

def Event.recordedCode : Event → Option String
  | .recorded code _ => some code
  | _ => none

def Event.closedCode : Event → Option String
  | .cancelled code | .expired code => some code
  | _ => none

def Call.carried : Call → Option (String × Request)
  | .identify room req | .send room req _ | .settle room req _ => some (room, req)
  | _ => none

/-- The call has broadcast a delegation in the room and not yet written the status. -/
def Call.settles (room : String) : Call → Bool
  | .settle room' _ _ => decide (room' = room)
  | _ => false

/-- A code is new; a delegation is broadcast while its session waits, and no other request of the room is about to write the
status; and a status is written over no other than waiting. -/
def Pairings.orderly (x : Pairings) : Act → Bool
  | .turn id env =>
    match x.calls.get id with
    | some (.start _ _) => !env.joined ||
        x.log.all (fun e => e.installedCode.all (fun code => decide (roomId C code ≠ roomId C (generateCode env.bytes))))
    | some (.send room _ _) => !env.sent || waitsIn x.session room && x.calls.all (fun _ call => !call.settles room)
    | some (.settle room _ _) => x.session.all (fun s => decide (s.room = room → s.status = .waiting))
    | _ => true
  | _ => true

/-! ## What a section does -/

variable {C K} {x x' : Pairings} {act : Act} {id : Nat} {call : Call} {env : Env} {session : Option Session}

theorem waitsIn_iff {room : String} : waitsIn session room = true ↔ ∃ s, session = some s ∧ s.room = room ∧ s.status = .waiting := by
  cases session with
  | none | some s => simp [waitsIn]

theorem filter_waiting {room : String} {s : Session}
    (h : session.filter (fun s => decide (s.room = room) && decide (s.status = .waiting)) = some s) :
    session = some s ∧ s.room = room ∧ s.status = .waiting := by
  obtain ⟨hs, hwaits⟩ := filter_eq_some_iff.1 h
  rw [Bool.and_eq_true, decide_eq_true_eq, decide_eq_true_eq] at hwaits
  exact ⟨hs, hwaits⟩

theorem readRequest_code {code : String} {ttl : Int} {msg : Json} {req : Request}
    (h : readRequest C K code ttl msg = some req) : req.code = code := by
  simp only [readRequest, bind_eq_bind, bind_eq_some_iff] at h
  obtain ⟨mac, -, h⟩ := h
  split at h
  · simp only [bind_eq_some_iff] at h
    obtain ⟨leaf, -, nonce, -, key, -, h⟩ := h
    cases h
    rfl
  · cases h

theorem turn_session (s' : Session) (h : (call.turn C K env session).session = some s') : session = some s' ∨
    (∃ s room req d, call = .settle room req d ∧ session = some s ∧ s.room = room ∧
      s' = { s with status := .issued d req.leaf req.app }) ∨
    (∃ s room, call = .expire room ∧ session = some s ∧ s.room = room ∧ s.status = .waiting ∧ s' = { s with status := .expired }) ∨
    ∃ ttl timeout, call = .start ttl timeout ∧ env.joined = true ∧ s'.code = generateCode env.bytes ∧ s'.room = roomId C s'.code := by
  cases call with
  | request room msg | send room req d =>
    simp only [Call.turn] at h
    split at h <;> exact .inl h
  | identify room req =>
    simp only [Call.turn] at h
    repeat' split at h
    all_goals exact .inl h
  | settle room req d =>
    obtain ⟨s, hs, h⟩ := map_eq_some_iff.1 h
    split at h
    · rename_i hroom
      exact .inr (.inl ⟨s, room, req, d, rfl, hs, hroom, h.symm⟩)
    · subst h
      exact .inl hs
  | start ttl timeout =>
    simp only [Call.turn] at h
    split at h
    · rename_i hjoined
      cases h
      exact .inr (.inr (.inr ⟨ttl, timeout, rfl, hjoined, rfl, rfl⟩))
    · exact .inl h
  | expire room =>
    simp only [Call.turn] at h
    split at h
    · rename_i s hs
      obtain ⟨hs, hroom, hwaits⟩ := filter_waiting hs
      cases h
      exact .inr (.inr (.inl ⟨s, room, rfl, hs, hroom, hwaits, rfl⟩))
    · exact .inl h

theorem turn_carried {p : String × Request} {call' : Call} (h : (call.turn C K env session).rest = some call')
    (hp : call'.carried = some p) :
    call.carried = some p ∨ ∃ s, session = some s ∧ s.room = p.1 ∧ p.2.code = s.code := by
  cases call with
  | request room msg =>
    simp only [Call.turn] at h
    split at h
    · rename_i s hs
      obtain ⟨hs, hroom, -⟩ := filter_waiting hs
      obtain ⟨req, hreq, rfl⟩ := map_eq_some_iff.1 h
      cases hp
      exact .inr ⟨s, hs, hroom, readRequest_code hreq⟩
    · cases h
  | identify room req =>
    simp only [Call.turn] at h
    repeat' split at h
    all_goals cases h
    exact .inl hp
  | send room req d =>
    simp only [Call.turn] at h
    split at h <;> cases h
    exact .inl hp
  | settle room req d => cases h
  | start ttl timeout | expire room =>
    simp only [Call.turn] at h
    split at h <;> cases h

theorem turn_spawned {call' : Call} (h : (call.turn C K env session).spawned = some call') :
    call'.carried = none ∧ ∀ room, call'.settles room = false := by
  cases call with
  | start ttl timeout =>
    simp only [Call.turn] at h
    split at h <;> cases h
    exact ⟨rfl, fun _ => rfl⟩
  | settle room req d => cases h
  | request room msg | expire room | send room req d =>
    simp only [Call.turn] at h
    split at h <;> cases h
  | identify room req =>
    simp only [Call.turn] at h
    repeat' split at h
    all_goals cases h

theorem turn_events : (call.turn C K env session).events = [] ∨ (∃ room req d recorded, call = .send room req d ∧ env.sent = true ∧
      (call.turn C K env session).rest = some (.settle room req d) ∧ (call.turn C K env session).session = session ∧
      (call.turn C K env session).events = .broadcast req.code (response C K req d).toVec :: recorded ∧
      (recorded = [] ∨ recorded = [.recorded req.code d])) ∨
    (∃ s room, call = .expire room ∧ session = some s ∧ s.room = room ∧
      (call.turn C K env session).session = some { s with status := .expired } ∧
      (call.turn C K env session).events = [.expired s.code]) ∨
    ∃ ttl timeout, call = .start ttl timeout ∧ env.joined = true ∧
      (call.turn C K env session).events = [.installed (generateCode env.bytes)] := by
  cases call with
  | request room msg =>
    simp only [Call.turn]
    split <;> exact .inl rfl
  | identify room req =>
    simp only [Call.turn]
    repeat' split
    all_goals exact .inl rfl
  | send room req d =>
    simp only [Call.turn]
    split
    · rename_i hsent
      refine .inr (.inl ⟨room, req, d, _, rfl, hsent, rfl, rfl, rfl, ?_⟩)
      split
      · exact .inr rfl
      · exact .inl rfl
    · exact .inl rfl
  | settle room req d => exact .inl rfl
  | start ttl timeout =>
    simp only [Call.turn]
    split
    · rename_i hjoined
      exact .inr (.inr (.inr ⟨ttl, timeout, rfl, hjoined, rfl⟩))
    · exact .inl rfl
  | expire room =>
    simp only [Call.turn]
    split
    · rename_i s hs
      obtain ⟨hs, hroom, -⟩ := filter_waiting hs
      exact .inr (.inr (.inl ⟨s, room, rfl, hs, hroom, rfl, rfl⟩))
    · exact .inl rfl

/-! ## What a step does -/

theorem turned_session (t : Turn) : (x.turned id t).session = t.session := by
  unfold Pairings.turned
  cases t.spawned <;> rfl

theorem turned_log (t : Turn) : (x.turned id t).log = x.log ++ t.events := by
  unfold Pairings.turned
  cases t.spawned <;> rfl

theorem turned_get (t : Turn) (k : Nat) : (x.turned id t).calls.get k =
    if k = x.next ∧ t.spawned.isSome then t.spawned else if k = id then t.rest else x.calls.get k := by
  have hrest : (t.rest.elim (x.calls.erase id) (x.calls.insert id)).get k = if k = id then t.rest else x.calls.get k := by
    cases t.rest with
    | none => exact get_erase _ _ _
    | some call => exact get_insert _ _ _ _
  unfold Pairings.turned
  cases hspawned : t.spawned with
  | none =>
    rw [if_neg (by simp)]
    exact hrest
  | some call =>
    refine (get_insert _ _ _ _).trans ?_
    rw [hrest]
    simp only [isSome_some, and_true]

theorem turned_next (t : Turn) : x.next ≤ (x.turned id t).next := by
  unfold Pairings.turned
  cases t.spawned with
  | none => exact Nat.le_refl _
  | some call => exact Nat.le_succ _

theorem spawn_get (call : Call) (k : Nat) : (x.spawn call).calls.get k = if k = x.next then some call else x.calls.get k :=
  get_insert _ _ _ _

theorem cancel_cases : x.cancel.1 = x ∨ ∃ s, x.session = some s ∧ s.status = .waiting ∧
    x.cancel.1 = { x with session := some { s with status := .cancelled }, log := x.log ++ [.cancelled s.code] } := by
  unfold Pairings.cancel
  split
  · rename_i s hs
    obtain ⟨hs, hwaits⟩ := filter_eq_some_iff.1 hs
    exact .inr ⟨s, hs, of_decide_eq_true hwaits, rfl⟩
  · exact .inl rfl

theorem step_cases (h : x.step C K act = some x') :
    x' = x ∨ (∃ call, x' = x.spawn call ∧ call.carried = none ∧ ∀ room, call.settles room = false) ∨
    (act = .cancel ∧ x' = x.cancel.1) ∨
    ∃ id env call, act = .turn id env ∧ x.calls.get id = some call ∧ x' = x.turned id (call.turn C K env x.session) := by
  cases act with
  | receive room msg =>
    simp only [Pairings.step] at h
    split at h
    · cases h
      exact .inr (.inl ⟨_, rfl, rfl, fun _ => rfl⟩)
    · cases h
      exact .inl rfl
  | start ttl timeout =>
    cases h
    exact .inr (.inl ⟨_, rfl, rfl, fun _ => rfl⟩)
  | cancel =>
    cases h
    exact .inr (.inr (.inl ⟨rfl, rfl⟩))
  | turn id env =>
    obtain ⟨call, hcall, rfl⟩ := map_eq_some_iff.1 h
    exact .inr (.inr (.inr ⟨id, env, call, rfl, hcall, rfl⟩))

end Wires

end Mistl.Pairing
