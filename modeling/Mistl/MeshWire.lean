import Mistl.EscrowContent
/-!
# MeshWire — the guard of the mesh's control messages

`escrow/mesh/wire.rs`.  The nonces are kept in a queue of 4096; the one that is pushed out is forgotten, fresh or not.
`Careful` says that only stale ones are.
-/
open List Mistl.Json

namespace Mistl.Mesh

def tag : String := "mistl-escrow-mesh-v1"

def maxMessage : Nat := 16 * 1024

def maxSkewMs : Nat := 120000

def maxNonces : Nat := 4096

/-- `MAX_PEERS` of the rate table -/
def maxPeers : Nat := 256

def rateWindowMs : Nat := 10000

def rateMessages : Nat := 50

/-- Why an envelope is not opened: a reason of the guard, a text that is no JSON, or a DID that is none. -/
inductive OpenError where
  | reason (text : String)
  | json
  | did

def ensure (condition : Bool) (text : String) : Except OpenError Unit := if condition then .ok () else .error (.reason text)

def context {α : Type} (value : Option α) (text : String) : Except OpenError α :=
  match value with
  | some a => .ok a
  | none => .error (.reason text)

structure PeerRate where
  start : Nat
  count : Nat

structure Guard where
  nonces : Finset (String × String)
  nonceOrder : List (String × String)
  peers : Table String PeerRate

def Guard.default : Guard := ⟨∅, [], ∅⟩

structure Inbound where
  kind : String
  fromDid : String
  body : Json

/-- `PeerRate` entries that are still counted. -/
def PeerRate.live (nowMs : Nat) (rate : PeerRate) : Bool := decide (rate.start ≤ nowMs) && decide (nowMs - rate.start < rateWindowMs)

def Guard.recordMessage (g : Guard) (transportFrom : String) (nowMs : Nat) : Guard × Except OpenError Unit :=
  if Escrow.hexString transportFrom 16 = false then (g, .error (.reason "invalid transport node id"))
  else
    let peers := g.peers.filter (fun _ rate => rate.live nowMs)
    let g := { g with peers := peers }
    if peers.get transportFrom = none ∧ maxPeers ≤ peers.size then
      (g, .error (.reason "escrow mesh peer rate table full"))
    else
      let rate := (peers.get transportFrom).getD ⟨nowMs, 0⟩
      if rateMessages ≤ rate.count then (g, .error (.reason "escrow mesh peer rate exceeded"))
      else ({ g with peers := peers.insert transportFrom { rate with count := rate.count + 1 } }, .ok ())

/-! ## Bodies -/

def asU64 (j : Json) : Option Nat := j.asUnsigned (2 ^ 64)

def isHex (j : Json) (len : Nat) : Bool := j.asStr.any fun s => Escrow.hexString s len

def isObject : Json → Bool
  | .obj _ => true
  | _ => false

/-- `raw["free"].as_u64() <= raw["capacity"].as_u64()`, nothing below everything -/
def optLe : Option Nat → Option Nat → Bool
  | none, _ => true
  | some _, none => false
  | some a, some b => decide (a ≤ b)

def validateEntry (previous : String) (e : Json) : Except OpenError String := do
  let slot ← context (e.index "slot").asStr "invalid slot"
  ensure (Escrow.hexString slot 32 && decide (previous < slot)) "index order"
  ensure ((asU64 (e.index "seq")).any (fun n => decide (1 ≤ n) && decide (n ≤ 9007199254740991))) "invalid sequence"
  ensure (isHex (e.index "hash") 64) "invalid hash"
  ensure ((e.index "kind" == .str "head" || e.index "kind" == .str "tombstone") && (e.index "held").asBool.isSome)
    "invalid entry"
  ensure (e.index "kind" != .str "tombstone" || e.index "held" == .bool false) "held tombstone"
  return slot

def validateEntries (previous : String) : List Json → Except OpenError String
  | [] => .ok previous
  | e :: l => do
    let slot ← validateEntry previous e
    validateEntries slot l

variable (C : Crates)

/-- `pubkey_from_did(did)?` -/
def requireDid (did : String) : Except OpenError Unit := if (pubkeyFromDid C did).isNone then .error .did else .ok ()

def validateBody (kind : String) (raw : Json) : Except OpenError Unit := do
  ensure (raw.get? "v").isNone "mesh envelope must not be a public request"
  if kind = "hello" then
    ensure (asU64 (raw.index "free")).isSome "invalid hello free"
    ensure (asU64 (raw.index "capacity")).isSome "invalid hello capacity"
    ensure (asU64 (raw.index "since")).isSome "invalid hello since"
    ensure (asU64 (raw.index "count")).isSome "invalid hello count"
    ensure ((asU64 (raw.index "count")).any (fun n => decide (n ≤ 65536))) "too many slots"
    ensure (optLe (asU64 (raw.index "free")) (asU64 (raw.index "capacity"))) "invalid free capacity"
    ensure (isHex (raw.index "digest") 64) "invalid digest"
    ensure (isHex (raw.index "held_digest") 64) "invalid digest"
  else if kind = "index_req" then
    ensure (raw.index "after" == .null || isHex (raw.index "after") 32) "invalid cursor"
  else if kind = "index" then
    let entries ← context (match raw.index "entries" with | .arr l => some l | _ => none) "invalid index"
    ensure (decide (entries.length ≤ 128)) "too many index entries"
    let last ← validateEntries "" entries
    ensure (raw.index "next" == .null || (!entries.isEmpty && raw.index "next" == .str last)) "invalid next cursor"
  else if kind = "head_req" then
    ensure (isHex (raw.index "slot") 32) "invalid slot"
  else if kind = "head" then
    ensure (isObject (raw.index "head")) "invalid head"
    match (raw.index "home").asStr with
    | some home => requireDid C home
    | none => .ok ()
    ensure (raw.index "home" == .null || (raw.index "home").asStr.isSome) "invalid home"
  else if kind = "tombstone" then
    ensure (isObject (raw.index "delete") && isObject (raw.index "deleted_head")
      && (raw.index "writer").asStr.any (fun s => s.utf8ByteSize == 43)) "invalid tombstone"
  else .error (.reason "unknown escrow mesh message type")

/-! ## Envelopes -/

/-- What an envelope is accepted as: who signed it, its nonce and its timestamp. -/
structure Envelope where
  did : String
  nonce : String
  ts : Nat
  kind : String

def Envelope.key (e : Envelope) : String × String := (e.did, e.nonce)

/-- `now_ms.abs_diff(ts) <= MAX_SKEW_MS` -/
def fresh (nowMs ts : Nat) : Bool := decide (nowMs - ts + (ts - nowMs) ≤ maxSkewMs)

/-- The checks of `Guard::open` on an envelope of a peer that is below its rate. -/
def checkEnvelope (nonces : Finset (String × String)) (raw : Json) (room transportFrom : String) (nowMs : Nat) :
    Except OpenError Envelope := do
  ensure (Wiresign.verifyWire C raw) "invalid escrow mesh signature"
  ensure (Escrow.validRoom room && raw.index "room" == .str room) "wrong escrow mesh room"
  let ts ← context (asU64 (raw.index "ts")) "invalid escrow mesh timestamp"
  ensure (fresh nowMs ts) "escrow mesh message outside time window"
  let nonce ← context (raw.index "nonce").asStr "missing escrow mesh nonce"
  ensure (Escrow.hexString nonce 16) "invalid escrow mesh nonce"
  let did ← context (raw.index "fromId").asStr "missing escrow mesh signer"
  requireDid C did
  ensure (decide ((did, nonce) ∉ nonces)) "replayed escrow mesh message"
  ensure (nodeIdForDid C did == transportFrom) "escrow mesh sender differs from transport"
  let kind ← context (raw.index "type").asStr "missing escrow mesh type"
  validateBody C kind raw
  return ⟨did, nonce, ts, kind⟩

def Guard.remember (g : Guard) (key : String × String) : Guard := let g := if g.nonceOrder.length = maxNonces then
      match g.nonceOrder with
      | old :: rest => { g with nonces := g.nonces.erase old, nonceOrder := rest }
      | [] => g
    else g
  { g with nonces := insert key g.nonces, nonceOrder := g.nonceOrder ++ [key] }

/-- `Guard::open`, with the envelope that was accepted -/
def Guard.openEnvelope (g : Guard) (bytes : List UInt8) (room transportFrom : String) (nowMs : Nat) :
    Guard × Except OpenError (Envelope × Inbound) :=
  if maxMessage < bytes.length then (g, .error (.reason "escrow mesh message too large"))
  else match valueOf bytes with
    | none => (g, .error .json)
    | some raw =>
      if raw.index "t" ≠ .str tag then (g, .error (.reason "invalid escrow mesh tag"))
      else match g.recordMessage transportFrom nowMs with
        | (g, .error e) => (g, .error e)
        | (g, .ok ()) => match checkEnvelope C g.nonces raw room transportFrom nowMs with
          | .error e => (g, .error e)
          | .ok envelope => (g.remember envelope.key, .ok (envelope, ⟨envelope.kind, envelope.did, raw⟩))

def Guard.open (g : Guard) (bytes : List UInt8) (room transportFrom : String) (nowMs : Nat) : Guard × Except OpenError Inbound :=
  let (g, result) := g.openEnvelope C bytes room transportFrom nowMs
  (g, result.map Prod.snd)

/-! ## What the checks establish -/

variable {α : Type}

variable {next : Unit → Except OpenError α}

theorem ensure_bind {condition : Bool} {text : String} {a : α} :
    (ensure condition text >>= next) = .ok a ↔ condition = true ∧ next () = .ok a := by
  cases condition <;> simp [ensure, bind, Except.bind]

theorem context_bind {β : Type} {value : Option β} {text : String} {next : β → Except OpenError α} {a : α} :
    (context value text >>= next) = .ok a ↔ ∃ b, value = some b ∧ next b = .ok a := by
  cases value <;> simp [context, bind, Except.bind]

theorem requireDid_bind {did : String} {a : α} :
    (requireDid C did >>= next) = .ok a ↔ (pubkeyFromDid C did).isSome = true ∧ next () = .ok a := by
  unfold requireDid
  cases pubkeyFromDid C did <;> simp [bind, Except.bind]

theorem asStr_eq_some {j : Json} {s : String} : j.asStr = some s ↔ j = .str s := by
  cases j <;> simp [asStr]

variable {C}

/-- **An envelope that checks.** -/
structure Checks (C : Crates) (nonces : Finset (String × String)) (raw : Json) (room transportFrom : String) (nowMs : Nat)
    (e : Envelope) : Prop where
  signed : Wiresign.verifyWire C raw = true
  room : Escrow.validRoom room = true ∧ raw.index "room" = .str room
  ts : asU64 (raw.index "ts") = some e.ts
  fresh : fresh nowMs e.ts = true
  nonce : raw.index "nonce" = .str e.nonce
  hex : Escrow.hexString e.nonce 16 = true
  did : raw.index "fromId" = .str e.did
  pubkey : (pubkeyFromDid C e.did).isSome = true
  new : e.key ∉ nonces
  sender : nodeIdForDid C e.did = transportFrom
  kind : raw.index "type" = .str e.kind
  body : validateBody C e.kind raw = .ok ()

variable {room transportFrom : String} {nowMs : Nat} {nonces : Finset (String × String)}

theorem checkEnvelope_eq_ok {raw : Json} 
    {e : Envelope} :
    checkEnvelope C nonces raw room transportFrom nowMs = .ok e ↔ Checks C nonces raw room transportFrom nowMs e := by
  unfold checkEnvelope
  simp only [ensure_bind, context_bind, requireDid_bind, asStr_eq_some, Bool.and_eq_true, beq_iff_eq, decide_eq_true_eq]
  constructor
  · rintro ⟨h1, h2, ts, h3, h4, nonce, h5, h6, did, h7, h8, h9, h10, kind, h11, h12⟩
    cases hb : validateBody C kind raw with
    | error err => rw [hb] at h12; cases h12
    | ok u =>
      rw [hb] at h12
      cases h12
      exact ⟨h1, h2, h3, h4, h5, h6, h7, h8, h9, h10, h11, hb⟩
  · intro h
    refine ⟨h.signed, h.room, e.ts, h.ts, h.fresh, e.nonce, h.nonce, h.hex, e.did, h.did, h.pubkey, h.new, h.sender, e.kind, h.kind, ?_⟩
    rw [h.body]
    rfl

theorem openEnvelope_ok {g g' : Guard} {bytes : List UInt8} {e : Envelope} {i : Inbound} :
    g.openEnvelope C bytes room transportFrom nowMs = (g', .ok (e, i)) ↔
      bytes.length ≤ maxMessage ∧ ∃ raw g₁, valueOf bytes = some raw ∧ raw.index "t" = .str tag ∧
        g.recordMessage transportFrom nowMs = (g₁, .ok ()) ∧ Checks C g₁.nonces raw room transportFrom nowMs e ∧
        g' = g₁.remember e.key ∧ i = ⟨e.kind, e.did, raw⟩ := by
  unfold Guard.openEnvelope
  constructor
  · intro h
    split at h
    · cases h
    rename_i hlen
    split at h
    · cases h
    rename_i raw hraw
    split at h
    · cases h
    rename_i htag
    split at h
    · cases h
    rename_i g₁ hrec
    split at h
    · cases h
    rename_i e' hcheck
    cases h
    exact ⟨Nat.not_lt.1 hlen, raw, g₁, hraw, not_not.1 htag, hrec, checkEnvelope_eq_ok.1 hcheck, rfl, rfl⟩
  · rintro ⟨hlen, raw, g₁, hraw, htag, hrec, hcheck, rfl, rfl⟩
    rw [if_neg (Nat.not_lt.2 hlen), hraw]
    simp only [htag, ne_eq, not_true_eq_false, if_false, hrec, checkEnvelope_eq_ok.2 hcheck]

theorem recordMessage_nonces (g : Guard) (transportFrom : String) (nowMs : Nat) :
    (g.recordMessage transportFrom nowMs).1.nonces = g.nonces ∧ (g.recordMessage transportFrom nowMs).1.nonceOrder = g.nonceOrder := by
  unfold Guard.recordMessage
  split
  · exact ⟨rfl, rfl⟩
  dsimp only
  split
  · exact ⟨rfl, rfl⟩
  split <;> exact ⟨rfl, rfl⟩

theorem openEnvelope_error {g g' : Guard} {bytes : List UInt8} 
    {err : OpenError} (h : g.openEnvelope C bytes room transportFrom nowMs = (g', .error err)) :
    g'.nonces = g.nonces ∧ g'.nonceOrder = g.nonceOrder := by
  have hrec := recordMessage_nonces g transportFrom nowMs
  unfold Guard.openEnvelope at h
  split at h
  · cases h; exact ⟨rfl, rfl⟩
  split at h
  · cases h; exact ⟨rfl, rfl⟩
  split at h
  · cases h; exact ⟨rfl, rfl⟩
  split at h
  · rename_i heq
    rw [heq] at hrec
    cases h
    exact hrec
  rename_i heq
  rw [heq] at hrec
  split at h
  · cases h
    exact hrec
  · cases h

/-! ## Runs -/

/-- A call of `Guard::open`. -/
structure Call where
  bytes : List UInt8
  room : String
  transportFrom : String
  nowMs : Nat

variable (C) in
def Guard.call (g : Guard) (c : Call) : Guard × Option Envelope :=
  match g.openEnvelope C c.bytes c.room c.transportFrom c.nowMs with
  | (g, .ok (e, _)) => (g, some e)
  | (g, .error _) => (g, none)

variable (C) in
def Guard.opened : Guard → List Call → List Envelope
  | _, [] => []
  | g, c :: calls => (g.call C c).2.toList ++ (g.call C c).1.opened calls

variable (C) in
/-- **Only stale nonces are forgotten**: when an envelope is let in over a full queue, the one whose nonce is pushed out has
left the clock skew.  `past` are the envelopes opened before. -/
def Careful : List Envelope → Guard → List Call → Prop
  | _, _, [] => True
  | past, g, c :: calls =>
    ((g.call C c).2.isSome = true → g.nonceOrder.length = maxNonces → ∀ e ∈ past, g.nonceOrder.head? = some e.key →
      e.ts + maxSkewMs < c.nowMs) ∧
    Careful (past ++ (g.call C c).2.toList) (g.call C c).1 calls

/-- **A nonce stands for one envelope**: two messages of one signer with the same nonce have the same timestamp. -/
def NoncesUnique (calls : List Call) : Prop :=
  ∀ c ∈ calls, ∀ c' ∈ calls, ∀ raw raw', valueOf c.bytes = some raw → valueOf c'.bytes = some raw' →
    raw.index "fromId" = raw'.index "fromId" → raw.index "nonce" = raw'.index "nonce" → raw.index "ts" = raw'.index "ts"

variable {g : Guard} {c : Call} {e : Envelope} {past : List Envelope}

theorem call_some (h : (g.call C c).2 = some e) : ∃ (raw : Json) (g₁ : Guard), valueOf c.bytes = some raw ∧
    g₁.nonces = g.nonces ∧ g₁.nonceOrder = g.nonceOrder ∧ Checks C g₁.nonces raw c.room c.transportFrom c.nowMs e ∧
    (g.call C c).1 = g₁.remember e.key := by
  unfold Guard.call at h ⊢
  split at h
  · rename_i g' e' i heq
    cases h
    obtain ⟨-, raw, g₁, hraw, -, hrec, hcheck, rfl, rfl⟩ := openEnvelope_ok.1 heq
    have hn := recordMessage_nonces g c.transportFrom c.nowMs
    rw [hrec] at hn
    exact ⟨raw, g₁, hraw, hn.1, hn.2, hcheck, rfl⟩
  · cases h

theorem call_none (h : (g.call C c).2 = none) : (g.call C c).1.nonces = g.nonces := by
  unfold Guard.call at h ⊢
  split at h
  · cases h
  · rename_i heq
    exact (openEnvelope_error heq).1

/-- An envelope that cannot be opened again: its nonce is remembered, or it is stale. -/
def Spent (g : Guard) (nowMs : Nat) (e : Envelope) : Prop := e.key ∈ g.nonces ∨ e.ts + maxSkewMs < nowMs

theorem mem_remember {key k : String × String} (hk : k ∈ g.nonces)
    (hold : g.nonceOrder.length = maxNonces → g.nonceOrder.head? ≠ some k) : k ∈ (g.remember key).nonces := by
  unfold Guard.remember
  refine Finset.mem_insert_of_mem ?_
  split
  · rename_i hlen
    split
    · rename_i old rest heq
      refine Finset.mem_erase.2 ⟨fun he => hold hlen ?_, hk⟩
      rw [heq, he]
      rfl
    · exact hk
  · exact hk

theorem Spent.call (h : Spent g c.nowMs e) (hmem : e ∈ past)
    (hcareful : (g.call C c).2.isSome = true → g.nonceOrder.length = maxNonces → ∀ e ∈ past,
      g.nonceOrder.head? = some e.key → e.ts + maxSkewMs < c.nowMs) : Spent (g.call C c).1 c.nowMs e := by
  rcases h with hk | hstale
  · cases hcall : (g.call C c).2 with
    | none =>
      left
      rw [call_none hcall]
      exact hk
    | some x =>
      obtain ⟨raw, g₁, -, hn, ho, -, heq⟩ := call_some hcall
      by_cases hpushed : g.nonceOrder.length = maxNonces ∧ g.nonceOrder.head? = some e.key
      · exact .inr (hcareful (by rw [hcall]; rfl) hpushed.1 e hmem hpushed.2)
      · left
        rw [heq]
        refine mem_remember (hn ▸ hk) (fun hlen hhead => hpushed ?_)
        rw [ho] at hlen hhead
        exact ⟨hlen, hhead⟩
  · exact .inr hstale

theorem spent_call (h : (g.call C c).2 = some e) : Spent (g.call C c).1 c.nowMs e := by
  obtain ⟨raw, g₁, -, -, -, -, heq⟩ := call_some h
  left
  rw [heq]
  exact Finset.mem_insert_self _ _

theorem le_of_fresh {nowMs ts : Nat} (h : fresh nowMs ts = true) : nowMs ≤ ts + maxSkewMs := by
  have := of_decide_eq_true h
  omega

theorem not_reopened : ∀ (calls : List Call) {past : List Envelope} {g : Guard} {start : Nat},
    (∀ e ∈ past, Spent g start e) → (∀ c ∈ calls, start ≤ c.nowMs) → calls.Pairwise (fun a b => a.nowMs ≤ b.nowMs) →
    Careful C past g calls → ∀ x ∈ g.opened C calls, ∀ e ∈ past, x.key = e.key → x.ts ≠ e.ts
  | [], _, _, _, _, _, _, _ => nofun
  | c :: calls, past, g, start, hspent, hstart, hclock, hcareful => by
    rw [pairwise_cons] at hclock
    have hnow : ∀ e ∈ past, Spent g c.nowMs e := fun e he => (hspent e he).imp id (fun h => lt_of_lt_of_le h (hstart c mem_cons_self))
    intro x hx e he hkey hts
    rcases mem_append.1 hx with hx | hx
    · have hx := Option.mem_toList.1 hx
      obtain ⟨raw, g₁, -, hn, -, hcheck, -⟩ := call_some hx
      rcases hnow e he with hk | hstale
      · rw [← hkey, ← hn] at hk
        exact hcheck.new hk
      · have := le_of_fresh hcheck.fresh
        omega
    · have hnext : ∀ y ∈ past ++ (g.call C c).2.toList, Spent (g.call C c).1 c.nowMs y := by
        intro y hy
        rcases mem_append.1 hy with hy | hy
        · exact (hnow y hy).call hy hcareful.1
        · exact spent_call (Option.mem_toList.1 hy)
      exact not_reopened calls hnext hclock.1 hclock.2 hcareful.2 x hx e (mem_append_left _ he) hkey hts

theorem opened_nodup : ∀ (calls : List Call) {past : List Envelope} {g : Guard} {start : Nat},
    (∀ e ∈ past, Spent g start e) → (∀ c ∈ calls, start ≤ c.nowMs) → calls.Pairwise (fun a b => a.nowMs ≤ b.nowMs) →
    Careful C past g calls → (g.opened C calls).Pairwise (fun x y => x.key = y.key → x.ts ≠ y.ts)
  | [], _, _, _, _, _, _, _ => List.Pairwise.nil
  | c :: calls, past, g, start, hspent, hstart, hclock, hcareful => by
    rw [pairwise_cons] at hclock
    have hnext : ∀ y ∈ past ++ (g.call C c).2.toList, Spent (g.call C c).1 c.nowMs y := by
      intro y hy
      rcases mem_append.1 hy with hy | hy
      · exact Spent.call ((hspent y hy).imp id (fun h => lt_of_lt_of_le h (hstart c mem_cons_self))) hy hcareful.1
      · exact spent_call (Option.mem_toList.1 hy)
    have ih := opened_nodup calls hnext hclock.1 hclock.2 hcareful.2
    rw [Guard.opened]
    cases hcall : (g.call C c).2 with
    | none => exact ih
    | some x =>
      rw [Option.toList_some, singleton_append, pairwise_cons]
      refine ⟨fun y hy hkey hts => ?_, ih⟩
      exact not_reopened calls hnext hclock.1 hclock.2 hcareful.2 y hy x
        (mem_append_right _ (Option.mem_toList.2 hcall)) hkey.symm hts.symm

theorem mem_opened : ∀ (calls : List Call) {g : Guard} {x : Envelope}, x ∈ g.opened C calls →
    ∃ c ∈ calls, ∃ raw, valueOf c.bytes = some raw ∧ raw.index "fromId" = .str x.did ∧
      raw.index "nonce" = .str x.nonce ∧ asU64 (raw.index "ts") = some x.ts
  | [], _, _, h => by cases h
  | c :: calls, g, x, h => by
    rcases mem_append.1 h with h | h
    · obtain ⟨raw, g₁, hraw, -, -, hcheck, -⟩ := call_some (Option.mem_toList.1 h)
      exact ⟨c, mem_cons_self, raw, hraw, hcheck.did, hcheck.nonce, hcheck.ts⟩
    · obtain ⟨c', hc', hraw⟩ := mem_opened calls h
      exact ⟨c', mem_cons_of_mem _ hc', hraw⟩

/-- **Envelopes are opened at most once**, in every run that forgets only stale nonces: no captured envelope is opened again,
and where a nonce stands for one envelope, no nonce of a signer is. -/
theorem opened_once (C : Crates) (calls : List Call) (hclock : calls.Pairwise (fun a b => a.nowMs ≤ b.nowMs))
    (hcareful : Careful C [] .default calls) :
    ((Guard.default.opened C calls).map (fun e => (e.key, e.ts))).Nodup ∧
      (NoncesUnique calls → ((Guard.default.opened C calls).map Envelope.key).Nodup) := by
  have hpairs := @opened_nodup C calls [] .default 0 nofun (fun c _ => Nat.zero_le _) hclock hcareful
  refine ⟨pairwise_map.2 (hpairs.imp (fun h he => ?_)), fun hunique => pairwise_map.2 ?_⟩
  · exact h (Prod.ext_iff.1 he).1 (Prod.ext_iff.1 he).2
  · refine hpairs.imp_of_mem (fun {x y} hx hy h hkey => h hkey ?_)
    obtain ⟨c, hc, raw, hraw, hdid, hnonce, hts⟩ := mem_opened calls hx
    obtain ⟨c', hc', raw', hraw', hdid', hnonce', hts'⟩ := mem_opened calls hy
    obtain ⟨hd, hn⟩ := Prod.ext_iff.1 hkey
    have hsame := hunique c hc c' hc' raw raw' hraw hraw' (by rw [hdid, hdid']; exact congrArg Json.str hd)
      (by rw [hnonce, hnonce']; exact congrArg Json.str hn)
    rw [hsame, hts'] at hts
    exact (Option.some.inj hts).symm

/-! ## A flood of four peers -/

def floodDids : List String :=
  ["did:key:z6Mkv9WMHQD8qwxombLiBsJDJbGiH5WiUpR5jGZrPMy7sB7Q", "did:key:z6MkwJFpvJVFe15ygGgYLTYuiPwfhkkDRkMG4eKQFT8g65yE",
    "did:key:z6MkgAnvkP45uNxwCKeNdt6wrYkEjpYX4f7Nrd8MQqFL8Fbn", "did:key:z6Mkj6joiZPz3kKe5PpGNLjCrTphanK4S5PXgpwVQPkyrvVk"]

def floodDigests : List String := ["062c866819ecefaf1aa731fb0a291ef45cd944685fa9c0b6b7fbf19e364ba0dd",
    "7c66ed3ffc8af1fc40b5b942722a23cb501b13b2b1b356c7d1d563c6bb7ec234",
    "61de161cd54c9221f308e9c4c25cfd09b709f2a185ca1be11bb6edd22f52fa6c",
    "8cede430c92d7a52e045b408cbda1ba2164840160b67bbfffe4b84befae4d424"]

def floodCrates : Crates := sampleCrates ((floodDids.map (fun d => utf8 d.toList)).zip floodDigests)

def floodDid (n : Nat) : String := floodDids.getD (n % 4) ""

def floodNode (n : Nat) : String := String.ofList ((floodDigests.getD (n % 4) "").toList.take 16)

def floodNonce (n : Nat) : String := Escrow.hexPad 12 n

def floodNow (n : Nat) : Nat := 1000000 + 10000 * ((n + 199) / 200)

def floodTs (n : Nat) : Nat := if n = 0 then 1120000 else floodNow n

def floodEnvelope (n : Nat) : Envelope := ⟨floodDid n, floodNonce n, floodTs n, "head_req"⟩

def floodWire (n : Nat) : Json := .obj [("fromId", .str (floodDid n)), ("nonce", .str (floodNonce n)), ("room", .str "notes"),
    ("signature", .str "cIrc7zzVXtxc60hX4oK-fZF4fszrzD8SOgXUlig8RKqAGHf5S4466MghhKEM2lyoMFB2qrMCgoSwWaEci46zDg"),
    ("slot", .str "aaaaaaaaaaaaaaaaaaaaaaaaaaaaaaaa"), ("t", .str tag), ("ts", .int (floodTs n)), ("type", .str "head_req")]

def floodCall (n : Nat) : Call := ⟨(floodWire n).toVec, "notes", floodNode n, floodNow n⟩

/-- Each peer sends fifty messages in ten seconds; the first message is sent again at the end. -/
def flood : List Call := (List.range (maxNonces + 1)).map floodCall ++ [{ floodCall 0 with nowMs := 1220000 }]

theorem floodDid_mod (n : Nat) : floodDid n = floodDid (n % 4) := by
  unfold floodDid
  rw [Nat.mod_mod]

theorem floodNode_mod (n : Nat) : floodNode n = floodNode (n % 4) := by
  unfold floodNode
  rw [Nat.mod_mod]

theorem flood_data : (∀ q < 4, (pubkeyFromDid floodCrates (floodDid q)).isSome = true ∧
      nodeIdForDid floodCrates (floodDid q) = floodNode q ∧ (floodDid q).utf8ByteSize = didKeyLen ∧
      Escrow.hexString (floodNode q) 16 = true ∧ stringSize (floodDid q) ≤ 102) ∧
    (∀ a < 4, ∀ b < 4, floodNode a = floodNode b → a = b) ∧
    (floodCrates.b64Decode
        "cIrc7zzVXtxc60hX4oK-fZF4fszrzD8SOgXUlig8RKqAGHf5S4466MghhKEM2lyoMFB2qrMCgoSwWaEci46zDg" ≠ none ∧
      "cIrc7zzVXtxc60hX4oK-fZF4fszrzD8SOgXUlig8RKqAGHf5S4466MghhKEM2lyoMFB2qrMCgoSwWaEci46zDg".utf8ByteSize
        = Wiresign.signatureLen) ∧
    fieldsSize [("fromId", .null), ("nonce", .null), ("room", .str "notes"),
      ("signature", .str "cIrc7zzVXtxc60hX4oK-fZF4fszrzD8SOgXUlig8RKqAGHf5S4466MghhKEM2lyoMFB2qrMCgoSwWaEci46zDg"),
      ("slot", .str "aaaaaaaaaaaaaaaaaaaaaaaaaaaaaaaa"), ("t", .str tag), ("ts", .null), ("type", .str "head_req")] ≤ 1000 := by
  decide +kernel

theorem flood_peer (n : Nat) : (pubkeyFromDid floodCrates (floodDid n)).isSome = true ∧
    nodeIdForDid floodCrates (floodDid n) = floodNode n ∧ (floodDid n).utf8ByteSize = didKeyLen ∧
    Escrow.hexString (floodNode n) 16 = true ∧ stringSize (floodDid n) ≤ 102 := by
  have := flood_data.1 (n % 4) (Nat.mod_lt _ (by decide))
  rwa [← floodDid_mod, ← floodNode_mod] at this

theorem floodNode_inj {q n : Nat} (hq : q < 4) (h : floodNode q = floodNode n) : q = n % 4 := by
  rw [floodNode_mod n] at h
  exact flood_data.2.1 q hq _ (Nat.mod_lt _ (by decide)) h

theorem floodTs_lt (n : Nat) (hn : n ≤ 4096) : floodTs n < 10000000 := by
  unfold floodTs floodNow
  split <;> omega

theorem valueOf_floodWire (n : Nat) (hn : n ≤ 4096) : valueOf (floodWire n).toVec = some (floodWire n) := by
  have hts := floodTs_lt n hn
  have hparse : fromSlice (floodWire n).toVec = some (floodWire n) := by
    refine fromSlice_toVec _ ?_ ?_
    · rw [floodWire]
      simp only [ReprFields, Json.Repr, and_true, true_and]
      omega
    · rw [floodWire]
      simp [nestingFields, nesting, maxDepth]
  rw [valueOf, hparse, Option.map_some, floodWire]
  simp +decide only [valueFields, Json.value, setField, if_false]

theorem length_floodWire (n : Nat) (hn : n ≤ 4096) : (floodWire n).toVec.length ≤ maxMessage := by
  have hts := floodTs_lt n hn
  have hdid : stringSize (floodDid n) ≤ 102 := (flood_peer n).2.2.2.2
  have hnonce : stringSize (floodNonce n) = 18 := Escrow.stringSize_hex (Escrow.hexString_hexPad 12 n)
  have hint : Json.size (.int (floodTs n)) ≤ 28 := by
    have hdigits : (Nat.toDigits 10 (floodTs n)).length ≤ 7 := (Nat.length_toDigits_le_iff (by decide) (by decide)).2 hts
    have hle := length_utf8_le (Nat.toDigits 10 (floodTs n))
    rw [Json.size, toVec, Json.write, writeInt, if_neg (by omega), Int.natAbs_natCast]
    omega
  have hconst := flood_data.2.2.2
  show Json.size (floodWire n) ≤ _
  rw [floodWire, size_obj]
  simp only [fieldsSize, Json.size_str] at hconst ⊢
  unfold maxMessage
  omega

theorem flood_checks (n : Nat) (hn : n ≤ 4096) 
    (hfresh : fresh nowMs (floodTs n) = true) (hnew : (floodEnvelope n).key ∉ nonces) :
    Checks floodCrates nonces (floodWire n) "notes" (floodNode n) nowMs (floodEnvelope n) := by
  obtain ⟨hkey, hnode, hlen, -⟩ := flood_peer n
  have hts := floodTs_lt n hn
  refine ⟨?_, ⟨by decide, rfl⟩, ?_, hfresh, rfl, Escrow.hexString_hexPad 12 n, rfl, hkey, hnew, hnode, rfl, ?_⟩
  · obtain ⟨hb64, hsig⟩ := flood_data.2.2.1
    have hfrom : ((floodWire n).get? "fromId").bind asStr = some (floodDid n) := rfl
    have hsignature : ((floodWire n).get? "signature").bind asStr
        = some "cIrc7zzVXtxc60hX4oK-fZF4fszrzD8SOgXUlig8RKqAGHf5S4466MghhKEM2lyoMFB2qrMCgoSwWaEci46zDg" := rfl
    obtain ⟨sig, hdec⟩ := Option.ne_none_iff_exists'.1 hb64
    obtain ⟨key, hpub⟩ := Option.isSome_iff_exists.1 hkey
    unfold Wiresign.verifyWire
    show (if _ then false else _) = true
    rw [if_neg (by rw [hlen]; decide), hdec]
    show verifyDid _ _ _ _ = true
    rw [verifyDid, hpub]
    rfl
  · show asU64 (.int (floodTs n)) = some (floodTs n)
    unfold asU64 asUnsigned
    dsimp only
    rw [if_pos (by omega)]
    rfl
  · rfl

/-- How many messages of its ten seconds a peer has sent before message `n`. -/
def floodCount (q n : Nat) : Nat := ((n + 199) % 200 + 3 - (q + 3) % 4) / 4

/-- The rates before message `n`, at time `t`: what is counted was sent then, and is below the limit. -/
def FloodRates (g : Guard) (n t : Nat) : Prop := ∀ node rate, g.peers.get node = some rate → ∃ q < 4, node = floodNode q ∧
    (rate.start + rateWindowMs ≤ t ∨ rate.start = t ∧ rate.count ≤ floodCount q n)

theorem flood_size {peers : Table String PeerRate} (h : ∀ node rate, peers.get node = some rate → ∃ q < 4, node = floodNode q) :
    peers.size < maxPeers := by
  let four : Table String PeerRate := (((Table.insert ∅ (floodNode 0) ⟨0, 0⟩).insert (floodNode 1) ⟨0, 0⟩).insert
    (floodNode 2) ⟨0, 0⟩).insert (floodNode 3) ⟨0, 0⟩
  have hfour : ∀ q < 4, four.get (floodNode q) ≠ none := by
    intro q hq hnone
    simp only [four, Table.get_insert] at hnone
    interval_cases q <;> simp at hnone
  have hsize : four.size < maxPeers := by
    have hstep : ∀ (t : Table String PeerRate) (node : String) (rate : PeerRate), (t.insert node rate).size ≤ t.size + 1 := by
      intro t node rate
      cases hget : t.get node with
      | none => exact le_of_eq (Table.size_insert hget rate)
      | some old => exact (le_of_eq (Table.size_replace hget rate)).trans (Nat.le_succ _)
    have h4 : four.size ≤ (∅ : Table String PeerRate).size + 1 + 1 + 1 + 1 :=
      (hstep _ _ _).trans (Nat.add_le_add_right ((hstep _ _ _).trans (Nat.add_le_add_right
        ((hstep _ _ _).trans (Nat.add_le_add_right (hstep _ _ _) 1)) 1)) 1)
    exact h4.trans_lt (by decide)
  refine lt_of_le_of_lt (Table.size_le_of_keys (fun node rate hrate => ?_)) hsize
  obtain ⟨q, hq, rfl⟩ := h node rate hrate
  exact hfour q hq

theorem flood_record {g : Guard} {n t : Nat} (h : FloodRates g n t) (m : Nat) (hcount : floodCount (m % 4) n < rateMessages) :
    ∃ g₁ : Guard, g.recordMessage (floodNode m) t = (g₁, .ok ()) ∧ g₁.nonces = g.nonces ∧ g₁.nonceOrder = g.nonceOrder ∧
      ∀ node rate, g₁.peers.get node = some rate → ∃ q < 4, node = floodNode q ∧ rate.start = t ∧
        rate.count ≤ floodCount q n + if q = m % 4 then 1 else 0 := by
  set live := g.peers.filter (fun _ rate => rate.live t) with hdef
  set rate := (live.get (floodNode m)).getD ⟨t, 0⟩ with hratedef
  have hlive : ∀ node rate, live.get node = some rate → ∃ q < 4, node = floodNode q ∧ rate.start = t ∧ rate.count ≤ floodCount q n := by
    intro node rate hrate
    rw [Table.get_filter] at hrate
    obtain ⟨hget, hl⟩ := Option.filter_eq_some_iff.1 hrate
    obtain ⟨q, hq, rfl, hold | ⟨hstart, hc⟩⟩ := h node rate hget
    · unfold PeerRate.live at hl
      rw [Bool.and_eq_true, decide_eq_true_eq, decide_eq_true_eq] at hl
      omega
    · exact ⟨q, hq, rfl, hstart, hc⟩
  have hrate : rate.start = t ∧ rate.count ≤ floodCount (m % 4) n := by
    rw [hratedef]
    cases hg : live.get (floodNode m) with
    | none => exact ⟨rfl, Nat.zero_le _⟩
    | some r =>
      obtain ⟨q, hq, hnode, hstart, hc⟩ := hlive _ r hg
      rw [← floodNode_inj hq hnode.symm]
      exact ⟨hstart, hc⟩
  have hsize := flood_size (fun node r hr => by obtain ⟨q, hq, hn, -⟩ := hlive node r hr; exact ⟨q, hq, hn⟩)
  refine ⟨⟨g.nonces, g.nonceOrder, live.insert (floodNode m) ⟨rate.start, rate.count + 1⟩⟩, ?_, rfl, rfl, ?_⟩
  · unfold Guard.recordMessage
    rw [if_neg (by rw [(flood_peer m).2.2.2.1]; decide)]
    rw [if_neg (fun hc => absurd hc.2 (Nat.not_le.2 hsize)), ← hratedef, if_neg (by omega)]
  · intro node r hget
    rcases Table.of_get_insert hget with ⟨hn, rfl⟩ | ⟨-, hget⟩
    · refine ⟨m % 4, Nat.mod_lt _ (by decide), hn.trans (floodNode_mod m), hrate.1, ?_⟩
      rw [if_pos rfl]
      exact Nat.add_le_add_right hrate.2 1
    · obtain ⟨q, hq, hn, hs, hc⟩ := hlive node r hget
      exact ⟨q, hq, hn, hs, hc.trans (Nat.le_add_right _ _)⟩

theorem flood_call {g : Guard} {n t : Nat} (hn : n ≤ 4096) {k : Nat} (hr : FloodRates g k t)
    (hcount : floodCount (n % 4) k < rateMessages) (hfresh : fresh t (floodTs n) = true)
    (hnew : (floodEnvelope n).key ∉ g.nonces) :
    ∃ g₁ : Guard, g₁.nonces = g.nonces ∧ g₁.nonceOrder = g.nonceOrder ∧
      g.call floodCrates { floodCall n with nowMs := t } = (g₁.remember (floodEnvelope n).key, some (floodEnvelope n)) ∧
      ∀ node rate, g₁.peers.get node = some rate → ∃ q < 4, node = floodNode q ∧ rate.start = t ∧
        rate.count ≤ floodCount q k + if q = n % 4 then 1 else 0 := by
  obtain ⟨g₁, hrec, h1, h2, hrates⟩ := flood_record hr n hcount
  refine ⟨g₁, h1, h2, ?_, hrates⟩
  have hopen : g.openEnvelope floodCrates (floodWire n).toVec "notes" (floodNode n) t
      = (g₁.remember (floodEnvelope n).key, .ok (floodEnvelope n, ⟨"head_req", floodDid n, floodWire n⟩)) :=
    openEnvelope_ok.2 ⟨length_floodWire n hn, floodWire n, g₁, valueOf_floodWire n hn, rfl, hrec,
      flood_checks n hn hfresh (h1 ▸ hnew), rfl, rfl⟩
  unfold Guard.call floodCall
  rw [hopen]

theorem remember_peers (g : Guard) (key : String × String) : (g.remember key).peers = g.peers := by
  unfold Guard.remember
  split
  · split <;> rfl
  · rfl

theorem flood_fresh (n : Nat) : fresh (floodNow n) (floodTs n) = true := by
  unfold fresh floodTs floodNow maxSkewMs
  refine decide_eq_true ?_
  split
  · rename_i h
    subst h
    decide
  · omega

/-- **The guard before message `n`**: the nonces of those before it, and the rates. -/
structure Flooded (g : Guard) (n : Nat) : Prop where
  order : g.nonceOrder = (List.range n).map (fun m => (floodEnvelope m).key)
  nonces : ∀ k, k ∈ g.nonces ↔ k ∈ g.nonceOrder
  rates : FloodRates g n (floodNow n)

variable {n : Nat}

theorem floodKey_new (hn : n ≤ 4096) : (floodEnvelope n).key ∉ (List.range n).map (fun m => (floodEnvelope m).key) := by
  intro hmem
  obtain ⟨m, hm, heq⟩ := mem_map.1 hmem
  have hlt := List.mem_range.1 hm
  have := Escrow.hexPad_inj (by omega) (by omega) (Prod.ext_iff.1 heq).2
  omega

theorem flood_rates_next {g g₁ : Guard} (hrates : ∀ node rate, g₁.peers.get node = some rate → ∃ q < 4,
      node = floodNode q ∧ rate.start = floodNow n ∧ rate.count ≤ floodCount q n + if q = n % 4 then 1 else 0)
    (hg : g.peers = g₁.peers) : FloodRates g (n + 1) (floodNow (n + 1)) := by
  intro node rate hget
  rw [hg] at hget
  obtain ⟨q, hq, hnode, hstart, hc⟩ := hrates node rate hget
  refine ⟨q, hq, hnode, ?_⟩
  rw [hstart]
  unfold floodNow rateWindowMs
  unfold floodCount at hc ⊢
  by_cases hlast : (n + 199) % 200 = 199
  · omega
  · right
    refine ⟨by omega, ?_⟩
    split at hc <;> omega

theorem floodCount_lt (n : Nat) : floodCount (n % 4) n < rateMessages := by
  unfold floodCount rateMessages
  omega

theorem Flooded.step {g : Guard} (h : Flooded g n) (hn : n < 4096) :
    (g.call floodCrates (floodCall n)).2 = some (floodEnvelope n) ∧ Flooded (g.call floodCrates (floodCall n)).1 (n + 1) := by
  have hnew : (floodEnvelope n).key ∉ g.nonces := by
    rw [h.nonces, h.order]
    exact floodKey_new hn.le
  obtain ⟨g₁, h1, h2, hcall, hrates⟩ := flood_call hn.le h.rates (floodCount_lt n) (flood_fresh n) hnew
  have hcall : g.call floodCrates (floodCall n) = (g₁.remember (floodEnvelope n).key, some (floodEnvelope n)) := hcall
  rw [hcall]
  have hshort : g₁.nonceOrder.length ≠ maxNonces := by
    rw [h2, h.order, length_map, length_range]
    unfold maxNonces
    omega
  refine ⟨rfl, ?_, fun k => ?_, flood_rates_next hrates (remember_peers _ _)⟩
  · unfold Guard.remember
    rw [if_neg hshort]
    show g₁.nonceOrder ++ _ = _
    rw [h2, h.order, range_succ, map_append]
    rfl
  · unfold Guard.remember
    rw [if_neg hshort]
    show k ∈ insert _ g₁.nonces ↔ k ∈ g₁.nonceOrder ++ _
    rw [Finset.mem_insert, h1, h2, h.nonces, mem_append, mem_singleton, Or.comm]

theorem range_map_head {α : Type} (f : Nat → α) : ∀ {n : Nat}, 0 < n → ∃ rest, (List.range n).map f = f 0 :: rest
  | n + 1, _ => ⟨(List.range n).map (fun m => f (m + 1)), by rw [range_succ_eq_map, map_cons, map_map]; rfl⟩

def Guard.after (C : Crates) (g : Guard) (calls : List Call) : Guard := calls.foldl (fun g c => (g.call C c).1) g

theorem opened_append (C : Crates) : ∀ (a b : List Call) (g : Guard), g.opened C (a ++ b) = g.opened C a ++ (g.after C a).opened C b
  | [], _, _ => rfl
  | c :: a, b, g => by
    rw [cons_append, Guard.opened, opened_append C a b, Guard.opened, append_assoc]
    rfl

theorem flooded_zero : Flooded .default 0 := ⟨rfl, fun k => by simp [Guard.default], nofun⟩

theorem flooded : ∀ n ≤ 4096, Flooded (Guard.default.after floodCrates ((List.range n).map floodCall)) n
  | 0, _ => flooded_zero
  | n + 1, hn => by
    have h := (flooded n (by omega)).step (by omega)
    rw [range_succ, map_append, Guard.after, foldl_append]
    exact h.2


theorem Flooded.pushed {g : Guard} (h : Flooded g n) (hn : n = maxNonces) :
    (floodEnvelope 0).key ∉ (g.call floodCrates (floodCall n)).1.nonces ∧
      FloodRates (g.call floodCrates (floodCall n)).1 1 1220000 := by
  have hle : n ≤ 4096 := by rw [hn]; decide
  have hnew : (floodEnvelope n).key ∉ g.nonces := by
    rw [h.nonces, h.order]
    exact floodKey_new hle
  obtain ⟨g₁, h1, h2, hcall, hrates⟩ := flood_call hle h.rates (floodCount_lt n) (flood_fresh n) hnew
  have hcall : g.call floodCrates (floodCall n) = (g₁.remember (floodEnvelope n).key, some (floodEnvelope n)) := hcall
  have hpos : 0 < n := by rw [hn]; decide
  obtain ⟨rest, hrest⟩ := range_map_head (fun m => (floodEnvelope m).key) hpos
  rw [hcall]
  refine ⟨?_, fun node rate hget => ?_⟩
  · unfold Guard.remember
    rw [if_pos (by rw [h2, h.order, length_map, length_range, hn]), h2, h.order, hrest]
    rw [Finset.mem_insert, not_or]
    refine ⟨fun heq => ?_, Finset.notMem_erase _ _⟩
    have := Escrow.hexPad_inj (by omega) (by omega) (Prod.ext_iff.1 heq).2
    omega
  · rw [remember_peers] at hget
    obtain ⟨q, hq, hnode, hstart, -⟩ := hrates node rate hget
    refine ⟨q, hq, hnode, .inl ?_⟩
    rw [hstart]
    unfold floodNow rateWindowMs
    omega

theorem flood_again {g : Guard} (hgone : (floodEnvelope 0).key ∉ g.nonces) (hrates : FloodRates g 1 1220000) :
    (g.call floodCrates { floodCall 0 with nowMs := 1220000 }).2 = some (floodEnvelope 0) := by
  obtain ⟨g₁, -, -, hcall, -⟩ := flood_call (Nat.zero_le _) hrates (by decide) (by decide) hgone
  rw [hcall]

theorem flood_first (n : Nat) : floodEnvelope 0 ∈ Guard.default.opened floodCrates ((List.range (n + 1)).map floodCall) := by
  have h0 := (flooded_zero.step (by decide)).1
  rw [range_succ_eq_map, map_cons]
  exact mem_append_left _ (Option.mem_toList.2 h0)

theorem flood_clock : flood.Pairwise (fun a b => a.nowMs ≤ b.nowMs) := by
  refine pairwise_append.2 ⟨?_, pairwise_singleton _ _, fun a ha b hb => ?_⟩
  · refine pairwise_map.2 (pairwise_lt_range.imp (fun h => ?_))
    show floodNow _ ≤ floodNow _
    unfold floodNow
    omega
  · obtain ⟨n, hn, rfl⟩ := mem_map.1 ha
    rw [mem_singleton.1 hb]
    have hlt := List.mem_range.1 hn
    show floodNow n ≤ 1220000
    unfold floodNow
    unfold maxNonces at hlt
    omega

theorem after_succ (n : Nat) : Guard.default.after floodCrates ((List.range (n + 1)).map floodCall)
    = ((Guard.default.after floodCrates ((List.range n).map floodCall)).call floodCrates (floodCall n)).1 := by
  rw [range_succ, map_append, Guard.after, foldl_append]
  rfl

theorem flood_reopened (n : Nat) (hn : n = maxNonces) : ¬((Guard.default.opened floodCrates
    ((List.range (n + 1)).map floodCall ++ [{ floodCall 0 with nowMs := 1220000 }])).map Envelope.key).Nodup := by
  intro hnodup
  have hle : n ≤ 4096 := by rw [hn]; decide
  obtain ⟨hgone, hrates⟩ := (flooded n hle).pushed hn
  have hagain := flood_again hgone hrates
  rw [← after_succ] at hagain
  rw [opened_append, map_append, Guard.opened, hagain] at hnodup
  exact (nodup_append.1 hnodup).2.2 _ (mem_map_of_mem (flood_first n)) _ mem_cons_self rfl

/-- **A captured envelope is opened twice**: four peers below their rate push its nonce out while it is fresh. -/
theorem flooded_nonce_reopened : flood.Pairwise (fun a b => a.nowMs ≤ b.nowMs) ∧
    ¬((Guard.default.opened floodCrates flood).map Envelope.key).Nodup :=
  ⟨flood_clock, flood_reopened maxNonces rfl⟩

theorem flood_replayed_careful : Careful floodCrates [] .default [floodCall 0, floodCall 0] := by
  have hnext := (flooded_zero.step (by decide)).2
  refine ⟨fun _ hlen => absurd hlen (by decide), fun _ hlen => ?_, trivial⟩
  have hone : (Guard.default.call floodCrates (floodCall 0)).1.nonceOrder.length = 1 := by
    have horder := congrArg List.length hnext.order
    rwa [length_map] at horder
  rw [hone] at hlen
  exact absurd hlen (by decide)

theorem opened_once_replayed : floodEnvelope 0 ∈ Guard.default.opened floodCrates [floodCall 0, floodCall 0] ∧
    ((Guard.default.opened floodCrates [floodCall 0, floodCall 0]).map Envelope.key).Nodup := by
  have h0 := (flooded_zero.step (by decide)).1
  refine ⟨mem_append_left _ (Option.mem_toList.2 h0), ?_⟩
  refine (opened_once floodCrates [floodCall 0, floodCall 0] ?_ flood_replayed_careful).2 ?_
  · simp
  · intro c hc c' hc' raw raw' hraw hraw' _ _
    simp only [mem_cons, not_mem_nil, or_false, or_self] at hc hc'
    rw [hc] at hraw
    rw [hc', hraw] at hraw'
    rw [Option.some.inj hraw']

end Mistl.Mesh
