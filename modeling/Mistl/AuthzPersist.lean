import Mistl.AuthzDelegation
/-!
# AuthzPersist — the usage file

`UsageBook::validate`, `load_or_recover`, and the calls of `authz/mod.rs` that put meters under accounts: a peer is
metered under its transport node id, whatever text that is, and a book is read back only when every node id in it is one.
-/
open List Mistl.Table Mistl.Json Option

namespace Mistl.Authz

/-! ## Tokens -/

def maxTokens : Nat := 256

def maxEntries : Nat := 1024

/-- `ApiToken`, without the fields that are only shown -/
structure ApiToken where
  id : String
  name : String
  hash : String
  expiresAt : Option Int
  revokedAt : Option Int
  lastUsedAt : Option Int
  models : List String
  limits : Limits

def isWhitespace (c : Char) : Bool :=
  let n := c.toNat
  (decide (9 ≤ n) && decide (n ≤ 13)) || n == 0x20 || n == 0x85 || n == 0xa0 || n == 0x1680 ||
    (decide (0x2000 ≤ n) && decide (n ≤ 0x200a)) || n == 0x2028 || n == 0x2029 || n == 0x202f || n == 0x205f || n == 0x3000

def splitWhitespace (text : List Char) : List (List Char) := (text.splitOnP isWhitespace).filter fun word => !word.isEmpty

def isBlank (text : String) : Bool := text.toList.all isWhitespace

def ApiToken.live (t : ApiToken) (now : Int) : Bool := t.revokedAt.isNone && t.expiresAt.all (fun expiry => decide (now < expiry))

def validateName (name : String) : Except String Unit :=
  ensure (!isBlank name && decide (name.length ≤ 64)) "token name must contain 1 to 64 characters"

def validateModels (models : List String) : Except String Unit := do
  ensure (decide (models.length ≤ maxEntries)) "too many model restrictions"
  ensure (models.all (fun m => !isBlank m && decide (m.utf8ByteSize ≤ 256))) "model names must contain 1 to 256 bytes"

def ApiToken.validate (t : ApiToken) : Except String Unit := do
  validateName t.name
  validateModels t.models
  ensure (Escrow.hexString t.hash 64) "invalid token hash"
  ensure (t.id == String.ofList (t.hash.toList.take 12)) "invalid token id"

/-- The loop of `TokenBook::validate`, over the ids seen so far. -/
def validateEach (ids : List String) : List ApiToken → Except String Unit
  | [] => .ok ()
  | t :: tokens => do
    t.validate
    ensure (!ids.contains t.id) "duplicate API token id"
    validateEach (t.id :: ids) tokens

/-- `TokenBook::validate` -/
def validateTokens (tokens : List ApiToken) : Except String Unit := do
  ensure (decide (tokens.length ≤ maxTokens)) "too many API tokens"
  validateEach [] tokens

def bearer (header : String) : Option String :=
  match splitWhitespace header.toList with
  | [scheme, secret] => if scheme.map Char.toLower = "bearer".toList then some (String.ofList secret) else none
  | _ => none

def Denied.unauthorized : Denied := ⟨"unauthorized", "A valid API token is required"⟩

variable (C : Crates)

def hashSecret (secret : String) : String := C.digest (utf8 secret.toList)

def lookup (tokens : List ApiToken) (authorization : Option String) (required : Bool) (now : Int) : Except Denied (Option ApiToken) :=
  match (authorization.bind bearer).filter (fun secret => "mst_".toList.isPrefixOf secret.toList) with
  | none => if required then .error .unauthorized else .ok none
  | some secret =>
    if secret.utf8ByteSize ≠ 47 then .error .unauthorized
    else
      match tokens.find? (fun token => token.hash == hashSecret C secret && token.live now) with
      | some token => .ok (some token)
      | none => .error .unauthorized

/-! ## The usage file -/

def stripPrefix (start text : String) : Option String :=
  if start.toList.isPrefixOf text.toList then some (String.ofList (text.toList.drop start.length)) else none

/-- `policy::validate_subject`, whether it accepts -/
def validateSubject (subject : String) : Bool := Escrow.hexString subject 16 || (pubkeyFromDid C subject).isSome

def isHexDigit (c : Char) : Bool := c.isDigit || (decide ('a' ≤ c) && decide (c ≤ 'f')) || (decide ('A' ≤ c) && decide (c ≤ 'F'))

def nodeOk (node : String) : Bool := validateSubject C node && node.utf8ByteSize == 16

def accountOk (account : String) : Bool := account == "*" || (stripPrefix "node:" account).any (nodeOk C) ||
    ["token:", "cap:"].any (fun start => (stripPrefix start account).any (fun id =>
      !id.isEmpty && decide (id.utf8ByteSize ≤ 64) && id.toList.all isHexDigit))

def validateMeters (m : Table String Meter) : Except String Unit := do
  ensure (decide (m.size - (if m.contains "*" then 1 else 0) ≤ maxAccounts)) "too many usage accounts"
  ensure (m.all (fun account _ => accountOk C account)) "invalid usage account"

def UsageBook.validate (b : UsageBook) : Except String Unit := do
  validateMeters C b.ai
  validateMeters C b.escrow

/-- `load_or_recover`, by what the file holds; `decode` parses it. -/
def loadOrRecover {α : Type} (decode : List UInt8 → Option α) (default : α) (validate : α → Except String Unit)
    (file : Option (List UInt8)) : α :=
  match file.bind decode with
  | some value => if (validate value).isOk then value else default
  | none => default

/-! ## The calls that meter -/

/-- `Store`, with its tokens -/
structure ApiStore extends Store where
  tokens : List ApiToken
  requireToken : Bool
  tokensDirty : Bool

def Store.record (s : Store) (authorized : Authorized) (requests outputChars : Nat) (now : Int) : Store :=
  let usage := authorized.accounts.foldl (fun b account =>
    b.record authorized.service account authorized.limits requests outputChars now) s.usage
  let usage := authorized.capAccounts.foldl (fun b a => b.record authorized.service a.1 a.2 requests outputChars now) usage
  { s with usage := usage, usageDirty := s.usageDirty || !authorized.accounts.isEmpty || !authorized.capAccounts.isEmpty }

namespace ApiStore

def touchToken (s : ApiStore) (id : String) (now : Int) : ApiStore :=
  match s.tokens.findIdx? (fun token => token.id == id) with
  | none => s
  | some i => { s with tokens := s.tokens.modify i (fun token => { token with lastUsedAt := some now }), tokensDirty := true }

def authorizeApi (s : ApiStore) (authorization model : Option String) (now : Int) : ApiStore × Except Denied Authorized :=
  match lookup C s.tokens authorization s.requireToken now with
  | .error e => (s, .error e)
  | .ok none => (s, .ok ⟨none, [], .ai, .default, []⟩)
  | .ok (some token) =>
    if !token.models.isEmpty && !model.any (fun m => token.models.contains m) then
      (s, .error ⟨"model_not_allowed", "Model is not allowed by this API token"⟩)
    else
      let account := s.usage.account .ai ("token:" ++ token.id)
      let (usage, checked) := s.usage.check .ai account token.limits now
      let s := { s with usageDirty := true, usage := usage }
      match checked with
      | .error e => (s, .error e)
      | .ok () => (s.touchToken token.id now, .ok ⟨none, [account], .ai, token.limits, []⟩)

end ApiStore

structure Desk where
  store : ApiStore
  granted : List Authorized

/-- A call on the store; a record charges one of the authorizations given out. -/
inductive MeterCall where
  | authorizePeerOwned (service : Service) (action : Action) (p : Principal) (resource owner : Option String) (now : Int)
  | authorizeApi (authorization model : Option String) (now : Int)
  | record (granted requests outputChars : Nat) (now : Int)

namespace Desk

def grant (granted : List Authorized) : Except Denied Authorized → List Authorized
  | .ok authorized => granted ++ [authorized]
  | .error _ => granted

def step (d : Desk) : MeterCall → Desk
  | .authorizePeerOwned service action p resource owner now =>
    let r := d.store.authorizePeerOwned C service action p resource owner now
    ⟨{ d.store with toStore := r.1 }, grant d.granted r.2⟩
  | .authorizeApi authorization model now =>
    let r := d.store.authorizeApi C authorization model now
    ⟨r.1, grant d.granted r.2⟩
  | .record granted requests outputChars now =>
    match d.granted[granted]? with
    | none => d
    | some authorized => { d with store := { d.store with toStore := d.store.toStore.record authorized requests outputChars now } }

def run (d : Desk) (calls : List MeterCall) : Desk := calls.foldl (step C) d

end Desk

/-! ## Accounts -/

theorem stripPrefix_eq_some {start text rest : String} : stripPrefix start text = some rest ↔ text = start ++ rest := by
  unfold stripPrefix
  constructor
  · intro h
    split at h
    · rename_i hp
      obtain ⟨l, hl⟩ := isPrefixOf_iff_prefix.1 hp
      cases h
      refine String.toList_inj.1 ?_
      rw [String.toList_append, String.toList_ofList, ← hl, ← String.length_toList, drop_left]
    · cases h
  · rintro rfl
    have hp : start.toList.isPrefixOf (start ++ rest).toList = true :=
      isPrefixOf_iff_prefix.2 ⟨rest.toList, (String.toList_append).symm⟩
    rw [if_pos hp, String.toList_append, ← String.length_toList, drop_left, String.ofList_toList]

theorem stripPrefix_append_ne {start start' rest : String} (h : start.toList.head? ≠ start'.toList.head?)
    (hs : start ≠ "") (hs' : start' ≠ "") : stripPrefix start (start' ++ rest) = none := by
  cases hstrip : stripPrefix start (start' ++ rest) with
  | none => rfl
  | some tail =>
    have he := congrArg String.toList (stripPrefix_eq_some.1 hstrip)
    rw [String.toList_append, String.toList_append] at he
    cases hl : start.toList with
    | nil => exact absurd (String.toList_inj.1 hl) hs
    | cons x l =>
      cases hl' : start'.toList with
      | nil => exact absurd (String.toList_inj.1 hl') hs'
      | cons y l' =>
        rw [hl, hl'] at he
        rw [hl, hl'] at h
        simp only [cons_append, cons.injEq] at he
        exact absurd (congrArg some he.1.symm) h

variable {C}

@[simp] theorem accountOk_star : accountOk C "*" = true := rfl

@[simp] theorem accountOk_node (node : String) : accountOk C ("node:" ++ node) = nodeOk C node := by
  have hstar : "node:" ++ node ≠ "*" := by
    intro h
    have hl := congrArg (List.head? ∘ String.toList) h
    exact absurd hl (by simp)
  unfold accountOk
  rw [stripPrefix_eq_some.2 rfl]
  simp only [any_cons]
  rw [stripPrefix_append_ne (by decide) (by decide) (by decide), stripPrefix_append_ne (by decide) (by decide) (by decide),
    beq_false_of_ne hstar]
  simp

/-- An id that may stand after `token:` and `cap:`. -/
def idOk (id : String) : Bool := !id.isEmpty && decide (id.utf8ByteSize ≤ 64) && id.toList.all isHexDigit

variable {id : String}

variable (C) in
theorem accountOk_of_id (start : String) (hs : start ∈ ["token:", "cap:"]) (h : idOk id = true) : accountOk C (start ++ id) = true := by
  unfold accountOk
  rw [Bool.or_eq_true]
  refine .inr (List.any_eq_true.2 ⟨start, hs, ?_⟩)
  rw [stripPrefix_eq_some.2 rfl]
  exact h

theorem isHexDigit_of_lower {c : Char} (h : (c.isDigit || (decide ('a' ≤ c) && decide (c ≤ 'f'))) = true) : isHexDigit c = true := by
  unfold isHexDigit
  rw [h, Bool.true_or]

theorem idOk_of_hexString {n : Nat} (h : Escrow.hexString id n = true) (h0 : 0 < n) (hn : n ≤ 64) : idOk id = true := by
  unfold Escrow.hexString at h
  rw [Bool.and_eq_true, beq_iff_eq, List.all_eq_true] at h
  unfold idOk
  rw [Bool.and_eq_true, Bool.and_eq_true, List.all_eq_true]
  refine ⟨⟨?_, decide_eq_true (by omega)⟩, fun c hc => isHexDigit_of_lower (h.2 c hc)⟩
  cases he : id.isEmpty with
  | false => rfl
  | true =>
    rw [String.isEmpty_iff.1 he] at h
    have : (0 : Nat) = n := h.1
    omega

theorem validId_idOk (h : validId id = true) : idOk id = true := idOk_of_hexString h (by omega) (by omega)

variable {u : Unit}

theorem ApiToken.validate_idOk {t : ApiToken} (h : t.validate = .ok u) : idOk t.id = true := by
  obtain ⟨_, -, h⟩ := bind_eq_ok.1 h
  obtain ⟨_, -, h⟩ := bind_eq_ok.1 h
  rw [ensure_bind_eq_ok, ensure_eq_ok, beq_iff_eq] at h
  obtain ⟨hhash, hid⟩ := h
  unfold Escrow.hexString at hhash
  rw [Bool.and_eq_true, beq_iff_eq, List.all_eq_true] at hhash
  have hlower : ∀ c ∈ t.hash.toList.take 12, (c.isDigit || (decide ('a' ≤ c) && decide (c ≤ 'f'))) = true :=
    fun c hc => hhash.2 c (mem_of_mem_take hc)
  have hlen : (t.hash.toList.take 12).length = 12 := by
    have hle := length_utf8_le t.hash.toList
    rw [length_utf8, String.ofList_toList] at hle
    rw [length_take]
    omega
  rw [hid]
  exact idOk_of_hexString (hlen ▸ Escrow.hexString_ofList hlower) (by omega) (by omega)

/-- An account some call makes up: one that is accepted whatever it was made of, or that of a transport node. -/
def Formed (C : Crates) (account : String) : Prop := accountOk C account = true ∨ ∃ node, account = "node:" ++ node

def Named (C : Crates) (account : String) : Prop := ∀ node, account = "node:" ++ node → nodeOk C node = true

theorem Formed.accountOk_iff {account : String} (h : Formed C account) : accountOk C account = true ↔ Named C account := by
  constructor
  · rintro hok node rfl
    rwa [accountOk_node] at hok
  · intro hn
    rcases h with hok | ⟨node, rfl⟩
    · exact hok
    · rw [accountOk_node]
      exact hn node rfl

/-! ## Books -/

variable {m : Table String Meter}

theorem validateMeters_eq_ok : validateMeters C m = .ok u ↔ m.size - (if m.contains "*" then 1 else 0) ≤ maxAccounts ∧
      ∀ account meter, m.get account = some meter → accountOk C account = true := by
  unfold validateMeters
  rw [ensure_bind_eq_ok, ensure_eq_ok, decide_eq_true_eq, Table.all_eq_true]

theorem UsageBook.validate_eq_ok {b : UsageBook} : b.validate C = .ok u ↔ ∀ service, validateMeters C (b.meters service) = .ok () := by
  unfold UsageBook.validate
  rw [bind_eq_ok]
  constructor
  · rintro ⟨_, hai, hescrow⟩ service
    cases service with
    | ai => exact hai
    | escrow => exact hescrow
  · intro h
    exact ⟨(), h .ai, h .escrow⟩

theorem validateMeters_insert (h : validateMeters C m = .ok ()) {account : String}
    (hroom : account = "*" ∨ m.contains account = true ∨ m.size - (if m.contains "*" then 1 else 0) < maxAccounts)
    (hok : accountOk C account = true) (meter : Meter) : validateMeters C (m.insert account meter) = .ok () := by
  rw [validateMeters_eq_ok] at h ⊢
  obtain ⟨hsize, hall⟩ := h
  refine ⟨?_, fun a n ha => ?_⟩
  · have hstar : (m.insert account meter).contains "*" = (decide ("*" = account) || m.contains "*") := by
      unfold Table.contains
      rw [get_insert]
      split
      · rename_i he
        rw [decide_eq_true he]
        rfl
      · rename_i he
        rw [decide_eq_false he, Bool.false_or]
    rw [hstar]
    cases hget : m.get account with
    | some old =>
      rw [size_replace hget]
      by_cases he : "*" = account
      · subst he
        rw [Table.contains_iff.2 ⟨old, hget⟩] at hsize
        simpa using hsize
      · rw [decide_eq_false he]
        exact hsize
    | none =>
      rw [size_insert hget]
      by_cases he : "*" = account
      · subst he
        rw [contains_eq_false.2 hget] at hsize
        simpa using hsize
      · rw [decide_eq_false he, Bool.false_or]
        rw [contains_eq_false.2 hget] at hroom
        rcases hroom with hroom | hroom | hroom
        · exact absurd hroom.symm he
        · cases hroom
        · omega
  · rw [get_insert] at ha
    split at ha
    · rename_i he
      rw [he]
      exact hok
    · exact hall a n ha

variable {requested : String}

namespace UsageBook

theorem account_cases (b : UsageBook) (service : Service) (requested : String) :
    b.account service requested = "*" ∨ b.account service requested = requested ∧ ((b.meters service).contains requested = true ∨
        (b.meters service).size - (if (b.meters service).contains "*" then 1 else 0) < maxAccounts) := by
  by_cases h : (b.meters service).contains requested = true ∨
      (b.meters service).size - (if (b.meters service).contains "*" then 1 else 0) < maxAccounts
  · exact .inr ⟨if_pos h, h⟩
  · exact .inl (if_neg h)

def Spoiled (C : Crates) (b : UsageBook) : Prop :=
  ∃ service account, (b.meters service).get account ≠ none ∧ accountOk C account = false

theorem Spoiled.invalid {b : UsageBook} (h : b.Spoiled C) : b.validate C ≠ .ok () := by
  obtain ⟨service, account, hget, hbad⟩ := h
  intro hv
  obtain ⟨meter, hm⟩ := ne_none_iff_exists'.1 hget
  have hok := (validateMeters_eq_ok.1 (validate_eq_ok.1 hv service)).2 account meter hm
  rw [hbad] at hok
  cases hok

/-- A book after meters were put under the accounts it gave out, for these accounts in turn. -/
inductive Charged : UsageBook → List (Service × String) → UsageBook → Prop
  | done (b : UsageBook) : Charged b [] b
  | put {b b' : UsageBook} {rest : List (Service × String)} (service : Service) (requested : String) (m : Meter)
      (h : Charged (b.put service (b.account service requested) m) rest b') : Charged b ((service, requested) :: rest) b'

theorem Charged.append {b b' b'' : UsageBook} {l l' : List (Service × String)} (h : Charged b l b') (h' : Charged b' l' b'') :
    Charged b (l ++ l') b'' := by
  induction h with
  | done => exact h'
  | put service requested m _ ih => exact .put service requested m (ih h')

variable {l : List (Service × String)} {b b' : UsageBook}

theorem Charged.spoiled (h : Charged b l b') (hb : b.Spoiled C) : b'.Spoiled C := by
  induction h with
  | done => exact hb
  | put service requested m _ ih =>
    obtain ⟨service', account, hget, hbad⟩ := hb
    refine ih ⟨service', account, ?_, hbad⟩
    rw [get_put]
    split
    · exact some_ne_none _
    · exact hget

/-- **A meter under the account the book gives out**: the book stays valid if the loader accepts that account. -/
theorem put_account_valid {b : UsageBook} (hb : b.validate C = .ok ()) (service : Service) (requested : String) (m : Meter)
    (hok : accountOk C (b.account service requested) = true) :
    (b.put service (b.account service requested) m).validate C = .ok () := by
  rw [validate_eq_ok] at hb ⊢
  have hroom : b.account service requested = "*" ∨ (b.meters service).contains (b.account service requested) = true ∨
      (b.meters service).size - (if (b.meters service).contains "*" then 1 else 0) < maxAccounts := by
    rcases b.account_cases service requested with hc | ⟨hc, hr⟩
    · exact .inl hc
    · rw [hc]
      exact .inr hr
  intro service'
  cases service <;> cases service'
  · exact validateMeters_insert (hb .ai) hroom hok m
  · exact hb .escrow
  · exact hb .ai
  · exact validateMeters_insert (hb .escrow) hroom hok m

theorem accountOk_account (b : UsageBook) (service : Service) (h : accountOk C requested = true) :
    accountOk C (b.account service requested) = true := by
  rcases b.account_cases service requested with hc | ⟨hc, -⟩
  · rw [hc]
    exact accountOk_star
  · rwa [hc]

theorem Charged.valid (h : Charged b l b') (hb : b.validate C = .ok ())
    (hl : ∀ x ∈ l, accountOk C x.2 = true) : b'.validate C = .ok () := by
  induction h with
  | done => exact hb
  | put service requested m _ ih =>
    obtain ⟨hx, hl⟩ := forall_mem_cons.1 hl
    exact ih (put_account_valid hb service requested m (accountOk_account _ _ hx)) hl

/-- **What becomes of a valid book** is decided by the first account it gives out, if the others are accepted anyway. -/
theorem Charged.valid_iff (h : Charged b l b') (hb : b.validate C = .ok ())
    (hl : ∀ x ∈ l.tail, accountOk C x.2 = true) :
    (b'.validate C = .ok () ↔ ∀ x ∈ l.head?, accountOk C (b.account x.1 x.2) = true) ∧ (b'.validate C ≠ .ok () → b'.Spoiled C) := by
  cases h with
  | done => exact ⟨⟨fun _ => nofun, fun _ => hb⟩, fun hn => absurd hb hn⟩
  | put service requested m h =>
    have hvalid : accountOk C (b.account service requested) = true → b'.validate C = .ok () := fun hok =>
      h.valid (put_account_valid hb service requested m hok) hl
    cases hok : accountOk C (b.account service requested) with
    | true =>
      refine ⟨⟨fun _ x hx => ?_, fun _ => hvalid hok⟩, fun hn => absurd (hvalid hok) hn⟩
      cases hx
      exact hok
    | false =>
      have hspoiled : b'.Spoiled C := by
        refine h.spoiled ⟨service, b.account service requested, ?_, hok⟩
        rw [get_put, if_pos ⟨rfl, rfl⟩]
        exact nofun
      refine ⟨⟨fun hv => absurd hv hspoiled.invalid, fun hall => ?_⟩, fun _ => hspoiled⟩
      rw [hall _ rfl] at hok
      cases hok

end UsageBook

/-! ## One call -/

/-- What a grant may charge: one account at most besides those of capabilities. -/
structure Authorized.Formed (C : Crates) (a : Authorized) : Prop where
  single : a.accounts.length ≤ 1
  formed : ∀ account ∈ a.accounts, Authz.Formed C account
  caps : ∀ x ∈ a.capAccounts, accountOk C x.1 = true

theorem UsageBook.formed_account (b : UsageBook) (service : Service) (h : Formed C requested) :
    Formed C (b.account service requested) := by
  rcases b.account_cases service requested with hc | ⟨hc, -⟩
  · exact .inl (by rw [hc]; exact accountOk_star)
  · rwa [hc]

theorem Authorized.formed_one (b : UsageBook) (p : Option Principal) (service : Service) (limits : Limits)
    (h : Authz.Formed C requested) {caps : List (String × Limits)}
    (hcaps : ∀ x ∈ caps, accountOk C x.1 = true) :
    (⟨p, [b.account service requested], service, limits, caps⟩ : Authorized).Formed C where
  single := le_rfl
  formed := fun account ha => by
    rw [mem_singleton.1 ha]
    exact b.formed_account service h
  caps := hcaps

theorem Authorized.formed_nil (p : Option Principal) (service : Service) (limits : Limits) :
    (⟨p, [], service, limits, []⟩ : Authorized).Formed C where
  single := Nat.zero_le _
  formed := nofun
  caps := nofun

namespace Store

variable {s : Store} {service : Service} {p : Principal} {cap : Option Capability} {now : Int}

variable (C s service p now) in
/-- **What a peer is charged for**: its own account, unless its calls are not counted, then that of its capability. -/
theorem chargePeer_charged (hcap : ∀ c, cap = some c → validId c.leaf.id = true) :
    (∃ caps : List (Service × String), (∀ x ∈ caps, accountOk C x.2 = true) ∧
      s.usage.Charged ((if service = .ai then [(service, p.account)] else []) ++ caps)
        (s.chargePeer service p cap now).1.usage) ∧
    ∀ a, (s.chargePeer service p cap now).2 = .ok a → a.Formed C := by
  unfold chargePeer
  by_cases h : service = .escrow ∧ (cap.bind (fun c => c.leaf.limits)).isNone = true
  · rw [if_pos h, h.1]
    exact ⟨⟨[], nofun, .done _⟩, fun a ha => by cases ha; exact Authorized.formed_nil _ _ _⟩
  · rw [if_neg h]
    dsimp only
    generalize hlimits : (if s.usage.account service p.account = "*" then _ else _) = limits
    generalize hcheck : (if service = .ai then s.usage.check service (s.usage.account service p.account) limits now
      else (s.usage, .ok ())) = checked
    have hfirst : s.usage.Charged (if service = .ai then [(service, p.account)] else []) checked.1 := by
      rw [← hcheck]
      split
      · exact .put _ _ _ (.done _)
      · exact .done _
    have hformed : Formed C p.account := .inr ⟨_, rfl⟩
    have hone := fun (caps : List (String × Limits)) (hc : ∀ x ∈ caps, accountOk C x.1 = true) =>
      Authorized.formed_one s.usage (some p) service limits hformed hc
    cases checked.2 with
    | error e => exact ⟨⟨[], nofun, by rw [append_nil]; exact hfirst⟩, nofun⟩
    | ok _ =>
      cases hx : cap.bind (fun c => c.leaf.limits.map (fun limits => (c.leaf.id, limits))) with
      | none =>
        refine ⟨⟨[], nofun, by rw [append_nil]; exact hfirst⟩, fun a ha => ?_⟩
        cases ha
        exact hone [] nofun
      | some x =>
        obtain ⟨c, hc, hx⟩ := bind_eq_some_iff.1 hx
        obtain ⟨l, -, rfl⟩ := map_eq_some_iff.1 hx
        have hid := accountOk_of_id C "cap:" (by simp) (validId_idOk (hcap c hc))
        have hboth : s.usage.Charged ((if service = .ai then [(service, p.account)] else []) ++ [(service, "cap:" ++ c.leaf.id)])
            (checked.1.check service (checked.1.account service ("cap:" ++ c.leaf.id)) l now).1 :=
          hfirst.append (.put _ _ _ (.done _))
        have hcaps : ∀ x ∈ [(service, "cap:" ++ c.leaf.id)], accountOk C x.2 = true := fun x hx => by
          rw [mem_singleton.1 hx]
          exact hid
        dsimp only
        cases (checked.1.check service (checked.1.account service ("cap:" ++ c.leaf.id)) l now).2 with
        | error e => exact ⟨⟨_, hcaps, hboth⟩, nofun⟩
        | ok _ =>
          refine ⟨⟨_, hcaps, hboth⟩, fun a ha => ?_⟩
          cases ha
          refine hone _ (fun x hx => ?_)
          rw [mem_singleton.1 hx]
          exact UsageBook.accountOk_account _ _ hid

variable (C) in
def admits (s : Store) (service : Service) (action : Action) (p : Principal) (resource owner : Option String) (now : Int) : Bool :=
  let policy := s.policy.service service
  !policy.denied p now && (policy.explicitlyAllowed p now || (s.presentedCap C service action p resource owner now).isSome ||
    policy.mode == .open_)

theorem presentedCap_validId {action : Action} {resource owner : Option String} {c : Capability}
    (h : s.presentedCap C service action p resource owner now = some c) : validId c.leaf.id = true := by
  obtain ⟨did, -, h⟩ := bind_eq_some_iff.1 h
  obtain ⟨e, -, h⟩ := exists_of_findSome?_eq_some h
  unfold verifyCap verify at h
  cases hv : (parse C e.cap.leaf.wire >>= fun cap => do
      checkChain C (s.context did service action (resource.getD "*") owner now)
        (s.context did service action (resource.getD "*") owner now).holder cap.chain
      ensure ((s.context did service action (resource.getD "*") owner now).trustedRoot cap.rootLink.issuer) .untrustedRoot
      return cap) with
  | error e => rw [hv] at h; cases h
  | ok cap =>
    rw [hv] at h
    cases h
    obtain ⟨cap, hparse, hv⟩ := bind_eq_ok.1 hv
    obtain ⟨_, -, hv⟩ := bind_eq_ok.1 hv
    obtain ⟨-, hv⟩ := ensure_bind_eq_ok.1 hv
    cases hv
    obtain ⟨rest, hrest⟩ := c.chain_eq
    exact ((parse_shaped hparse).2 c.leaf (by rw [hrest]; exact mem_cons_self)).id

theorem authorizePeerOwned_eq (s : Store) (service : Service) (action : Action) (p : Principal)
    (resource owner : Option String) (now : Int) :
    ∃ cap, (∀ c, cap = some c → validId c.leaf.id = true) ∧ s.authorizePeerOwned C service action p resource owner now =
        if s.admits C service action p resource owner now = true then (s.trusting p.node cap).chargePeer service p cap now
        else (s, .error .forbidden) := by
  refine ⟨if (s.policy.service service).explicitlyAllowed p now then none
    else s.presentedCap C service action p resource owner now, fun c hc => ?_, ?_⟩
  · split at hc
    · cases hc
    · exact presentedCap_validId hc
  · unfold authorizePeerOwned admits
    cases hd : (s.policy.service service).denied p now with
    | true => simp only [hd, if_true, Bool.not_true, Bool.false_and, if_neg Bool.false_ne_true]
    | false =>
      cases he : (s.policy.service service).explicitlyAllowed p now with
      | true => simp [hd, he]
      | false =>
        cases s.presentedCap C service action p resource owner now with
        | some c => simp [hd, he]
        | none => cases hm : (s.policy.service service).mode <;> simp [hd, he, hm]

@[simp] theorem trusting_usage (s : Store) (node : String) (cap : Option Capability) : (s.trusting node cap).usage = s.usage := by
  cases cap <;> rfl

theorem authorizePeerOwned_charged (s : Store) (service : Service) (action : Action) (p : Principal)
    (resource owner : Option String) (now : Int) :
    (∃ caps : List (Service × String), (∀ x ∈ caps, accountOk C x.2 = true) ∧
      s.usage.Charged ((if service = .ai ∧ s.admits C service action p resource owner now = true then
        [(service, p.account)] else []) ++ caps) (s.authorizePeerOwned C service action p resource owner now).1.usage) ∧
    ∀ a, (s.authorizePeerOwned C service action p resource owner now).2 = .ok a → a.Formed C := by
  obtain ⟨cap, hcap, heq⟩ := authorizePeerOwned_eq (C := C) s service action p resource owner now
  rw [heq]
  cases hadmits : s.admits C service action p resource owner now with
  | true =>
    have h := chargePeer_charged C (s.trusting p.node cap) service p now hcap
    simpa using h
  | false => exact ⟨⟨[], nofun, by simpa using .done _⟩, nofun⟩

theorem record_charged (s : Store) (a : Authorized) (requests outputChars : Nat) (now : Int) :
    s.usage.Charged (a.accounts.map (fun account => (a.service, account)) ++
      a.capAccounts.map (fun x => (a.service, x.1))) (s.record a requests outputChars now).usage := by
  refine @UsageBook.Charged.append _ (a.accounts.foldl (fun b account =>
    b.record a.service account a.limits requests outputChars now) s.usage) _ _ _ ?_ ?_
  · generalize s.usage = b
    induction a.accounts generalizing b with
    | nil => exact .done b
    | cons account accounts ih => exact .put _ _ _ (ih _)
  · show UsageBook.Charged _ _ (a.capAccounts.foldl (fun b x => b.record a.service x.1 x.2 requests outputChars now) _)
    generalize a.accounts.foldl _ _ = b
    induction a.capAccounts generalizing b with
    | nil => exact .done b
    | cons x accounts ih => exact .put _ _ _ (ih _)

end Store

variable {tokens : List ApiToken}

theorem lookup_mem {authorization : Option String} {required : Bool} {now : Int} {token : ApiToken}
    (h : lookup C tokens authorization required now = .ok (some token)) : token ∈ tokens := by
  unfold lookup at h
  split at h
  · split at h <;> cases h
  · split at h
    · cases h
    · split at h
      · rename_i t ht
        cases h
        exact mem_of_find?_eq_some ht
      · cases h

theorem validateEach_idOk : ∀ {tokens : List ApiToken} {ids : List String}, validateEach ids tokens = .ok u →
    ∀ t ∈ tokens, idOk t.id = true
  | [], _, _ => nofun
  | t :: tokens, ids, h => by
    obtain ⟨_, ht, h⟩ := bind_eq_ok.1 h
    rw [ensure_bind_eq_ok] at h
    exact forall_mem_cons.2 ⟨t.validate_idOk ht, validateEach_idOk h.2⟩

theorem validateTokens_idOk (h : validateTokens tokens = .ok u) : ∀ t ∈ tokens, idOk t.id = true := by
  exact validateEach_idOk (ensure_bind_eq_ok.1 h).2

namespace ApiStore

theorem touchToken_idOk {s : ApiStore} (hs : ∀ t ∈ s.tokens, idOk t.id = true) (id : String) (now : Int) :
    ∀ t ∈ (s.touchToken id now).tokens, idOk t.id = true := by
  unfold touchToken
  split
  · exact hs
  · intro t ht
    obtain ⟨j, hj, rfl⟩ := getElem_of_mem ht
    have hold := hs _ (getElem_mem (by simpa using hj))
    rw [getElem_modify]
    split
    · exact hold
    · exact hold

@[simp] theorem touchToken_usage (s : ApiStore) (id : String) (now : Int) : (s.touchToken id now).usage = s.usage := by
  unfold touchToken
  split <;> rfl

theorem authorizeApi_charged (s : ApiStore) (hs : ∀ t ∈ s.tokens, idOk t.id = true) (authorization model : Option String)
    (now : Int) :
    (∃ accounts : List (Service × String), (∀ x ∈ accounts, accountOk C x.2 = true) ∧
      s.usage.Charged accounts (s.authorizeApi C authorization model now).1.usage) ∧
    (∀ t ∈ (s.authorizeApi C authorization model now).1.tokens, idOk t.id = true) ∧
    ∀ a, (s.authorizeApi C authorization model now).2 = .ok a → a.Formed C := by
  unfold authorizeApi
  cases hl : lookup C s.tokens authorization s.requireToken now with
  | error e => exact ⟨⟨[], nofun, .done _⟩, hs, nofun⟩
  | ok found =>
    cases found with
    | none =>
      refine ⟨⟨[], nofun, .done _⟩, hs, fun a ha => ?_⟩
      cases ha
      exact Authorized.formed_nil _ _ _
    | some token =>
      have hid := accountOk_of_id C "token:" (by simp) (hs token (lookup_mem hl))
      have hcheck : s.usage.Charged [(.ai, "token:" ++ token.id)]
          (s.usage.check .ai (s.usage.account .ai ("token:" ++ token.id)) token.limits now).1 := .put _ _ _ (.done _)
      have haccounts : ∀ x ∈ [(Service.ai, "token:" ++ token.id)], accountOk C x.2 = true := fun x hx => by
        rw [mem_singleton.1 hx]
        exact hid
      dsimp only
      by_cases hm : (!token.models.isEmpty && !model.any (fun m => token.models.contains m)) = true
      · rw [if_pos hm]
        exact ⟨⟨[], nofun, .done _⟩, hs, nofun⟩
      · rw [if_neg hm]
        cases (s.usage.check .ai (s.usage.account .ai ("token:" ++ token.id)) token.limits now).2 with
        | error e => exact ⟨⟨_, haccounts, hcheck⟩, hs, nofun⟩
        | ok _ =>
          refine ⟨⟨_, haccounts, ?_⟩, touchToken_idOk (s := { s with usageDirty := true, usage := _ }) hs token.id now, fun a ha => ?_⟩
          · rw [touchToken_usage]
            exact hcheck
          · cases ha
            exact Authorized.formed_one _ _ _ _ (.inl hid) nofun

end ApiStore

/-! ## Runs -/

namespace Desk

variable (C) in
/-- **Every transport node the call meters under its own account is named by a node id.** -/
def NodeIds (d : Desk) : MeterCall → Prop
  | .authorizePeerOwned service action p resource owner now =>
    service = .ai → d.store.admits C service action p resource owner now = true → Named C (d.store.usage.account service p.account)
  | .authorizeApi _ _ _ => True
  | .record granted _ _ _ => ∀ a, d.granted[granted]? = some a → ∀ account ∈ a.accounts,
      Named C (d.store.usage.account a.service account)

variable (C) in
/-- **Every call of a run meters nodes by their ids**, at the store it finds. -/
def Clean (d : Desk) : List MeterCall → Prop
  | [] => True
  | call :: calls => d.NodeIds C call ∧ (d.step C call).Clean calls

variable (C) in
/-- A desk whose tokens and grants make up accounts the loader accepts, but for those of nodes. -/
structure Sound (d : Desk) : Prop where
  tokens : ∀ t ∈ d.store.tokens, idOk t.id = true
  grants : ∀ a ∈ d.granted, a.Formed C

theorem Sound.grant {granted : List Authorized} (h : ∀ a ∈ granted, a.Formed C) {r : Except Denied Authorized}
    (hr : ∀ a, r = .ok a → a.Formed C) : ∀ a ∈ Desk.grant granted r, a.Formed C := by
  cases r with
  | error e => exact h
  | ok authorized =>
    intro a ha
    rcases mem_append.1 ha with ha | ha
    · exact h a ha
    · rw [mem_singleton.1 ha]
      exact hr _ rfl

/-- **What a call charges for**: accepted accounts, after one at most that is accepted if the node is named by its id. -/
theorem Sound.step {d : Desk} (hd : d.Sound C) (call : MeterCall) : (d.step C call).Sound C ∧ ∃ accounts : List (Service × String),
      d.store.usage.Charged accounts (d.step C call).store.usage ∧ (∀ x ∈ accounts.tail, accountOk C x.2 = true) ∧
      ((∀ x ∈ accounts.head?, accountOk C (d.store.usage.account x.1 x.2) = true) ↔ d.NodeIds C call) := by
  cases call with
  | authorizePeerOwned service action p resource owner now =>
    obtain ⟨⟨caps, hcaps, hcharged⟩, hformed⟩ := d.store.authorizePeerOwned_charged (C := C) service action p resource owner now
    refine ⟨⟨hd.tokens, Sound.grant hd.grants hformed⟩, _, hcharged, ?_⟩
    by_cases h : service = .ai ∧ d.store.admits C service action p resource owner now = true
    · rw [if_pos h]
      refine ⟨hcaps, ?_⟩
      have hformed : Formed C p.account := .inr ⟨_, rfl⟩
      have hnamed := (d.store.usage.formed_account service hformed).accountOk_iff
      simp only [singleton_append, head?_cons, mem_some_iff, forall_eq']
      exact hnamed.trans ⟨fun hn _ _ => hn, fun hn => hn h.1 h.2⟩
    · rw [if_neg h]
      refine ⟨fun x hx => hcaps x (mem_of_mem_tail hx), fun _ hai hadmits => absurd ⟨hai, hadmits⟩ h, fun _ x hx => ?_⟩
      exact UsageBook.accountOk_account _ _ (hcaps x (mem_of_mem_head? hx))
  | authorizeApi authorization model now =>
    obtain ⟨⟨accounts, haccounts, hcharged⟩, htokens, hformed⟩ := d.store.authorizeApi_charged hd.tokens authorization model now
    refine ⟨⟨htokens, Sound.grant hd.grants hformed⟩, accounts, hcharged, fun x hx => haccounts x (mem_of_mem_tail hx),
      fun _ => trivial, fun _ x hx => ?_⟩
    exact UsageBook.accountOk_account _ _ (haccounts x (mem_of_mem_head? hx))
  | record granted requests outputChars now =>
    simp only [Desk.step, NodeIds]
    cases hg : d.granted[granted]? with
    | none => exact ⟨hd, [], .done _, nofun, fun _ => nofun, fun _ => nofun⟩
    | some a =>
      have ha := hd.grants a (mem_of_getElem? hg)
      have hcaps : ∀ x ∈ a.capAccounts.map (fun x => (a.service, x.1)), accountOk C x.2 = true := by
        intro x hx
        obtain ⟨y, hy, rfl⟩ := List.mem_map.1 hx
        exact ha.caps y hy
      refine ⟨⟨hd.tokens, hd.grants⟩, _, d.store.toStore.record_charged a requests outputChars now, ?_⟩
      cases haccounts : a.accounts with
      | nil =>
        refine ⟨fun x hx => hcaps x (mem_of_mem_tail hx), fun _ b hb => ?_, fun _ x hx => ?_⟩
        · cases hb
          rw [haccounts]
          exact nofun
        · exact UsageBook.accountOk_account _ _ (hcaps x (mem_of_mem_head? hx))
      | cons account accounts =>
        have hsingle := ha.single
        rw [haccounts, length_cons] at hsingle
        have hnil : accounts = [] := eq_nil_of_length_eq_zero (by omega)
        subst hnil
        have hnamed := (d.store.usage.formed_account a.service
          (ha.formed account (by rw [haccounts]; exact mem_cons_self))).accountOk_iff
        refine ⟨hcaps, ?_⟩
        simp only [map_cons, map_nil, singleton_append, head?_cons, mem_some_iff, forall_eq']
        refine hnamed.trans ⟨fun hn b hb x hx => ?_, fun hn => hn a rfl account (by rw [haccounts]; exact mem_cons_self)⟩
        cases hb
        rw [haccounts] at hx
        rw [mem_singleton.1 hx]
        exact hn

theorem Sound.spoiled {d : Desk} (hd : d.Sound C) (hs : d.store.usage.Spoiled C) :
    ∀ calls : List MeterCall, (d.run C calls).store.usage.Spoiled C
  | [] => hs
  | call :: calls => by
    obtain ⟨hd', _, hcharged, -⟩ := hd.step call
    exact hd'.spoiled (hcharged.spoiled hs) calls

theorem Sound.valid_iff : ∀ (calls : List MeterCall) {d : Desk}, d.Sound C → d.store.usage.validate C = .ok () →
    ((d.run C calls).store.usage.validate C = .ok () ↔ d.Clean C calls)
  | [], d, _, hv => ⟨fun _ => trivial, fun _ => hv⟩
  | call :: calls, d, hd, hv => by
    obtain ⟨hd', accounts, hcharged, htail, hnodes⟩ := hd.step call
    obtain ⟨hiff, hspoiled⟩ := hcharged.valid_iff hv htail
    rw [hnodes] at hiff
    constructor
    · intro hrun
      have hstep : (d.step C call).store.usage.validate C = .ok () := by
        by_contra hn
        exact (hd'.spoiled (hspoiled hn) calls).invalid hrun
      exact ⟨hiff.1 hstep, (hd'.valid_iff calls hstep).1 hrun⟩
    · rintro ⟨hnode, hclean⟩
      exact (hd'.valid_iff calls (hiff.2 hnode)).2 hclean

theorem loadOrRecover_of_ok {α : Type} {decode : List UInt8 → Option α} {default value : α}
    {validate : α → Except String Unit} {file : List UInt8} (hd : decode file = some value) (hv : validate value = .ok ()) :
    loadOrRecover decode default validate (some file) = value := by
  unfold loadOrRecover
  rw [bind_some, hd]
  dsimp only
  rw [hv]
  rfl

/-- **A usage book survives a restart exactly when nodes were metered by their ids**: it is valid and read back as it
was saved if and only if every transport node that was metered under its own account has a node id for a name. -/
theorem reload_keeps_iff (C : Crates) (encode : UsageBook → List UInt8) (decode : List UInt8 → Option UsageBook) (d : Desk)
    (calls : List MeterCall) (hcodec : decode (encode (d.run C calls).store.usage) = some (d.run C calls).store.usage)
    (husage : d.store.usage.validate C = .ok ()) (htokens : validateTokens d.store.tokens = .ok ())
    (hgranted : d.granted = []) :
    ((d.run C calls).store.usage.validate C = .ok () ∧
      loadOrRecover decode .default (UsageBook.validate C) (some (encode (d.run C calls).store.usage))
        = (d.run C calls).store.usage) ↔ d.Clean C calls := by
  have hd : d.Sound C := ⟨validateTokens_idOk htokens, by rw [hgranted]; exact nofun⟩
  have hiff := hd.valid_iff calls husage
  constructor
  · exact fun h => hiff.1 h.1
  · intro hclean
    have hv := hiff.2 hclean
    exact ⟨hv, loadOrRecover_of_ok hcodec hv⟩

def openDesk : Desk := ⟨⟨⟨⟨.default, .default⟩, .default, false, .default, none⟩, [], false, false⟩, []⟩

def inference (node : String) : List MeterCall := [.authorizePeerOwned .ai .infer ⟨node, none⟩ none none 1000, .record 0 1 20 2000]

/-- A peer of another name: its meter is there, the book is rejected, and reading it back leaves no meter. -/
theorem reload_discards :
    ((openDesk.run (sampleCrates []) (inference "peer-1")).store.usage.ai.get "node:peer-1").map Meter.requests = some 1 ∧
    (match (openDesk.run (sampleCrates []) (inference "peer-1")).store.usage.validate (sampleCrates []) with
      | .ok _ => none | .error e => some e) = some "invalid usage account" ∧
    (loadOrRecover (fun _ => some (openDesk.run (sampleCrates []) (inference "peer-1")).store.usage) .default
      (UsageBook.validate (sampleCrates [])) (some [])).ai.get "node:peer-1" = none := by
  decide

theorem inference_clean : openDesk.Clean (sampleCrates []) (inference "0123456789abcdef") := by
  have hnamed : Named (sampleCrates []) "node:0123456789abcdef" :=
    Formed.accountOk_iff (.inr ⟨"0123456789abcdef", rfl⟩) |>.1 (by decide)
  refine ⟨fun _ _ => ?_, fun a ha account haccount => ?_, trivial⟩
  · have haccount : openDesk.store.usage.account .ai "node:0123456789abcdef" = "node:0123456789abcdef" := by decide
    exact haccount ▸ hnamed
  · generalize hd : Desk.step _ _ _ = d at ha ⊢
    have hgrant : d.granted[0]?.map (fun a => (a.service, a.accounts)) = some (.ai, ["node:0123456789abcdef"]) := by
      rw [← hd]
      decide
    have hbook : d.store.usage.account .ai "node:0123456789abcdef" = "node:0123456789abcdef" := by
      rw [← hd]
      decide
    rw [ha] at hgrant
    obtain ⟨hservice, haccounts⟩ := Prod.mk.inj (Option.some.inj hgrant)
    rw [haccounts, mem_singleton] at haccount
    rw [hservice, haccount, hbook]
    exact hnamed

theorem reload_keeps_iff_node : let book := (openDesk.run (sampleCrates []) (inference "0123456789abcdef")).store.usage
    loadOrRecover (fun _ => some book) .default (UsageBook.validate (sampleCrates [])) (some []) = book := by
  exact ((reload_keeps_iff (sampleCrates []) (fun _ => []) _ openDesk (inference "0123456789abcdef") rfl
    (by decide) rfl rfl).2 inference_clean).2

end Desk

end Mistl.Authz
