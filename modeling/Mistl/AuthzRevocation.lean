import Mistl.AuthzDelegation
/-!
# AuthzRevocation — what a revocation takes away, and for how long

A revocation message is accepted by who sent it and applied by id.  It lasts as long as the last expiry the store knew for
its id, which need not be that of the link it is meant for.
-/
open List

namespace Mistl.Authz

variable {C : Crates}

/-! ## The revocations of a book -/

variable {l : List Revoked}

variable {i : Nat}

section revoke

variable {b : Book} {id id' : String} {now t : Int}

/-- **What `revoke` does to the revocations**: nothing, a later expiry for its id, or an entry of its own, the oldest one
dropped where there is no room. -/
theorem revoke_revoked (C : Crates) (b : Book) (id : String) (now : Int) :
    ((b.revoke C id now).revoked = b.revoked ∧ (b.knownExps C id).max?.getD (satAddSigned now maxLifetimeMs) ≤ now) ∨
    (∃ i exp, b.revoked.findIdx? (fun r => r.id == id) = some i ∧ now < exp ∧
      exp = (b.knownExps C id).max?.getD (satAddSigned now maxLifetimeMs) ∧
      (b.revoke C id now).revoked = b.revoked.modify i (fun old => { old with exp := max old.exp exp })) ∨
    (∃ exp kept, b.revoked.findIdx? (fun r => r.id == id) = none ∧ now < exp ∧
      exp = (b.knownExps C id).max?.getD (satAddSigned now maxLifetimeMs) ∧
      kept.Sublist b.revoked ∧ (b.revoked.length < maxRevoked → kept = b.revoked) ∧
      (b.revoke C id now).revoked = kept ++ [⟨id, exp, now⟩]) := by
  unfold Book.revoke
  dsimp only
  split
  · rename_i hle
    exact .inl ⟨rfl, hle⟩
  · rename_i hlt
    right
    cases hfind : b.revoked.findIdx? (fun r => r.id == id) with
    | some i => exact .inl ⟨i, _, rfl, not_le.1 hlt, rfl, rfl⟩
    | none =>
      refine .inr ⟨_, _, rfl, not_le.1 hlt, rfl, ?_, fun hroom => ?_, rfl⟩
      · split
        · exact eraseIdx_sublist _ _
        · exact Sublist.refl _
      · rw [if_neg (not_le.2 hroom)]

theorem revoke_issued (C : Crates) (b : Book) (id : String) (now : Int) : (b.revoke C id now).issued = b.issued := by
  unfold Book.revoke
  dsimp only
  split <;> rfl

theorem isRevoked_eq_true : b.isRevoked id t = true ↔
    (∃ r ∈ b.revoked, r.id = id ∧ t < r.exp) ∨ ∃ i ∈ b.issued, i.revoked = true ∧ (i.cap.index "id").asStr = some id := by
  unfold Book.isRevoked
  simp only [Bool.or_eq_true, any_eq_true, Bool.and_eq_true, beq_iff_eq, decide_eq_true_eq]

theorem id_of_findIdx (h : l.findIdx? (fun r => r.id == id) = some i) : ∃ hi : i < l.length, (l.get ⟨i, hi⟩).id = id := by
  obtain ⟨hi, hp, -⟩ := findIdx?_eq_some_iff_getElem.1 h
  exact ⟨hi, beq_iff_eq.1 hp⟩

theorem mem_modify {f : Revoked → Revoked} (hi : i < l.length) {r : Revoked} :
    r ∈ l.modify i f ↔ r = f (l.get ⟨i, hi⟩) ∨ ∃ j, ∃ hj : j < l.length, j ≠ i ∧ r = l.get ⟨j, hj⟩ := by
  rw [mem_iff_getElem]
  simp only [length_modify, getElem_modify, get_eq_getElem]
  constructor
  · rintro ⟨j, hj, rfl⟩
    by_cases hji : i = j
    · subst hji
      exact .inl (by rw [if_pos rfl])
    · exact .inr ⟨j, hj, Ne.symm hji, by rw [if_neg hji]⟩
  · rintro (rfl | ⟨j, hj, hne, rfl⟩)
    · exact ⟨i, hi, by rw [if_pos rfl]⟩
    · exact ⟨j, hj, by rw [if_neg (Ne.symm hne)]⟩

theorem revoke_other (h : (b.revoke C id now).isRevoked id' t = true) (hne : id' ≠ id) : b.isRevoked id' t = true := by
  rw [isRevoked_eq_true, revoke_issued] at h
  rw [isRevoked_eq_true]
  refine h.imp_left ?_
  rintro ⟨r, hr, hid, ht⟩
  rcases revoke_revoked C b id now with ⟨heq, -⟩ | ⟨i, exp, hfind, -, -, heq⟩ | ⟨exp, kept, -, -, -, hsub, -, heq⟩
  · rw [heq] at hr
    exact ⟨r, hr, hid, ht⟩
  · obtain ⟨hi, hold⟩ := id_of_findIdx hfind
    rw [heq, mem_modify hi] at hr
    rcases hr with rfl | ⟨j, hj, -, rfl⟩
    · exact absurd (hid.symm.trans hold) hne
    · exact ⟨_, get_mem _ _, hid, ht⟩
  · rw [heq, mem_append, mem_singleton] at hr
    rcases hr with hr | rfl
    · exact ⟨r, hsub.subset hr, hid, ht⟩
    · exact absurd hid.symm hne

theorem revoke_keeps_other (h : b.isRevoked id' t = true) (hne : id' ≠ id) (hroom : b.revoked.length < maxRevoked) :
    (b.revoke C id now).isRevoked id' t = true := by
  rw [isRevoked_eq_true] at h
  rw [isRevoked_eq_true, revoke_issued]
  refine h.imp_left ?_
  rintro ⟨r, hr, hid, ht⟩
  rcases revoke_revoked C b id now with ⟨heq, -⟩ | ⟨i, exp, hfind, -, -, heq⟩ | ⟨exp, kept, -, -, -, -, hkept, heq⟩
  · exact ⟨r, heq ▸ hr, hid, ht⟩
  · obtain ⟨hi, hold⟩ := id_of_findIdx hfind
    obtain ⟨j, hj, rfl⟩ := mem_iff_getElem.1 hr
    refine ⟨_, ?_, hid, ht⟩
    rw [heq, mem_modify hi]
    refine .inr ⟨j, hj, fun hji => ?_, rfl⟩
    subst hji
    exact hne (hid.symm.trans hold)
  · refine ⟨r, ?_, hid, ht⟩
    rw [heq, hkept hroom]
    exact mem_append_left _ hr

theorem revoke_length (C : Crates) (b : Book) (id : String) (now : Int) :
    (b.revoke C id now).revoked.length ≤ b.revoked.length + 1 := by
  rcases revoke_revoked C b id now with ⟨heq, -⟩ | ⟨i, exp, -, -, -, heq⟩ | ⟨exp, kept, -, -, -, hsub, -, heq⟩
  · rw [heq]
    omega
  · rw [heq, length_modify]
    omega
  · rw [heq, length_append]
    exact Nat.add_le_add_right hsub.length_le 1

end revoke

def Book.revokeAll (C : Crates) (b : Book) (ids : List String) (now : Int) : Book := ids.foldl (fun b id => b.revoke C id now) b

theorem revokeAll_other {t now : Int} {id' : String} : ∀ {ids : List String} {b : Book}, id' ∉ ids →
    (b.revokeAll C ids now).isRevoked id' t = true → b.isRevoked id' t = true
  | [], _, _, h => h
  | id :: ids, b, hmem, h => by
    rw [mem_cons, not_or] at hmem
    exact revoke_other (revokeAll_other hmem.2 h) hmem.1

theorem revokeAll_keeps_other {t now : Int} {id' : String} : ∀ {ids : List String} {b : Book}, id' ∉ ids →
    b.revoked.length + ids.length ≤ maxRevoked → b.isRevoked id' t = true → (b.revokeAll C ids now).isRevoked id' t = true
  | [], _, _, _, h => h
  | id :: ids, b, hmem, hroom, h => by
    rw [mem_cons, not_or] at hmem
    rw [length_cons] at hroom
    have hlen := revoke_length C b id now
    show ((b.revoke C id now).revokeAll C ids now).isRevoked id' t = true
    exact revokeAll_keeps_other hmem.2 (by omega) (revoke_keeps_other h hmem.1 (by omega))

/-! ## What verification reads of the revocations -/

section reads

variable {ctx : Context} {f : String → Bool}

theorem checkLink_mono {holder : String} {link : Link} {parent : Option Link}
    (hf : f link.id = true → ctx.isRevoked link.id = true) (hne : checkLink C ctx holder link parent ≠ .error .revoked) :
    checkLink C { ctx with isRevoked := f } holder link parent = checkLink C ctx holder link parent := by
  cases hr : ctx.isRevoked link.id with
  | false =>
    have hf : f link.id = false := by
      by_contra hc
      rw [hf (Bool.not_eq_false _ ▸ hc)] at hr
      cases hr
    unfold checkLink
    simp only [hr, hf]
  | true =>
    refine ensure_bind_congr (fun h1 => ensure_bind_congr (fun h2 => ensure_bind_congr (fun h3 =>
      ensure_bind_congr (fun h4 => absurd ?_ hne))))
    unfold checkLink
    rw [h1, h2, h3, h4, hr]
    rfl

theorem checkChain_mono : ∀ {links : List Link} {holder : String}, (∀ link ∈ links, f link.id = true → ctx.isRevoked link.id = true) →
    checkChain C ctx holder links ≠ .error .revoked →
    checkChain C { ctx with isRevoked := f } holder links = checkChain C ctx holder links
  | [], _, _, _ => rfl
  | link :: rest, holder, hf, hne => by
    rw [checkChain] at hne
    rw [checkChain, checkChain]
    have hlink : checkLink C ctx holder link rest.head? ≠ .error .revoked := by
      intro he
      rw [he] at hne
      exact hne rfl
    rw [checkLink_mono (hf link mem_cons_self) hlink]
    cases hc : checkLink C ctx holder link rest.head? with
    | error e => rfl
    | ok u =>
      rw [hc] at hne
      exact checkChain_mono (fun l hl => hf l (mem_cons_of_mem _ hl)) hne

theorem verify_mono {wire : Json}
    (hf : ∀ cap, parse C wire = .ok cap → ∀ link ∈ cap.chain, f link.id = true → ctx.isRevoked link.id = true)
    (hne : verify C wire ctx ≠ .error .revoked) : verify C wire { ctx with isRevoked := f } = verify C wire ctx := by
  unfold verify at hne ⊢
  cases hp : parse C wire with
  | error e => rfl
  | ok cap =>
    rw [hp] at hne
    have hchain : checkChain C ctx ctx.holder cap.chain ≠ .error .revoked := by
      intro he
      refine hne ?_
      show (checkChain C ctx ctx.holder cap.chain >>= _) = _
      rw [he]
      rfl
    show (checkChain C { ctx with isRevoked := f } ctx.holder cap.chain >>= _)
      = (checkChain C ctx ctx.holder cap.chain >>= _)
    rw [checkChain_mono (hf cap hp) hchain]

theorem verify_congr {wire : Json}
    (hf : ∀ cap, parse C wire = .ok cap → ∀ link ∈ cap.chain, f link.id = ctx.isRevoked link.id) :
    verify C wire { ctx with isRevoked := f } = verify C wire ctx := by
  by_cases hne : verify C wire ctx = .error .revoked
  · by_contra hc
    have hother : verify C wire { ctx with isRevoked := f } ≠ .error .revoked := fun he => hc (he.trans hne.symm)
    have h := @verify_mono C { ctx with isRevoked := f } ctx.isRevoked wire
      (fun cap hp link hl hr => (hf cap hp link hl).trans hr) hother
    exact hc h.symm
  · exact verify_mono (fun cap hp link hl hr => (hf cap hp link hl).symm.trans hr) hne

end reads

/-! ## Messages -/

structure Revoker (C : Crates) (s : Store) (did : String) (now : Int) (sender : String) (holder : Option String)
    (wire : Json) (signer : String) : Prop where
  signedBy : (wire.index "fromId").asStr = some signer
  transport : nodeIdForDid C signer = sender ∧ holder = some signer
  trusted : s.trustsRevoker did now signer = true
  signature : Wiresign.verifyWire C wire = true

variable {s : Store} {did : String} {now : Int} {sender : String} {holder : Option String} {wire : Json}

theorem acceptRevocation_revoker {ids : List String} (h : s.acceptRevocation C did now sender holder wire = some ids) :
    (∃ signer, Revoker C s did now sender holder wire signer) ∧ ∀ id ∈ ids, validId id = true := by
  unfold Store.acceptRevocation at h
  simp only [Option.bind_eq_bind, Option.bind_eq_some_iff, Option.guard_eq_some'] at h
  obtain ⟨signer, hsigner, -, htransport, ts, -, -, -, l, -, -, hvalid, -, ⟨htrusted, hsigned⟩, hids⟩ := h
  refine ⟨⟨signer, hsigner, htransport, htrusted, hsigned⟩, fun id hid => ?_⟩
  cases hids
  obtain ⟨j, hj, hstr⟩ := mem_filterMap.1 hid
  have := List.all_eq_true.1 hvalid j hj
  rwa [hstr] at this

/-- **A revocation message touches the chains of its ids alone.**  Only a sender the store trusts is heard, and a chain that
holds none of the ids it lists is judged as before; a chain judged revoked may be freed by it where the revocations are
full, for then the oldest are dropped. -/
theorem revocation_touches_listed (C : Crates) (s : Store) (did : String) (now : Int) (sender : String)
    (holder : Option String) (wire : Json) (htag : (wire.index "t").asStr = some revokeTag) :
    (s.acceptRevocation C did now sender holder wire = none → (s.receiveCap C did now sender holder wire).1 = s) ∧
    ∀ ids, s.acceptRevocation C did now sender holder wire = some ids → (∃ signer, Revoker C s did now sender holder wire signer) ∧
      ∀ (capWire : Json) (presenter : String) (service : Service) (action : Action) (resource : String)
        (owner : Option String) (later : Int),
        (∀ cap, parse C capWire = .ok cap → ∀ link ∈ cap.chain, link.id ∉ ids) →
        (s.verifyCap C capWire presenter service action resource owner later ≠ .error .revoked ∨
          s.caps.revoked.length + ids.length ≤ maxRevoked) →
        (s.receiveCap C did now sender holder wire).1.verifyCap C capWire presenter service action resource owner later
          = s.verifyCap C capWire presenter service action resource owner later := by
  have hreceive : (s.receiveCap C did now sender holder wire).1 = s.receiveRevoke C did now sender holder wire := by
    unfold Store.receiveCap
    rw [htag]
    rfl
  rw [hreceive]
  unfold Store.receiveRevoke
  refine ⟨fun hnone => by rw [hnone], fun ids hids => ⟨(acceptRevocation_revoker hids).1, ?_⟩⟩
  intro capWire presenter service action resource owner later hlisted hcase
  have hcontext : ({ s with caps := s.caps.revokeAll C ids (timestampMillis now) } : Store).context presenter service action
      resource owner later = { s.context presenter service action resource owner later with
        isRevoked := fun id => (s.caps.revokeAll C ids (timestampMillis now)).isRevoked id (timestampMillis later) } := rfl
  rw [hids]
  show verify C capWire (({ s with caps := s.caps.revokeAll C ids (timestampMillis now) } : Store).context presenter service
    action resource owner later) = verify C capWire _
  rw [hcontext]
  rcases hcase with hne | hroom
  · exact verify_mono (fun cap hp link hl => revokeAll_other (hlisted cap hp link hl)) hne
  · refine verify_congr (fun cap hp link hl => Bool.eq_iff_iff.2 ⟨?_, ?_⟩)
    · exact revokeAll_other (hlisted cap hp link hl)
    · exact revokeAll_keeps_other (hlisted cap hp link hl) hroom

def aiGrant : Json := .obj [("act", .arr [.str "infer"]), ("aud", .str "did:key:z6MkvRXNYcE7MMduynWTgeKbDaT1iijDSC8pZqXZc8rHPrf2"),
    ("exp", .int 90000), ("fromId", .str "did:key:z6Mkon3Necd6NkkyfoGoHxid2znGc59LU3K7mubaRcFbLfLX"),
    ("id", .str "0000000000000000000000000000000a"), ("nbf", .int 1000), ("res", .str "*"),
    ("signature", .str "H8ImZs-pwzR0J9xmB_qsOS56w3BIno9b-wfp71wAkp2YDmB86Vs9yJp5hu27du8E1EYw_RvFCe20o6_8d_6SCg"),
    ("svc", .str "ai"), ("t", .str "mistl-cap-v1")]

def aiHolder : String := "did:key:z6MkvRXNYcE7MMduynWTgeKbDaT1iijDSC8pZqXZc8rHPrf2"

def otherIssuer : String := "did:key:z6Mkt6316e2PN3mZdB6N9CrzomJYUd1s5yBZi1XYHmwT9TUP"

def foreignRevocation : Json := .obj [("fromId", .str otherIssuer), ("ids", .arr [.str "0000000000000000000000000000000a"]),
    ("signature", .str "9wKKmsWgq9X3WQeo6ZiJRD2Y0VPy_b7u8OjoYwCCUIdno5bpY4O9NJ4G_jKjV3Wa3abykBpEUSdkrAkBdcsuBw"),
    ("t", .str "mistl-cap-revoke-v1"), ("ts", .int 3000)]

def authzCrates : Crates :=
  sampleCrates [(Json.utf8 otherIssuer.toList, "3926c3eeb094d6a9dfb7286a947883484ce83c2a9a013eae1be74770cb534b01")]

def twoIssuers : Store :=
  { policy := { ai := { ServicePolicy.default with
      issuers := ["did:key:z6Mkon3Necd6NkkyfoGoHxid2znGc59LU3K7mubaRcFbLfLX", otherIssuer] }, escrow := .default },
    usage := .default, usageDirty := false, caps := .default,
    localDid := some "did:key:z6Mko9hTggMwjSTEaJaPUfE6tqcy2xvU6BnNq3e3o8qVBiyH" }

def afterForeign : Store :=
  (twoIssuers.receiveCap authzCrates "did:key:z6Mko9hTggMwjSTEaJaPUfE6tqcy2xvU6BnNq3e3o8qVBiyH" (3000 * 10 ^ 6)
    "3926c3eeb094d6a9" (some otherIssuer) foreignRevocation).1

/-- **An issuer takes away what another granted.** -/
theorem issuer_revokes_foreign_grant :
    (twoIssuers.acceptRevocation authzCrates "did:key:z6Mko9hTggMwjSTEaJaPUfE6tqcy2xvU6BnNq3e3o8qVBiyH" (3000 * 10 ^ 6)
      "3926c3eeb094d6a9" (some otherIssuer) foreignRevocation).isSome = true ∧
    (twoIssuers.verifyCap authzCrates aiGrant aiHolder .ai .infer "*" none (3000 * 10 ^ 6)).toOption.any
      (fun cap => cap.chain.all (fun link => link.issuer != otherIssuer)) = true ∧
    (afterForeign.verifyCap authzCrates aiGrant aiHolder .ai .infer "*" none (3000 * 10 ^ 6)).toOption = none := by
  decide +kernel

theorem revocation_touches_listed_slot :
    afterForeign.verifyCap authzCrates slotGrant slotContext.holder .escrow .read slotContext.resource none (3000 * 10 ^ 6)
      = twoIssuers.verifyCap authzCrates slotGrant slotContext.holder .escrow .read slotContext.resource none
        (3000 * 10 ^ 6) := by
  have hids : twoIssuers.acceptRevocation authzCrates "did:key:z6Mko9hTggMwjSTEaJaPUfE6tqcy2xvU6BnNq3e3o8qVBiyH"
      (3000 * 10 ^ 6) "3926c3eeb094d6a9" (some otherIssuer) foreignRevocation
        = some ["0000000000000000000000000000000a"] := by decide
  have hother : (parse authzCrates slotGrant).toOption.all
      (fun cap => cap.chain.all (fun link => link.id != "0000000000000000000000000000000a")) = true := by decide +kernel
  refine ((revocation_touches_listed authzCrates twoIssuers _ _ _ _ foreignRevocation (by decide)).2 _ hids).2 _ _ _ _ _ _ _
    (fun cap hp link hl => ?_) (.inr (by decide))
  rw [hp] at hother
  have := List.all_eq_true.1 hother link hl
  simpa using this

/-! ## Runs -/

/-- What happens to a store: a message, a command, the minute's pruning, an authorization. -/
inductive StoreOp where
  | receive (sender : String) (holder : Option String) (wire : Json)
  | command (cmd : String) (args : Json) (env : Env)
  | prune
  | authorize (service : Service) (action : Action) (p : Principal) (resource owner : Option String)

structure Event where
  op : StoreOp
  now : Int

/-- The store after an event, on the node of `did`. -/
def Store.step (C : Crates) (did : String) (s : Store) (e : Event) : Store :=
  match e.op with
  | .receive sender holder wire => (s.receiveCap C did e.now sender holder wire).1
  | .command cmd args env => (s.capCommand C args did env e.now cmd).1
  | .prune => { s with caps := s.caps.prune C (timestampMillis e.now) }
  | .authorize service action p resource owner => (s.authorizePeerOwned C service action p resource owner e.now).1

/-- The calls of `revoke` for some ids, each with the book it finds. -/
def Book.revokeCalls (C : Crates) (now : Int) : Book → List String → List (String × Book)
  | _, [] => []
  | b, id :: ids => (id, b) :: (b.revoke C id now).revokeCalls C now ids

/-- The calls of `revoke` an event makes. -/
def Store.revocations (C : Crates) (did : String) (s : Store) (e : Event) : List (String × Book) :=
  match e.op with
  | .receive sender holder wire =>
    if (wire.index "t").asStr = some revokeTag then
      s.caps.revokeCalls C (timestampMillis e.now) ((s.acceptRevocation C did e.now sender holder wire).getD [])
    else []
  | .command "authz.cap.revoke" (.obj fields) env =>
    match (s.prepared C did e.now).revokeTarget (.obj fields) did with
    | .ok call => if env.saved then [call] else []
    | .error _ => []
  | _ => []

def Store.run (C : Crates) (did : String) (s : Store) (events : List Event) : Store := events.foldl (Store.step C did) s

/-- All calls of `revoke` in a run. -/
def Store.allRevocations (C : Crates) (did : String) : Store → List Event → List (String × Book)
  | _, [] => []
  | s, e :: events => s.revocations C did e ++ (s.step C did e).allRevocations C did events

/-- **How an event moves the revocations**: they are left alone, pruned, or an id is revoked. -/
inductive Moves (C : Crates) (now : Int) (b : Book) : List (String × Book) → Book → Prop where
  | refl : Moves C now b [] b
  | keep {calls : List (String × Book)} {b₁ b₂ : Book} : Moves C now b calls b₁ → b₂.revoked = b₁.revoked → Moves C now b calls b₂
  | prune {calls : List (String × Book)} {b₁ : Book} : Moves C now b calls b₁ → Moves C now b calls (b₁.prune C now)
  | revoke {calls : List (String × Book)} {b₁ : Book} (id : String) : Moves C now b calls b₁ →
      Moves C now b (calls ++ [(id, b₁)]) (b₁.revoke C id now)

theorem Moves.revokeAll {now : Int} {b : Book} : ∀ (ids : List String) {calls : List (String × Book)} {b₁ : Book},
    Moves C now b calls b₁ → Moves C now b (calls ++ b₁.revokeCalls C now ids) (b₁.revokeAll C ids now)
  | [], calls, b₁, h => by
    rw [Book.revokeCalls, append_nil]
    exact h
  | id :: ids, calls, b₁, h => by
    have h' := (Moves.revoke id h).revokeAll ids
    rw [append_assoc] at h'
    exact h'

section steps

variable {s s' : Store} {args j : Json} {env : Env}

def Book.Keeps (b b' : Book) : Prop := b'.revoked = b.revoked ∧ b'.presented = b.presented

theorem importCap_keeps (h : s.importCap C wire did now = .ok (s', j)) : s.caps.Keeps s'.caps := by
  obtain ⟨_, -, h⟩ := bind_eq_ok.1 h
  cases h
  exact ⟨rfl, rfl⟩

theorem capIssue_keeps (h : s.capIssue C args did env now = .ok (s', j)) : s.caps.Keeps s'.caps := by
  unfold Store.capIssue at h
  simp only [bind_eq_ok] at h
  obtain ⟨_, -, _, -, _, -, _, -, _, -, _, -, _, -, _, -, _, -, _, -, _, -, _, -, _, -, _, -, h⟩ := h
  cases h
  exact ⟨rfl, rfl⟩

theorem capRemove_keeps (h : s.capRemove args = .ok (s', j)) : s.caps.Keeps s'.caps := by
  obtain ⟨_, -, h⟩ := bind_eq_ok.1 h
  cases h
  exact ⟨rfl, rfl⟩

theorem revokeTarget_keeps {call : String × Book} (h : s.revokeTarget args did = .ok call) :
    s.caps.Keeps call.2 ∧ validId call.1 = true := by
  obtain ⟨id, -, h⟩ := bind_eq_ok.1 h
  obtain ⟨hid, h⟩ := ensure_bind_eq_ok.1 h
  obtain ⟨_, -, h⟩ := bind_eq_ok.1 h
  dsimp only at h
  split at h
  · cases h
    exact ⟨⟨rfl, rfl⟩, hid⟩
  · obtain ⟨_, -, h⟩ := okOr_bind_eq_ok.1 h
    cases h
    exact ⟨⟨rfl, rfl⟩, hid⟩

theorem runCommand_keeps {cmd : String} (hcmd : cmd ≠ "authz.cap.revoke")
    (h : s.runCommand C args did env now cmd = .ok (s', j)) : s.caps.Keeps s'.caps := by
  unfold Store.runCommand at h
  split at h
  · exact capIssue_keeps h
  · obtain ⟨_, -, h⟩ := bind_eq_ok.1 h
    exact importCap_keeps h
  · exact capRemove_keeps h
  · exact absurd rfl hcmd
  · cases h
    exact ⟨rfl, rfl⟩
  · obtain ⟨_, -, h⟩ := bind_eq_ok.1 h
    cases h
    exact ⟨rfl, rfl⟩
  · cases h

theorem command_moves (C : Crates) (did : String) (s : Store) (cmd : String) (args : Json) (env : Env) (now : Int) :
    Moves C (timestampMillis now) s.caps (s.revocations C did ⟨.command cmd args env, now⟩)
      (s.capCommand C args did env now cmd).1.caps := by
  have hprune : Moves C (timestampMillis now) s.caps [] (s.prepared C did now).caps := .prune .refl
  unfold Store.capCommand
  by_cases hcmd : cmd = "authz.cap.revoke"
  · subst hcmd
    cases args with
    | obj fields =>
      simp only [Store.revocations, Store.runCommand, Store.capRevoke]
      cases hcall : (s.prepared C did now).revokeTarget (.obj fields) did with
      | error e => exact .refl
      | ok call =>
        dsimp only [Except.pure]
        split
        · exact .keep (.revoke call.1 (.keep hprune (revokeTarget_keeps hcall).1.1)) rfl
        · exact .refl
    | _ => exact .refl
  · have hnone : s.revocations C did ⟨.command cmd args env, now⟩ = [] := by
      unfold Store.revocations
      split
      · rename_i heq
        cases heq
      · rename_i heq
        cases heq
        exact absurd rfl hcmd
      · rfl
    rw [hnone]
    split
    · split
      · exact .refl
      · rename_i next result hrun
        split
        · exact .keep (.keep hprune (runCommand_keeps hcmd hrun).1) rfl
        · exact .refl
    · exact .refl

theorem receive_moves (C : Crates) (did : String) (s : Store) (sender : String) (holder : Option String) (wire : Json)
    (now : Int) : Moves C (timestampMillis now) s.caps (s.revocations C did ⟨.receive sender holder wire, now⟩)
      (s.receiveCap C did now sender holder wire).1.caps := by
  have htags : presentTag ≠ revokeTag ∧ deliverTag ≠ revokeTag := by decide
  unfold Store.receiveCap
  simp only [Store.revocations]
  cases ht : (wire.index "t").asStr with
  | none => exact .refl
  | some t =>
    dsimp only
    by_cases hpresent : t = presentTag
    · subst hpresent
      rw [if_pos rfl]
      refine .keep .refl ?_
      unfold Store.receivePresent
      split
      · dsimp only
        split <;> split <;> rfl
      · rfl
    rw [if_neg hpresent]
    by_cases hdeliver : t = deliverTag
    · subst hdeliver
      rw [if_pos rfl]
      refine .keep .refl ?_
      unfold Store.receiveDeliver
      dsimp only
      split
      · rfl
      split
      · rfl
      split
      · rfl
      split
      · rename_i himport
        exact (importCap_keeps himport).1
      · rfl
    rw [if_neg hdeliver]
    by_cases hrevoke : t = revokeTag
    · rw [if_pos hrevoke, if_pos (by rw [hrevoke])]
      unfold Store.receiveRevoke
      cases s.acceptRevocation C did now sender holder wire with
      | none => exact .refl
      | some ids => exact Moves.revokeAll ids .refl
    · rw [if_neg hrevoke, if_neg (fun he => hrevoke (Option.some.inj he))]
      exact .refl

theorem trusting_revoked (s : Store) (node : String) (cap : Option Capability) :
    (s.trusting node cap).caps.revoked = s.caps.revoked := by
  cases cap <;> rfl

theorem chargePeer_caps (s : Store) (service : Service) (p : Principal) (cap : Option Capability) (now : Int) :
    (s.chargePeer service p cap now).1.caps = s.caps := by
  unfold Store.chargePeer
  split
  · rfl
  dsimp only
  split
  · rfl
  split
  · rfl
  split <;> rfl

theorem authorize_revoked (C : Crates) (s : Store) (service : Service) (action : Action) (p : Principal)
    (resource owner : Option String) (now : Int) :
    (s.authorizePeerOwned C service action p resource owner now).1.caps.revoked = s.caps.revoked := by
  unfold Store.authorizePeerOwned
  dsimp only
  split
  · rfl
  generalize (if (s.policy.service service).explicitlyAllowed p now = true then none
    else s.presentedCap C service action p resource owner now) = cap
  split
  · rfl
  rw [chargePeer_caps, trusting_revoked]

theorem step_moves (C : Crates) (did : String) (s : Store) (e : Event) :
    Moves C (timestampMillis e.now) s.caps (s.revocations C did e) (s.step C did e).caps := by
  obtain ⟨op, now⟩ := e
  cases op with
  | receive sender holder wire => exact receive_moves C did s sender holder wire now
  | command cmd args env => exact command_moves C did s cmd args env now
  | prune => exact .prune .refl
  | authorize service action p resource owner => exact .keep .refl (authorize_revoked C s service action p resource owner now)

end steps

/-! ## How long a revocation lasts -/

/-- The revocations of a run: one entry for an id, of the ids that were ever revoked. -/
structure Recorded (ids : Finset String) (b : Book) : Prop where
  nodup : (b.revoked.map Revoked.id).Nodup
  among : ∀ r ∈ b.revoked, r.id ∈ ids

/-- A revocation of `id` that stands until `exp`. -/
def Standing (id : String) (exp : Int) (b : Book) : Prop := ∃ r ∈ b.revoked, r.id = id ∧ exp ≤ r.exp

/-- **The store knows a link of the id that lasts to `exp`**, or knows none and `exp` is within a year and a day. -/
def Outlasts (C : Crates) (b : Book) (id : String) (now exp : Int) : Prop :=
  (∃ e ∈ b.knownExps C id, exp ≤ e) ∨ (b.knownExps C id = [] ∧ exp ≤ now + maxLifetimeMs)

section lasting

variable {ids : Finset String} {b : Book} {id : String} {now exp : Int}

theorem findIdx_none (h : l.findIdx? (fun r => r.id == id) = none) : id ∉ l.map Revoked.id := by
  rw [findIdx?_eq_none_iff] at h
  intro hmem
  obtain ⟨r, hr, rfl⟩ := mem_map.1 hmem
  have := h r hr
  simp at this

theorem modify_ids {exp : Int} : (l.modify i (fun old => { old with exp := max old.exp exp })).map Revoked.id = l.map Revoked.id := by
  refine ext_getElem (by simp) (fun j h₁ h₂ => ?_)
  simp only [getElem_map, getElem_modify]
  split <;> rfl

theorem Recorded.revoke (h : Recorded ids b) (hid : id ∈ ids) : Recorded ids (b.revoke C id now) := by
  rcases revoke_revoked C b id now with ⟨heq, -⟩ | ⟨i, e, -, -, -, heq⟩ | ⟨e, kept, hnone, -, -, hsub, -, heq⟩
  · exact ⟨heq ▸ h.nodup, heq ▸ h.among⟩
  · refine ⟨by rw [heq, modify_ids]; exact h.nodup, fun r hr => ?_⟩
    have hmem : r.id ∈ (b.revoke C id now).revoked.map Revoked.id := mem_map_of_mem hr
    rw [heq, modify_ids] at hmem
    obtain ⟨r', hr', he⟩ := mem_map.1 hmem
    rw [← he]
    exact h.among r' hr'
  · have hnew := findIdx_none hnone
    refine ⟨?_, fun r hr => ?_⟩
    · rw [heq, map_append]
      refine nodup_append.2 ⟨h.nodup.sublist (hsub.map _), nodup_singleton _, fun a ha c hc => ?_⟩
      rw [mem_singleton.1 hc]
      rintro rfl
      exact hnew ((hsub.map Revoked.id).subset ha)
    · rw [heq, mem_append, mem_singleton] at hr
      rcases hr with hr | rfl
      · exact h.among r (hsub.subset hr)
      · exact hid

theorem Recorded.prune (h : Recorded ids b) : Recorded ids (b.prune C now) :=
  ⟨h.nodup.sublist (filter_sublist.map _), fun r hr => h.among r (mem_filter.1 hr).1⟩

theorem Recorded.room (h : Recorded ids b) (hfew : ids.card < maxRevoked) : b.revoked.length < maxRevoked := by
  have hsub : (b.revoked.map Revoked.id).toFinset ⊆ ids := by
    intro x hx
    obtain ⟨r, hr, rfl⟩ := mem_map.1 (mem_toFinset.1 hx)
    exact h.among r hr
  have hcard := Finset.card_le_card hsub
  rw [toFinset_card_of_nodup h.nodup, length_map] at hcard
  omega

theorem Standing.revoke {id' : String} (h : Standing id exp b) (hroom : b.revoked.length < maxRevoked) :
    Standing id exp (b.revoke C id' now) := by
  obtain ⟨r, hr, hid, hexp⟩ := h
  rcases revoke_revoked C b id' now with ⟨heq, -⟩ | ⟨i, e, hfind, -, -, heq⟩ | ⟨e, kept, -, -, -, -, hkept, heq⟩
  · exact ⟨r, heq ▸ hr, hid, hexp⟩
  · obtain ⟨hi, -⟩ := id_of_findIdx hfind
    obtain ⟨j, hj, rfl⟩ := mem_iff_getElem.1 hr
    by_cases hji : j = i
    · subst hji
      have hmem : { b.revoked.get ⟨j, hi⟩ with exp := max (b.revoked.get ⟨j, hi⟩).exp e }
          ∈ (b.revoke C id' now).revoked := by
        rw [heq, mem_modify hi]
        exact .inl rfl
      exact ⟨_, hmem, hid, hexp.trans (le_max_left _ _)⟩
    · have hmem : b.revoked.get ⟨j, hj⟩ ∈ (b.revoke C id' now).revoked := by
        rw [heq, mem_modify hi]
        exact .inr ⟨j, hj, hji, rfl⟩
      exact ⟨_, hmem, hid, hexp⟩
  · refine ⟨r, ?_, hid, hexp⟩
    rw [heq, hkept hroom]
    exact mem_append_left _ hr

theorem Outlasts.revoke (h : Outlasts C b id now exp) (hlive : now < exp) (hword : exp ≤ 2 ^ 63 - 1) :
    Standing id exp (b.revoke C id now) := by
  have hle : exp ≤ (b.knownExps C id).max?.getD (satAddSigned now maxLifetimeMs) := by
    rcases h with ⟨e, he, hle⟩ | ⟨hnil, hle⟩
    · cases hmax : (b.knownExps C id).max? with
      | none =>
        rw [max?_eq_none_iff.1 hmax] at he
        cases he
      | some m => exact hle.trans ((max?_eq_some_iff.1 hmax).2 e he)
    · rw [hnil]
      exact (le_min hle hword).trans (le_max_right _ _)
  rcases revoke_revoked C b id now with ⟨-, hpast⟩ | ⟨i, e, hfind, -, he, heq⟩ | ⟨e, kept, -, -, he, -, -, heq⟩
  · omega
  · obtain ⟨hi, hold⟩ := id_of_findIdx hfind
    have hmem : { b.revoked.get ⟨i, hi⟩ with exp := max (b.revoked.get ⟨i, hi⟩).exp e }
        ∈ (b.revoke C id now).revoked := by
      rw [heq, mem_modify hi]
      exact .inl rfl
    rw [← he] at hle
    exact ⟨_, hmem, hold, hle.trans (le_max_right _ _)⟩
  · refine ⟨⟨id, e, now⟩, by rw [heq]; exact mem_append_right _ mem_cons_self, rfl, ?_⟩
    rw [he]
    exact hle

theorem Standing.prune (h : Standing id exp b) (hlive : now < exp) : Standing id exp (b.prune C now) := by
  obtain ⟨r, hr, hid, hexp⟩ := h
  exact ⟨r, mem_filter.2 ⟨hr, decide_eq_true (lt_of_lt_of_le hlive hexp)⟩, hid, hexp⟩

variable {calls : List (String × Book)}

theorem Moves.recorded {b b' : Book} (h : Moves C now b calls b')
    (hrec : Recorded ids b) (hids : ∀ c ∈ calls, c.1 ∈ ids) : Recorded ids b' := by
  induction h with
  | refl => exact hrec
  | keep _ heq ih =>
    have := ih hids
    exact ⟨heq ▸ this.nodup, heq ▸ this.among⟩
  | prune _ ih => exact (ih hids).prune
  | revoke id _ ih =>
    exact (ih (fun c hc => hids c (mem_append_left _ hc))).revoke
      (hids _ (mem_append_right _ mem_cons_self))

theorem Moves.standing {b b' : Book} (h : Moves C now b calls b') (hrec : Recorded ids b)
    (hids : ∀ c ∈ calls, c.1 ∈ ids) (hfew : ids.card < maxRevoked) (hlive : now < exp) (hst : Standing id exp b) :
    Standing id exp b' := by
  induction h with
  | refl => exact hst
  | keep _ heq ih =>
    obtain ⟨r, hr, hid, hexp⟩ := ih hids
    exact ⟨r, heq ▸ hr, hid, hexp⟩
  | prune _ ih => exact (ih hids).prune hlive
  | revoke id' hmoves ih =>
    have hids' := fun c hc => hids c (mem_append_left _ hc)
    exact (ih hids').revoke ((hmoves.recorded hrec hids').room hfew)

theorem Moves.establishes {b b' bk : Book} (h : Moves C now b calls b')
    (hrec : Recorded ids b) (hids : ∀ c ∈ calls, c.1 ∈ ids) (hfew : ids.card < maxRevoked) (hlive : now < exp)
    (hword : exp ≤ 2 ^ 63 - 1) (hcall : (id, bk) ∈ calls) (hout : Outlasts C bk id now exp) : Standing id exp b' := by
  induction h with
  | refl => cases hcall
  | keep _ heq ih =>
    obtain ⟨r, hr, hid, hexp⟩ := ih hids hcall
    exact ⟨r, heq ▸ hr, hid, hexp⟩
  | prune _ ih => exact (ih hids hcall).prune hlive
  | revoke id' hmoves ih =>
    have hids' := fun c hc => hids c (mem_append_left _ hc)
    rcases mem_append.1 hcall with hcall | hcall
    · exact (ih hids' hcall).revoke ((hmoves.recorded hrec hids').room hfew)
    · cases mem_singleton.1 hcall
      exact hout.revoke hlive hword

end lasting

variable {ids : Finset String}

theorem timestampMillis_mono {a b : Int} (h : a ≤ b) : timestampMillis a ≤ timestampMillis b := Int.ediv_le_ediv (by decide) h

theorem recorded_run (C : Crates) (did : String) : ∀ (events : List Event) {s : Store}, Recorded ids s.caps →
    (∀ c ∈ s.allRevocations C did events, c.1 ∈ ids) → Recorded ids (s.run C did events).caps
  | [], _, h, _ => h
  | e :: events, s, h, hids => by
    exact recorded_run C did events ((step_moves C did s e).recorded h (fun c hc => hids c (mem_append_left _ hc)))
      (fun c hc => hids c (mem_append_right _ hc))

theorem standing_run (C : Crates) (did : String) {id : String} {exp : Int} (hfew : ids.card < maxRevoked) :
    ∀ (events : List Event) {s : Store}, Recorded ids s.caps → (∀ c ∈ s.allRevocations C did events, c.1 ∈ ids) →
      (∀ e ∈ events, timestampMillis e.now < exp) → Standing id exp s.caps → Standing id exp (s.run C did events).caps
  | [], _, _, _, _, h => h
  | e :: events, s, hrec, hids, hlive, h => by
    have hhead := fun c hc => hids c (mem_append_left _ hc)
    have hmoves := step_moves C did s e
    exact standing_run C did hfew events (hmoves.recorded hrec hhead) (fun c hc => hids c (mem_append_right _ hc))
      (fun e' he' => hlive e' (mem_cons_of_mem _ he'))
      (hmoves.standing hrec hhead hfew (hlive e mem_cons_self) h)

theorem allRevocations_append (C : Crates) (did : String) : ∀ (before after : List Event) (s : Store),
    s.allRevocations C did (before ++ after)
      = s.allRevocations C did before ++ (s.run C did before).allRevocations C did after
  | [], _, _ => rfl
  | e :: before, after, s => by
    rw [cons_append, Store.allRevocations, allRevocations_append C did before after, Store.allRevocations, append_assoc]
    rfl

theorem verify_revoked {ctx : Context} {cap : Capability} {link : Link} (hparse : parse C wire = .ok cap)
    (hlink : link ∈ cap.chain) (hrevoked : ctx.isRevoked link.id = true) : ∃ e, verify C wire ctx = .error e := by
  cases h : verify C wire ctx with
  | error e => exact ⟨e, rfl⟩
  | ok cap' =>
    obtain ⟨cap₁, hparse', h⟩ := bind_eq_ok.1 h
    obtain ⟨_, hchain, -⟩ := bind_eq_ok.1 h
    rw [hparse] at hparse'
    cases hparse'
    obtain ⟨_, _, hc⟩ := (checkChain_eq_ok hchain).1 link hlink
    rw [hc.standing] at hrevoked
    cases hrevoked

/-- **A revocation lasts as long as the link it was meant for**, in every run that revokes fewer than `MAX_REVOKED` ids,
where the store knew a link of the id that lasts as long, or none. -/
theorem revocation_lasts (C : Crates) (did : String) (s₀ : Store) (hempty : s₀.caps = .default)
    (before : List Event) (event : Event) (after : List Event)
    (hfew : ((s₀.allRevocations C did (before ++ event :: after)).map Prod.fst).toFinset.card < maxRevoked)
    (id : String) (book : Book) (hrevoked : (id, book) ∈ (s₀.run C did before).revocations C did event)
    (wire : Json) (cap : Capability) (hparse : parse C wire = .ok cap) (link : Link) (hlink : link ∈ cap.chain)
    (hid : link.id = id) (hknown : Outlasts C book id (timestampMillis event.now) link.exp)
    (later : Int) (hlater : ∀ e ∈ event :: after, e.now ≤ later) (hlive : timestampMillis later < link.exp)
    (holder : String) (service : Service) (action : Action) (resource : String) (owner : Option String) :
    ∃ e, (s₀.run C did (before ++ event :: after)).verifyCap C wire holder service action resource owner later
      = .error e := by
  set ids := ((s₀.allRevocations C did (before ++ event :: after)).map Prod.fst).toFinset with hdef
  have hids : ∀ c ∈ s₀.allRevocations C did (before ++ event :: after), c.1 ∈ ids := fun c hc => mem_toFinset.2 (mem_map_of_mem hc)
  rw [allRevocations_append] at hids
  have hrec₀ : Recorded ids s₀.caps := by
    rw [hempty]
    exact ⟨nodup_nil, nofun⟩
  have hrec := recorded_run C did before hrec₀ (fun c hc => hids c (mem_append_left _ hc))
  have hhead := fun c hc => hids c (mem_append_right _ (mem_append_left _ hc))
  have hmoves := step_moves C did (s₀.run C did before) event
  have hlast : ∀ e ∈ event :: after, timestampMillis e.now < link.exp := fun e he =>
    lt_of_le_of_lt (timestampMillis_mono (hlater e he)) hlive
  have hword : link.exp ≤ 2 ^ 63 - 1 := by
    have := ((parse_shaped hparse).2 link hlink).word
    omega
  have hstanding := hmoves.establishes hrec hhead hfew (hlast event mem_cons_self) hword hrevoked hknown
  have hrun : s₀.run C did (before ++ event :: after)
      = ((s₀.run C did before).step C did event).run C did after := by
    rw [Store.run, foldl_append]
    rfl
  obtain ⟨r, hr, hrid, hexp⟩ := standing_run C did hfew after (hmoves.recorded hrec hhead)
    (fun c hc => hids c (mem_append_right _ (mem_append_right _ hc)))
    (fun e he => hlast e (mem_cons_of_mem _ he)) hstanding
  rw [hrun]
  refine verify_revoked hparse hlink (isRevoked_eq_true.2 (.inl ⟨r, hr, hrid.trans hid.symm, ?_⟩))
  exact lt_of_lt_of_le hlive hexp

/-- The holder's own capability for a slot, under the id of the grant and expiring soon. -/
def shortCandidate : Json :=
  .obj [("cap", .obj [("act", .arr [.str "read"]), ("aud", .str aiHolder), ("exp", .int 4000), ("fromId", .str aiHolder),
      ("id", .str "0000000000000000000000000000000a"), ("nbf", .int 1000),
      ("res", .str "notes/00000000000000000000000000000000"),
      ("signature", .str "JWbhEeoR9qq9zhNKWTD8u1NdW67aMMHeguHm2D2_K-PnNi1ouyp5BUT8QjWO7qo3kocKLrXDZX2F3Jyze0p7Aw"),
      ("svc", .str "escrow"), ("t", .str "mistl-cap-v1")]), ("t", .str "mistl-cap-present-v1")]

def presentGrant : Json := .obj [("cap", aiGrant), ("t", .str "mistl-cap-present-v1")]

def localEnv : Env := ⟨"", fun _ => "", fun _ => none, true⟩

def revokeGrant : Event :=
  ⟨.command "authz.cap.revoke" (.obj [("id", .str "0000000000000000000000000000000a"), ("local", .bool true)]) localEnv, 3000 * 10 ^ 6⟩

def provider : String := "did:key:z6Mko9hTggMwjSTEaJaPUfE6tqcy2xvU6BnNq3e3o8qVBiyH"

def presents (wire : Json) : Event := ⟨.receive "6eb973e4adf21fb3" (some aiHolder) wire, 2000 * 10 ^ 6⟩

/-- **The holder shortens a revocation**: it replaces its grant by a candidate of the same id before it is revoked, and
the grant is good again when the candidate has expired. -/
theorem revocation_shortened :
    ((twoIssuers.allRevocations authzCrates provider [presents presentGrant, presents shortCandidate, revokeGrant]).map
      Prod.fst) = ["0000000000000000000000000000000a"] ∧
    (twoIssuers.run authzCrates provider [presents presentGrant, presents shortCandidate, revokeGrant]).caps.isRevoked
      "0000000000000000000000000000000a" 3000 = true ∧
    ((twoIssuers.run authzCrates provider [presents presentGrant, presents shortCandidate, revokeGrant]).verifyCap
      authzCrates aiGrant aiHolder .ai .infer "*" none (5000 * 10 ^ 6)).toOption.any
        (fun cap => cap.leaf.id == "0000000000000000000000000000000a" && cap.leaf.exp == 90000) = true := by
  decide +kernel

theorem revocation_lasts_presented : ∃ e,
    (twoIssuers.run authzCrates provider [presents presentGrant, revokeGrant]).verifyCap authzCrates aiGrant aiHolder .ai
      .infer "*" none (5000 * 10 ^ 6) = .error e := by
  have hcalls : ((twoIssuers.run authzCrates provider [presents presentGrant]).revocations authzCrates provider
      revokeGrant).any (fun c => c.1 == "0000000000000000000000000000000a"
        && (c.2.knownExps authzCrates c.1).any (fun e => decide (90000 ≤ e))) = true := by decide +kernel
  have hcap : (parse authzCrates aiGrant).toOption.any
      (fun cap => cap.leaf.id == "0000000000000000000000000000000a" && cap.leaf.exp == 90000) = true := by decide +kernel
  obtain ⟨⟨id, book⟩, hmem, hcall⟩ := any_eq_true.1 hcalls
  cases hparse : parse authzCrates aiGrant with
  | error e => rw [hparse] at hcap; cases hcap
  | ok cap =>
    rw [hparse] at hcap
    simp only [Except.toOption, Option.any_some, Bool.and_eq_true, beq_iff_eq] at hcap hcall
    obtain ⟨rest, hrest⟩ := cap.chain_eq
    obtain ⟨e, he, hle⟩ := any_eq_true.1 hcall.2
    refine revocation_lasts authzCrates provider twoIssuers rfl [presents presentGrant] revokeGrant [] ?_ id book hmem
      aiGrant cap hparse cap.leaf (by rw [hrest]; exact mem_cons_self) (hcap.1.trans hcall.1.symm) ?_ _ ?_ ?_ _ _ _ _ _
    · decide
    · exact .inl ⟨e, he, by rw [hcap.2]; exact of_decide_eq_true hle⟩
    · intro e he
      rw [mem_singleton.1 he]
      decide
    · rw [hcap.2]
      decide

end Mistl.Authz
