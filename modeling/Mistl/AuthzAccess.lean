import Mistl.AuthzRevocation
/-!
# AuthzAccess — the check that charges nothing

`access_allowed` answers from what a store has, `authorize_peer_owned` also charges the account and trusts the capability it
used.  For the one action its service has, the two verdicts on a peer agree up to the limits.
-/
open List

namespace Mistl.Authz

def ServicePolicy.accessAllowed (policy : ServicePolicy) (p : Principal) (now : Int) : Bool :=
  !policy.denied p now && (policy.explicitlyAllowed p now || policy.mode == .open_)

namespace Store

variable (C : Crates) (s : Store) (service : Service) (p : Principal) (now : Int)

def presentedAccessAllowed : Bool := p.did.any (fun did =>
    (s.caps.presented.filter (fun e => e.node == p.node && e.did == did && e.cap.leaf.service == service)).any (fun e =>
      (s.verifyCap C e.cap.leaf.wire did service (e.cap.leaf.actions.headD .infer) e.cap.leaf.resource none
        now).toOption.isSome))

def accessAllowed : Bool :=
  let policy := s.policy.service service
  !policy.denied p now && (policy.accessAllowed p now || s.presentedAccessAllowed C service p now)

end Store

def Admitted (verdict : Except Denied Authorized) : Prop := (∃ a, verdict = .ok a) ∨ verdict = .error .usageLimit

variable {C : Crates}

/-! ## What is presented -/

def Book.Parsed (C : Crates) (b : Book) : Prop := ∀ p ∈ b.presented, parse C p.cap.leaf.wire = .ok p.cap

namespace Book.Parsed

variable {b b' : Book}

theorem of_subset (h : b.Parsed C) (hsub : ∀ p ∈ b'.presented, ∃ q ∈ b.presented, p.cap = q.cap) : b'.Parsed C := by
  intro p hp
  obtain ⟨q, hq, heq⟩ := hsub p hp
  rw [heq]
  exact h q hq

theorem of_keeps (h : b.Parsed C) (hk : b.Keeps b') : b'.Parsed C := h.of_subset fun p hp => ⟨p, hk.2 ▸ hp, rfl⟩

theorem prune (h : b.Parsed C) (now : Int) : (b.prune C now).Parsed C := h.of_subset fun p hp => ⟨p, mem_of_mem_filter hp, rfl⟩

theorem revoke (h : b.Parsed C) (id : String) (now : Int) : (b.revoke C id now).Parsed C := by
  refine h.of_subset (fun p hp => ⟨p, ?_, rfl⟩)
  unfold Book.revoke at hp
  dsimp only at hp
  split at hp <;> exact mem_of_mem_filter hp

theorem revokeEach (now : Int) : ∀ (ids : List String) {b : Book}, b.Parsed C → (ids.foldl (fun b id => b.revoke C id now) b).Parsed C
  | [], _, h => h
  | id :: ids, _, h => revokeEach now ids (h.revoke id now)

theorem markTrusted (h : b.Parsed C) (node id : String) : (b.markTrusted node id).Parsed C := by
  refine h.of_subset (fun p hp => ?_)
  obtain ⟨q, hq, rfl⟩ := mem_map.1 hp
  refine ⟨q, hq, ?_⟩
  split <;> rfl

theorem mem_removeAt {α : Type} {l : List α} {i : Option Nat} {x : α} (h : x ∈ removeAt l i) : x ∈ l := by
  cases i with
  | none => exact h
  | some i => exact mem_of_mem_eraseIdx h

theorem mem_bounded {α : Type} {l : List α} {i : Option Nat} {full : Prop} [Decidable full] {x : α}
    (h : x ∈ if full then removeAt l i else l) : x ∈ l := by
  split at h
  · exact mem_removeAt h
  · exact h

theorem insertPresented (h : b.Parsed C) {cap : Capability} (hcap : parse C cap.leaf.wire = .ok cap) (node did : String)
    (trusted : Bool) : (b.insertPresented node did cap trusted).Parsed C := by
  intro p hp
  rcases mem_append.1 hp with hp | hp
  · exact h p (mem_of_mem_filter (mem_bounded (mem_bounded hp)))
  · rw [mem_singleton.1 hp]
    exact hcap

end Book.Parsed

section steps

variable {s : Store} (did : String) (now : Int)

section

variable (h : s.caps.Parsed C)

include h

theorem Store.command_parsed (cmd : String) (args : Json) (env : Env) : (s.capCommand C args did env now cmd).1.caps.Parsed C := by
  have hprepared : (s.prepared C did now).caps.Parsed C := h.prune _
  unfold Store.capCommand
  split
  · split
    · exact h
    · rename_i next result hrun
      split
      · show next.caps.Parsed C
        by_cases hcmd : cmd = "authz.cap.revoke"
        · subst hcmd
          obtain ⟨call, hcall, heq⟩ := bind_eq_ok.1 hrun
          cases heq
          exact (hprepared.of_keeps (revokeTarget_keeps hcall).1).revoke _ _
        · exact hprepared.of_keeps (runCommand_keeps hcmd hrun)
      · exact h
  · exact h

theorem Store.receive_parsed (sender : String) (holder : Option String) (wire : Json) :
    (s.receiveCap C did now sender holder wire).1.caps.Parsed C := by
  unfold Store.receiveCap
  split
  · split
    · unfold Store.receivePresent
      split
      · rename_i cap hparse
        have hself : parse C cap.leaf.wire = .ok cap := by
          rw [(parse_shaped hparse).1]
          exact hparse
        dsimp only
        split <;> split
        · exact h.insertPresented hself _ _ _
        · exact h
        · exact h.insertPresented hself _ _ _
        · exact h
      · exact h
    split
    · unfold Store.receiveDeliver
      dsimp only
      split
      · exact h
      split
      · exact h
      split
      · exact h
      split
      · rename_i himport
        exact h.of_keeps (importCap_keeps himport)
      · exact h
    split
    · unfold Store.receiveRevoke
      split
      · exact h
      · exact Book.Parsed.revokeEach _ _ h
    · exact h
  · exact h

theorem Store.authorize_parsed (service : Service) (action : Action) (p : Principal)
    (resource owner : Option String) : (s.authorizePeerOwned C service action p resource owner now).1.caps.Parsed C := by
  unfold Store.authorizePeerOwned
  dsimp only
  split
  · exact h
  generalize (if (s.policy.service service).explicitlyAllowed p now = true then none
    else s.presentedCap C service action p resource owner now) = cap
  split
  · exact h
  rw [chargePeer_caps]
  cases cap with
  | none => exact h
  | some cap => exact h.markTrusted _ _

theorem Store.step_parsed (e : Event) : (s.step C did e).caps.Parsed C := by
  obtain ⟨op, now⟩ := e
  cases op with
  | receive sender holder wire => exact Store.receive_parsed did now h sender holder wire
  | command cmd args env => exact Store.command_parsed did now h cmd args env
  | prune => exact h.prune _
  | authorize service action p resource owner => exact Store.authorize_parsed now h service action p resource owner

end

end steps

/-- **The stores of a process**: one is opened with nothing presented, then there are events, and the operator edits the
policy. -/
inductive Store.Reached (C : Crates) (did : String) : Store → Prop where
  | opened (s : Store) : s.caps.presented = [] → Reached C did s
  | event {s : Store} (e : Event) : Reached C did s → Reached C did (s.step C did e)
  | edited {s : Store} (policy : Policy) (usage : UsageBook) : Reached C did s →
      Reached C did { s with policy := policy, usage := usage }

theorem Store.Reached.parsed {did : String} {s : Store} (h : s.Reached C did) : s.caps.Parsed C := by
  induction h with
  | opened s hempty =>
    intro p hp
    rw [hempty] at hp
    cases hp
  | event e _ ih => exact Store.step_parsed did ih e
  | edited policy usage _ ih => exact ih

/-! ## What the service of models grants -/

def Link.Models (link : Link) : Prop := link.service = .ai → link.resource = "*" ∧ link.actions.headD .infer = .infer

theorem readLink_models {wire : Json} {link : Link} (h : readLink C wire = .ok link) : link.wire = wire ∧ link.Models := by
  refine ⟨(readLink_shaped h).1, ?_⟩
  unfold readLink at h
  simp only [okOr_bind_eq_ok, ensure_bind_eq_ok, Bool.and_eq_true] at h
  obtain ⟨t, -, -, id, -, issuer, -, aud, -, resource, -, service, -, actions, -, nbf, -, exp, -, hshape, h⟩ := h
  obtain ⟨to_, -, h⟩ := bind_eq_ok.1 h
  obtain ⟨-, h⟩ := ensure_bind_eq_ok.1 h
  obtain ⟨limits, -, h⟩ := bind_eq_ok.1 h
  cases h
  obtain ⟨⟨⟨⟨⟨⟨⟨⟨-, hall⟩, -⟩, -⟩, -⟩, -⟩, -⟩, hforeign⟩, -⟩ := hshape
  rintro (hai : service = .ai)
  subst hai
  refine ⟨by simpa using hall, ?_⟩
  cases actions with
  | nil => rfl
  | cons action rest =>
    have hinfer : Action.foreign .ai action = false := by
      simp only [any_cons, Bool.not_eq_true', Bool.or_eq_false_iff] at hforeign
      exact hforeign.1
    simpa [Action.foreign] using hinfer

section resource

variable {ctx : Context} (resource : String) (trusts : String → Bool)

theorem checkLink_resource (hctx : ctx.service = .ai) {link : Link} (hl : link.Models) (holder : String)
    (parent : Option Link) :
    checkLink C { ctx with resource := resource, trustedRoot := trusts } holder link parent
      = checkLink C ctx holder link parent := by
  have hcover : (link.service == ctx.service && link.actions.contains ctx.action && covers link.resource resource)
      = (link.service == ctx.service && link.actions.contains ctx.action && covers link.resource ctx.resource) := by
    rw [hctx]
    by_cases hai : link.service = .ai
    · simp [(hl hai).1, covers]
    · have hne : (link.service == Service.ai) = false := beq_eq_false_iff_ne.2 hai
      rw [hne]
      rfl
  unfold checkLink
  simp only [hcover]

theorem checkChain_resource (hctx : ctx.service = .ai) : ∀ {links : List Link} (holder : String), (∀ link ∈ links, link.Models) →
    checkChain C { ctx with resource := resource, trustedRoot := trusts } holder links = checkChain C ctx holder links
  | [], _, _ => rfl
  | link :: rest, holder, hl => by
    rw [checkChain, checkLink_resource resource trusts hctx (hl link mem_cons_self)]
    refine congrArg _ (funext (fun _ => ?_))
    exact checkChain_resource hctx _ (fun l hmem => hl l (mem_cons_of_mem _ hmem))

theorem verify_resource (hctx : ctx.service = .ai) (wire : Json) :
    verify C wire { ctx with resource := resource } = verify C wire ctx := by
  unfold verify
  cases hp : parse C wire with
  | error e => rfl
  | ok cap =>
    have hchain := checkChain_resource (C := C) resource ctx.trustedRoot hctx ctx.holder (parse_links readLink_models hp).2
    show (checkChain C { ctx with resource := resource } ctx.holder cap.chain >>= _)
      = (checkChain C ctx ctx.holder cap.chain >>= _)
    rw [hchain]

end resource

namespace Store

variable {s : Store} {p : Principal} {now : Int}

theorem verifyCap_resource (s : Store) (wire : Json) (did resource resource' : String) (action : Action)
    (owner owner' : Option String) (now : Int) :
    s.verifyCap C wire did .ai action resource owner now = s.verifyCap C wire did .ai action resource' owner' now := by
  have hctx : s.context did .ai action resource owner now
      = { s.context did .ai action resource' owner' now with resource := resource } := by
    have hne : (Service.ai == Service.escrow) = false := rfl
    unfold Store.context
    simp only [hne, Bool.false_and]
  unfold Store.verifyCap
  rw [hctx, verify_resource resource rfl]

theorem verifyCap_presented (s : Store) {cap : Capability} (hcap : parse C cap.leaf.wire = .ok cap) (did resource : String)
    (owner : Option String) (now : Int) :
    (s.verifyCap C cap.leaf.wire did .ai .infer resource owner now).toOption.isSome = true ↔
      cap.leaf.service = .ai ∧ (s.verifyCap C cap.leaf.wire did .ai (cap.leaf.actions.headD .infer) cap.leaf.resource none
        now).toOption.isSome = true := by
  obtain ⟨rest, hchain⟩ := cap.chain_eq
  have hleaf : cap.leaf ∈ cap.chain := by
    rw [hchain]
    exact mem_cons_self
  by_cases hai : cap.leaf.service = .ai
  · rw [((parse_links readLink_models hcap).2 _ hleaf hai).2, verifyCap_resource s _ did resource cap.leaf.resource _ owner none]
    exact (and_iff_right hai).symm
  · refine ⟨fun h => absurd ?_ hai, fun h => absurd h.1 hai⟩
    unfold Store.verifyCap verify at h
    rw [hcap] at h
    cases hc : checkChain C (s.context did .ai .infer resource owner now) did cap.chain with
    | error e =>
      have herror : (Except.ok cap >>= fun cap => do
          checkChain C (s.context did .ai .infer resource owner now) did cap.chain
          ensure ((s.context did .ai .infer resource owner now).trustedRoot cap.rootLink.issuer) CapError.untrustedRoot
          return cap) = .error e := by
        show (checkChain C _ did cap.chain >>= _) = _
        rw [hc]
        rfl
      rw [show (s.context did .ai .infer resource owner now).holder = did from rfl, herror] at h
      cases h
    | ok u =>
      obtain ⟨_, _, hchecked⟩ := (checkChain_eq_ok hc).1 _ hleaf
      exact hchecked.coverage.1

theorem presentedCap_isSome (h : s.caps.Parsed C) (resource owner : Option String) :
    (s.presentedCap C .ai .infer p resource owner now).isSome = s.presentedAccessAllowed C .ai p now := by
  unfold Store.presentedCap Store.presentedAccessAllowed
  cases p.did with
  | none => rfl
  | some did =>
    rw [Option.bind_some, Option.any_some, Bool.eq_iff_iff, findSome?_isSome_iff, any_eq_true]
    constructor
    · rintro ⟨e, he, hv⟩
      obtain ⟨hmem, hwho⟩ := mem_filter.1 he
      obtain ⟨hai, hv⟩ := (s.verifyCap_presented (h e hmem) did _ owner now).1 hv
      refine ⟨e, mem_filter.2 ⟨hmem, ?_⟩, hv⟩
      rw [hwho, hai]
      rfl
    · rintro ⟨e, he, hv⟩
      obtain ⟨hmem, hwho⟩ := mem_filter.1 he
      rw [Bool.and_eq_true, beq_iff_eq] at hwho
      exact ⟨e, mem_filter.2 ⟨hmem, hwho.1⟩, (s.verifyCap_presented (h e hmem) did _ owner now).2 ⟨hwho.2, hv⟩⟩

theorem chargePeer_admitted (s : Store) (service : Service) (p : Principal) (cap : Option Capability) (now : Int) :
    Admitted (s.chargePeer service p cap now).2 := by
  have hcheck : ∀ (b : UsageBook) (service : Service) (account : String) (limits : Limits) (e : Denied),
      (b.check service account limits now).2 = .error e → e = .usageLimit := by
    intro b service account limits e he
    unfold UsageBook.check at he
    dsimp only at he
    split at he
    · cases he
      rfl
    · cases he
  unfold Store.chargePeer
  split
  · exact .inl ⟨_, rfl⟩
  dsimp only
  split
  · rename_i e he
    split at he
    · rw [hcheck _ _ _ _ e he]
      exact .inr rfl
    · cases he
  · split
    · exact .inl ⟨_, rfl⟩
    · split
      · rename_i e he
        rw [hcheck _ _ _ _ e he]
        exact .inr rfl
      · exact .inl ⟨_, rfl⟩

theorem not_admitted_forbidden : ¬Admitted (.error .forbidden) := by
  rintro (⟨a, h⟩ | h)
  · cases h
  · exact absurd h (by decide)

/-- **The check and the authorization agree**: for models, a peer is let in by the one exactly where the other lets it in
or finds a limit reached. -/
theorem access_agrees (C : Crates) (did : String) (s : Store) (h : s.Reached C did) (p : Principal)
    (resource owner : Option String) (now : Int) : s.accessAllowed C .ai p now = true ↔
      Admitted (s.authorizePeerOwned C .ai .infer p resource owner now).2 := by
  have hcap : (s.presentedCap C .ai .infer p resource owner now).isSome = s.presentedAccessAllowed C .ai p now :=
    presentedCap_isSome h.parsed resource owner
  unfold Store.accessAllowed Store.authorizePeerOwned ServicePolicy.accessAllowed
  dsimp only
  cases hdenied : (s.policy.service .ai).denied p now with
  | true => exact iff_of_false Bool.false_ne_true not_admitted_forbidden
  | false =>
    cases hexplicit : (s.policy.service .ai).explicitlyAllowed p now with
    | true =>
      simp only [Bool.not_false, Bool.not_true, Bool.true_and, Bool.true_or, Bool.false_and, Bool.false_eq_true, if_false]
      exact iff_of_true trivial (chargePeer_admitted _ _ _ _ _)
    | false =>
      simp only [Bool.not_false, Bool.true_and]
      rw [← hcap]
      cases s.presentedCap C .ai .infer p resource owner now with
      | some cap =>
        simp only [Option.isSome_some, Option.isNone_some, Bool.or_true, Bool.false_and, Bool.false_eq_true, if_false]
        exact iff_of_true trivial (chargePeer_admitted _ _ _ _ _)
      | none =>
        cases (s.policy.service .ai).mode with
        | open_ =>
          have hcharged := chargePeer_admitted (s.trusting p.node none) .ai p none now
          exact iff_of_true rfl hcharged
        | allowlist => exact iff_of_false (by decide) not_admitted_forbidden

def closedProvider : Store :=
  { twoIssuers with policy := { twoIssuers.policy with ai := { twoIssuers.policy.ai with mode := .allowlist } } }.step
    authzCrates provider (presents presentGrant)

theorem access_agrees_granted :
    closedProvider.accessAllowed authzCrates .ai ⟨"6eb973e4adf21fb3", some aiHolder⟩ (2000 * 10 ^ 6) = true ∧
    (closedProvider.accessAllowed authzCrates .ai ⟨"6eb973e4adf21fb3", some aiHolder⟩ (2000 * 10 ^ 6) = true ↔
      Admitted (closedProvider.authorizePeerOwned authzCrates .ai .infer ⟨"6eb973e4adf21fb3", some aiHolder⟩ (some "m") none
        (2000 * 10 ^ 6)).2) :=
  ⟨by decide +kernel, access_agrees authzCrates provider closedProvider (.event _ (.opened _ rfl)) _ _ _ _⟩

end Store

end Mistl.Authz
