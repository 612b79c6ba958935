import Mistl.Lib.Records
import Mistl.Lib.Runs
import Mistl.TunnelApproval
/-!
# TunnelProposals — naming a proposal by its request id

`record_incoming`, `cancel_incoming`, `take_incoming` and `purge_peer` of `tunnel/negotiation.rs`, and
`resolve_forward_by_req_id` of `tunnel/session.rs`, which takes the first pending proposal with the id.
-/
open List

namespace Mistl.Tunnel

/-! ## The operations -/

namespace Session

def pendingOf (s : Session) (peerId reqId : String) : Option IncomingForward :=
  s.incoming.find? fun f => f.peerId == peerId && f.reqId == reqId

def cancelIncoming (s : Session) (peerId reqId : String) : Session :=
  match s.pendingOf peerId reqId with
  | some f => s.dropIncoming f.id
  | none => s

/-- The sweep `record_incoming` begins with, of the proposals that have expired by now. -/
def sweepIncoming (s : Session) (expired : List Nat) : Session := { s with incoming := s.incoming.filter (fun f => f.id ∉ expired) }

/-- `resolve_forward_by_req_id`; `none` where no pending proposal has the id. -/
def resolveForwardByReqId (nodeIdForDid : String → String) (isLinkLocalHost : String → Bool) (s : Session) (reqId : String)
    (allow : Bool) (did : Option String) (outcome : Outcome) : Option Session :=
  (Records.find IncomingForward.reqId reqId s.incoming).map (fun f =>
    s.resolveForward nodeIdForDid isLinkLocalHost f.id allow did outcome)

end Session

inductive ProposalEvent where
  | record (expired : List Nat) (reqId peerId proto remoteAddr target : String)
  | cancel (peerId reqId : String)
  | take (id : Nat)
  | purge (peerId : String)
  | resolve (reqId : String) (allow : Bool) (did : Option String) (outcome : Outcome)

section

variable (nodeIdForDid : String → String) (isLinkLocalHost : String → Bool)

def Session.onProposal (s : Session) : ProposalEvent → Session
  | .record expired reqId peerId proto remoteAddr target =>
    (s.sweepIncoming expired).recordIncoming reqId peerId proto remoteAddr target
  | .cancel peerId reqId => s.cancelIncoming peerId reqId
  | .take id => s.dropIncoming id
  | .purge peerId => s.purgePeer peerId
  | .resolve reqId allow did outcome => (s.resolveForwardByReqId nodeIdForDid isLinkLocalHost reqId allow did outcome).getD s

abbrev proposalRun : Session → List ProposalEvent → Option Session :=
  Runs.run (fun s e => some (s.onProposal nodeIdForDid isLinkLocalHost e))

end

def apart (s : Session) : ProposalEvent → Bool
  | .record expired reqId peerId _ _ _ => (s.sweepIncoming expired).incoming.all (fun f => f.reqId != reqId || f.peerId == peerId)
  | _ => true

/-! ## What the operations leave pending -/

variable {nodeIdForDid : String → String} {isLinkLocalHost : String → Bool} {s : Session}

variable {s' : Session}

theorem addForward_incoming {spec : ForwardSpec} (h : s.addForward spec = some s') :
    s'.incoming = s.incoming ∧ s'.nextIncoming = s.nextIncoming := by
  unfold Session.addForward at h
  split at h
  · cases h
  · cases h
    exact ⟨rfl, rfl⟩

def Thinner (s s' : Session) : Prop := s'.incoming.Sublist s.incoming ∧ s'.nextIncoming = s.nextIncoming

theorem Thinner.refl (s : Session) : Thinner s s := ⟨Sublist.refl _, rfl⟩

theorem Thinner.filter (s : Session) (p : IncomingForward → Bool) (hincoming : s'.incoming = s.incoming.filter p)
    (hnext : s'.nextIncoming = s.nextIncoming) : Thinner s s' :=
  ⟨by rw [hincoming]; exact filter_sublist, hnext⟩

theorem dropIncoming_thinner (s : Session) (id : Nat) : Thinner s (s.dropIncoming id) := Thinner.filter s _ rfl rfl

theorem accept_thinner (s : Session) (req : IncomingForward) (spec : ForwardSpec) (did : Option String) (outcome : Outcome) :
    Thinner s (s.accept nodeIdForDid req spec did outcome) := by
  have hrest : ∀ s' : Session, s'.incoming = s.incoming ∧ s'.nextIncoming = s.nextIncoming → Thinner s (if !outcome.stored then s' else
        if (verifiedDid nodeIdForDid req.peerId did).isSome && !outcome.persisted then s'.approve nodeIdForDid req.peerId did spec
        else if outcome.notified then (s'.approve nodeIdForDid req.peerId did spec).dropIncoming req.id
        else s'.approve nodeIdForDid req.peerId did spec) := by
    rintro s' ⟨hincoming, hnext⟩
    have hsame : ∀ s'' : Session, s''.incoming = s'.incoming → s''.nextIncoming = s'.nextIncoming → Thinner s s'' := by
      intro s'' h h'
      exact ⟨by rw [h, hincoming], h'.trans hnext⟩
    split
    · exact hsame _ rfl rfl
    · split
      · exact hsame _ rfl rfl
      · split
        · refine Thinner.filter s (fun f => f.id ≠ req.id) ?_ hnext
          rw [← hincoming]
          rfl
        · exact hsame _ rfl rfl
  unfold Session.accept
  dsimp only
  cases hadd : s.addForward spec with
  | none =>
    split
    · rename_i heq
      split at heq
      · cases heq
      · exact Thinner.refl s
    · rename_i heq
      split at heq
      · cases heq
        exact hrest s ⟨rfl, rfl⟩
      · cases heq
  | some s' =>
    split
    · exact Thinner.refl s
    · rename_i heq
      split at heq
      · cases heq
        exact hrest s ⟨rfl, rfl⟩
      · cases heq
        exact hrest s' (addForward_incoming hadd)

theorem resolveForward_thinner (s : Session) (id : Nat) (allow : Bool) (did : Option String) (outcome : Outcome) :
    Thinner s (s.resolveForward nodeIdForDid isLinkLocalHost id allow did outcome) := by
  unfold Session.resolveForward
  split
  · exact Thinner.refl s
  · split
    · exact Thinner.refl s
    · split
      · split
        · exact dropIncoming_thinner s id
        · exact Thinner.refl s
      · split
        · exact Thinner.refl s
        · split
          · exact Thinner.refl s
          · exact accept_thinner s _ _ did outcome

theorem recordIncoming_cases (s : Session) (reqId peerId proto remoteAddr target : String) :
    s.recordIncoming reqId peerId proto remoteAddr target = s ∨
    ((∀ f ∈ s.incoming, f.peerId = peerId → f.reqId ≠ reqId) ∧ s.recordIncoming reqId peerId proto remoteAddr target = { s with
      nextIncoming := s.nextIncoming + 1
      incoming := s.incoming ++ [⟨s.nextIncoming + 1, reqId, peerId, proto, remoteAddr, target⟩] }) := by
  unfold Session.recordIncoming
  split
  · exact Or.inl rfl
  · rename_i hnew
    split
    · exact Or.inl rfl
    · refine Or.inr ⟨fun f hf hpeer hreq => hnew ?_, rfl⟩
      exact any_eq_true.2 ⟨f, hf, by simp [hpeer, hreq]⟩

theorem onProposal_cases (s : Session) (e : ProposalEvent) : Thinner s (s.onProposal nodeIdForDid isLinkLocalHost e) ∨
    ∃ expired reqId peerId proto remoteAddr target, e = .record expired reqId peerId proto remoteAddr target ∧
      s.onProposal nodeIdForDid isLinkLocalHost e = (s.sweepIncoming expired).recordIncoming reqId peerId proto remoteAddr target := by
  cases e with
  | record expired reqId peerId proto remoteAddr target => exact Or.inr ⟨expired, reqId, peerId, proto, remoteAddr, target, rfl, rfl⟩
  | cancel peerId reqId =>
    refine Or.inl ?_
    show Thinner s (s.cancelIncoming peerId reqId)
    unfold Session.cancelIncoming
    split
    · exact dropIncoming_thinner s _
    · exact Thinner.refl s
  | take id => exact Or.inl (dropIncoming_thinner s id)
  | purge peerId => exact Or.inl (Thinner.filter s (fun f => f.peerId ≠ peerId) rfl rfl)
  | resolve reqId allow did outcome =>
    refine Or.inl ?_
    show Thinner s ((s.resolveForwardByReqId nodeIdForDid isLinkLocalHost reqId allow did outcome).getD s)
    unfold Session.resolveForwardByReqId
    cases Records.find IncomingForward.reqId reqId s.incoming with
    | none => exact Thinner.refl s
    | some f => exact resolveForward_thinner s f.id allow did outcome

/-! ## Numbers and names -/

/-- Pending proposals have numbers of their own, all given out before. -/
structure Numbered (s : Session) : Prop where
  nodup : (s.incoming.map IncomingForward.id).Nodup
  given : ∀ f ∈ s.incoming, f.id ≤ s.nextIncoming

def Named (s : Session) : Prop := (s.incoming.map IncomingForward.reqId).Nodup

theorem Numbered.thinner (h : Numbered s) (hthin : Thinner s s') : Numbered s' := by
  refine ⟨h.nodup.sublist (hthin.1.map _), fun f hf => ?_⟩
  rw [hthin.2]
  exact h.given f (hthin.1.subset hf)

theorem Named.thinner (h : Named s) (hthin : Thinner s s') : Named s' := h.sublist (hthin.1.map _)

theorem sweepIncoming_thinner (s : Session) (expired : List Nat) : Thinner s (s.sweepIncoming expired) := Thinner.filter s _ rfl rfl

theorem nodup_map_snoc {α β : Type} {f : α → β} {l : List α} {a : α} (h : (l.map f).Nodup) (hnew : ∀ b ∈ l, f b ≠ f a) :
    ((l ++ [a]).map f).Nodup := by
  rw [map_append, nodup_append]
  refine ⟨h, nodup_singleton _, fun x hx y hy => ?_⟩
  obtain ⟨b, hb, rfl⟩ := mem_map.1 hx
  rw [mem_singleton.1 hy]
  exact hnew b hb

theorem numbered_step (h : Numbered s) (e : ProposalEvent) : Numbered (s.onProposal nodeIdForDid isLinkLocalHost e) := by
  obtain hthin | ⟨expired, reqId, peerId, proto, remoteAddr, target, -, heq⟩ := onProposal_cases s e
  · exact h.thinner hthin
  · rw [heq]
    have hswept := h.thinner (sweepIncoming_thinner s expired)
    obtain hsame | ⟨-, hnew⟩ := recordIncoming_cases (s.sweepIncoming expired) reqId peerId proto remoteAddr target
    · rw [hsame]
      exact hswept
    · rw [hnew]
      refine ⟨nodup_map_snoc hswept.nodup (fun f hf heq => ?_), fun f hf => ?_⟩
      · have hle := hswept.given f hf
        rw [heq] at hle
        exact Nat.not_succ_le_self _ hle
      · obtain hf | hf := mem_append.1 hf
        · exact Nat.le_succ_of_le (hswept.given f hf)
        · rw [mem_singleton.1 hf]

theorem named_step (h : Named s) {e : ProposalEvent} (hapart : apart s e = true) :
    Named (s.onProposal nodeIdForDid isLinkLocalHost e) := by
  obtain hthin | ⟨expired, reqId, peerId, proto, remoteAddr, target, rfl, heq⟩ := onProposal_cases s e
  · exact h.thinner hthin
  · rw [heq]
    have hswept := h.thinner (sweepIncoming_thinner s expired)
    obtain hsame | ⟨hown, hnew⟩ := recordIncoming_cases (s.sweepIncoming expired) reqId peerId proto remoteAddr target
    · rw [hsame]
      exact hswept
    · rw [hnew]
      refine nodup_map_snoc hswept (fun f hf heq => ?_)
      have hpeer := List.all_eq_true.1 hapart f hf
      simp only [Bool.or_eq_true, bne_iff_ne, beq_iff_eq] at hpeer
      exact hown f hf (hpeer.resolve_left (fun hne => hne heq)) heq

/-! ## Runs -/

variable {events : List ProposalEvent}

theorem numbered_run {s : Session}
    (hrun : proposalRun nodeIdForDid isLinkLocalHost Session.initial events = some s) : Numbered s := by
  refine Runs.invariant (fun s s' e h _ hstep => ?_) ?_ (Runs.along_true Session.initial events) hrun
  · exact Option.some.inj hstep ▸ numbered_step h e
  · exact ⟨nodup_nil, nofun⟩

theorem named_run {s : Session}
    (hapart : Runs.along (fun s e => some (s.onProposal nodeIdForDid isLinkLocalHost e)) apart Session.initial events = true)
    (hrun : proposalRun nodeIdForDid isLinkLocalHost Session.initial events = some s) : Named s := by
  refine Runs.invariant (fun s s' e h hok hstep => ?_) ?_ hapart hrun
  · exact Option.some.inj hstep ▸ named_step h hok
  · exact nodup_nil

/-- **While no peer proposes under an id that another has pending, a request id names one proposal**, and resolving it resolves the one
whose row shows it. -/
theorem req_id_names_one (nodeIdForDid : String → String) (isLinkLocalHost : String → Bool) (events : List ProposalEvent) (s : Session)
    (hapart : Runs.along (fun s e => some (s.onProposal nodeIdForDid isLinkLocalHost e)) apart Session.initial events = true)
    (hrun : proposalRun nodeIdForDid isLinkLocalHost Session.initial events = some s) :
    (s.incoming.map IncomingForward.reqId).Nodup ∧
    ∀ f ∈ s.incoming, s.incoming.find? (fun g => g.id = f.id) = some f ∧ ∀ allow did outcome,
      s.resolveForwardByReqId nodeIdForDid isLinkLocalHost f.reqId allow did outcome =
        some (s.resolveForward nodeIdForDid isLinkLocalHost f.id allow did outcome) := by
  have hnamed := named_run hapart hrun
  refine ⟨hnamed, fun f hf => ⟨Records.find_of_mem (numbered_run hrun).nodup hf, fun allow did outcome => ?_⟩⟩
  unfold Session.resolveForwardByReqId
  rw [Records.find_of_mem hnamed hf, Option.map_some]

def sameName : List ProposalEvent :=
  [.record [] "r1" "mallory" "tcp" "127.0.0.1:22" "tcp:22", .record [] "r1" "bob" "tcp" "127.0.0.1:80" "tcp:80"]

/-- bob proposes under an id of his own; mallory repeats hers, withdraws it and proposes again. -/
def ownNames : List ProposalEvent :=
  [.record [] "r1" "mallory" "tcp" "127.0.0.1:22" "tcp:22", .record [] "r2" "bob" "tcp" "127.0.0.1:80" "tcp:80",
    .record [] "r1" "mallory" "tcp" "127.0.0.1:25" "tcp:25", .cancel "mallory" "r1",
    .record [] "r3" "mallory" "tcp" "127.0.0.1:22" "tcp:22"]

theorem req_id_names_one_bob : ∃ s, proposalRun (fun _ => "") (fun _ => false) Session.initial ownNames = some s ∧
    s.incoming.map (fun f => (f.reqId, f.peerId)) = [("r2", "bob"), ("r3", "mallory")] ∧
    (s.incoming.map IncomingForward.reqId).Nodup ∧
    ∀ f ∈ s.incoming, s.incoming.find? (fun g => g.id = f.id) = some f ∧ ∀ allow did outcome,
      s.resolveForwardByReqId (fun _ => "") (fun _ => false) f.reqId allow did outcome =
        some (s.resolveForward (fun _ => "") (fun _ => false) f.id allow did outcome) :=
  ⟨_, rfl, by decide, req_id_names_one (fun _ => "") (fun _ => false) ownNames _ (by decide) rfl⟩

/-- Accepting the row of bob accepts what mallory proposed. -/
theorem req_id_names_two : ∃ s, proposalRun (fun _ => "") (fun _ => false) Session.initial sameName = some s ∧
    s.incoming.map (fun f => (f.reqId, f.peerId)) = [("r1", "mallory"), ("r1", "bob")] ∧
    (s.resolveForwardByReqId (fun _ => "") (fun _ => false) "r1" true none ⟨true, true, true, true⟩).map Session.made =
      some [("tcp:22", "127.0.0.1:22")] :=
  ⟨_, rfl, by decide, by decide⟩

end Mistl.Tunnel
