import Mistl.EscrowNode
/-!
# EscrowClosure — what the log refers to is in the archive

Every generation in the log of a replica stays in its archive as long as no collection runs while a proposal waits in the
queue without anything that refers to its generation: `Closed` is the invariant, `Covered` the condition on collections.
-/
open List

namespace Mistl.Escrow

variable {σ : Type}

/-! ## What reaches the log -/

/-- The generations an event can bring to the log of a node in a term: those it proposes, and those of a batch that is
not of an older term. -/
def Event.heads (term : Nat) : Event → List Head
  | .clientPropose command => command.heads
  | .message _ (.appendEntries t _ _ _ entries _) => if term ≤ t then entries.flatMap (fun e => e.command.heads) else []
  | _ => []

theorem Event.heads_propose (term : Nat) (command : Command) :
    (Event.clientPropose command.payload).heads term = commandHeads command := rfl

/-- **What the consensus library does to the log**: it keeps entries, takes those of an event, and may add some that
refer to no generation; terms never decrease. -/
structure Consensus.Appends (K : Consensus σ) : Prop where
  term : ∀ r event, r.storage.term ≤ (K.step r event).1.storage.term
  log : ∀ r event, ∀ entry ∈ (K.step r event).1.storage.log,
    entry ∈ r.storage.log ∨ ∀ h ∈ entry.command.heads, h ∈ event.heads r.storage.term

namespace Engine

variable {K : Consensus σ} {e next : Engine σ}

/-- The log of `next` is that of `e` and entries that refer to `heads`; the term did not decrease. -/
def Brings (e next : Engine σ) (heads : List Head) : Prop :=
  e.currentTerm ≤ next.currentTerm ∧ ∀ entry ∈ next.log, entry ∈ e.log ∨ ∀ x ∈ entry.command.heads, x ∈ heads

theorem Brings.refl (e : Engine σ) (heads : List Head) : e.Brings e heads := ⟨le_refl _, fun _ hm => .inl hm⟩

theorem admit_heads {event event' : Event} {acknowledged : Table String Nat} {end_ : Option Nat} (term : Nat)
    (h : e.admitEvent K event = .ok (event', acknowledged, end_)) : event'.heads term = event.heads term := by
  cases event with
  | message sender msg =>
    simp only [admitEvent] at h
    split at h
    · cases h
    split at h
    · cases h
    split at h
    · cases h
    split at h
    · split at h <;> cases h
      rfl
    · split at h
      · cases h
      · split at h <;> cases h <;> rfl
    · split at h <;> cases h
      rfl
    · split at h <;> cases h
      rfl
    · split at h <;> cases h
      rfl
    · cases h
      rfl
  | clientPropose command =>
    simp only [admitEvent] at h
    split at h
    · cases h
    · split at h <;> cases h
      rfl
  | heartbeatTimeout | compactSnapshot => cases h; rfl
  | _ =>
    simp only [admitEvent] at h
    split at h <;> cases h
    rfl

theorem step_brings (hK : K.Appends) {event : Event} {result : Except EngineError (List Output)}
    (h : e.step K event = (next, result)) : e.Brings next (event.heads e.currentTerm) := by
  have hmoved : ∀ {event' ack end_} {n : Engine σ}, e.admitEvent K event = .ok (event', ack, end_) →
      n.log = (e.advance K event' ack end_).1.log → n.currentTerm = (e.advance K event' ack end_).1.currentTerm →
      e.Brings n (event.heads e.currentTerm) := by
    intro event' ack end_ n ha hlog hterm
    unfold Brings
    rw [hlog, hterm]
    let start := { e.raft with storage := { e.raft.storage with committed := e.commitIndex } }
    refine ⟨hK.term start event', fun entry hm => ?_⟩
    rcases hK.log start event' entry hm with hold | hnew
    · exact .inl hold
    · exact .inr (fun x hx => admit_heads _ ha ▸ hnew x hx)
  rcases step_cases K e event with ⟨-, he⟩ | ⟨-, x, -, he⟩ | ⟨-, event', ack, end_, n, ha, hlog, ht, ⟨x, he, -⟩ | ⟨he, -⟩⟩
  · rw [he] at h; cases h; exact .refl e _
  · rw [he] at h; cases h; exact .refl e _
  · rw [he] at h; cases h; exact hmoved ha hlog ht
  · rw [he] at h; cases h; exact hmoved ha hlog ht

variable {result : Except EngineError Unit}

theorem markApplied_brings {index : Nat} (h : e.markApplied index = (next, result))
    (heads : List Head) : e.Brings next heads := by
  unfold markApplied at h
  split at h
  · cases h; exact .refl _ _
  split at h
  · cases h; exact .refl _ _
  split at h
  · rcases persist_cases (e := { e with applied := index }) with ⟨disk, hp⟩ | ⟨n, hp, -, hl, ht⟩
    · rw [hp] at h; cases h; exact .refl _ _
    · rw [hp] at h
      cases h
      exact ⟨ht.ge, fun _ hm => .inl (hl ▸ hm)⟩
  · cases h; exact .refl _ _

theorem compact_brings (hK : K.Appends) {data : List UInt8}
    (h : e.compact K data = (next, result)) : e.Brings next [] := by
  unfold compact at h
  split at h
  · cases h; exact .refl _ _
  split at h
  · cases h; exact .refl _ _
  split at h
  · cases h; exact .refl _ _
  split at h
  · cases h; exact .refl _ _
  split at h
  · rename_i hs
    cases h
    exact step_brings hK hs
  · rename_i hs
    split at h <;> cases h <;> exact step_brings hK hs

end Engine

namespace Cluster

variable {C : Crates} {K : Consensus σ} {c : Cluster σ}

def Input.brought (term : Nat) : Input → List Head
  | .propose command t _ => if t = term then commandHeads command else []
  | .event ev _ => ev.heads term
  | _ => []

/-! ## A pass -/

/-- A pass whose log refers to `heads` only: the fault of a missing generation names one of them. -/
structure Within (env : Env) (heads : List Head) (term : Nat) (error : Option Fault) (p : Pass σ) : Prop where
  log : ∀ h ∈ p.cluster.logHeads, h ∈ heads
  term : term ≤ p.cluster.engine.currentTerm
  error : p.cluster.error = error
  missing : p.fault = some .generationUnavailable → ∃ h ∈ heads, env.has h = false

variable {env : Env} {heads : List Head} {term : Nat} {error : Option Fault}

variable {new : List Head}

theorem brings_logHeads {c c' : Cluster σ} (hb : c.engine.Brings c'.engine new) {h : Head}
    (hh : h ∈ c'.logHeads) : h ∈ c.logHeads ∨ h ∈ new := by
  obtain ⟨entry, hentry, hx⟩ := mem_flatMap.1 hh
  exact (hb.2 entry hentry).imp (fun hold => mem_flatMap.2 ⟨entry, hold, hx⟩) fun hnew => hnew h hx

theorem Within.step {p : Pass σ} {c : Cluster σ} {r : Multiset Reply} (hp : Within env heads term error ⟨c, r, none⟩)
    (hb : c.engine.Brings p.cluster.engine new) (hnew : ∀ h ∈ new, h ∈ heads)
    (herr : p.cluster.error = c.error) (hm : p.fault ≠ some .generationUnavailable) : Within env heads term error p where
  log := fun h hh => (brings_logHeads hb hh).elim (hp.log h) (hnew h)
  term := hp.term.trans hb.1
  error := herr.trans hp.error
  missing := fun h => absurd h hm

theorem Within.next {p : Pass σ} {f : Cluster σ → Multiset Reply → Pass σ} (hp : Within env heads term error p)
    (hf : ∀ c r, Within env heads term error ⟨c, r, none⟩ → Within env heads term error (f c r)) :
    Within env heads term error (p.next f) := by
  unfold Pass.next
  split
  · exact hp
  · exact hf _ _ ⟨hp.log, hp.term, hp.error, nofun⟩

theorem Within.same {p : Pass σ} {c : Cluster σ} {r : Multiset Reply} (hp : Within env heads term error ⟨c, r, none⟩)
    (he : p.cluster.engine = c.engine) (herr : p.cluster.error = c.error) (hm : p.fault ≠ some .generationUnavailable) :
    Within env heads term error p :=
  have hb : c.engine.Brings p.cluster.engine [] := he ▸ .refl _ _
  hp.step hb nofun herr hm

theorem within_install : ∀ (outputs : List Output) (c : Cluster σ) (r : Multiset Reply),
    Within env heads term error ⟨c, r, none⟩ → Within env heads term error (install C env outputs c r)
  | [], _, _, hp => hp
  | output :: outputs, c, r, hp => by
    cases output with
    | installSnapshot snapshot =>
      rw [install]
      split
      · split
        · rename_i state _ _
          exact within_install outputs { c with state := state } r (hp.same rfl rfl nofun)
        · exact hp.same rfl rfl nofun
      · exact hp.same rfl rfl nofun
    | _ => exact within_install outputs c r hp

theorem within_applyEntry {entry : LogEntry} (hentry : ∀ h ∈ entry.command.heads, h ∈ heads) (c : Cluster σ)
    (r : Multiset Reply) (hp : Within env heads term error ⟨c, r, none⟩) :
    Within env heads term error (applyEntry C env entry c r) := by
  have hnil : ∀ h ∈ ([] : List Head), h ∈ heads := fun _ h => absurd h not_mem_nil
  unfold applyEntry
  split
  · split
    all_goals
      rename_i hm
      exact hp.step (Engine.markApplied_brings hm []) hnil rfl (fun h => by cases h)
  · exact hp.same rfl rfl (fun h => by cases h)
  · rename_i command hcommand
    split
    · rename_i hany
      refine ⟨hp.log, hp.term, hp.error, fun _ => ?_⟩
      obtain ⟨h, hh, hhas⟩ := any_eq_true.1 hany
      refine ⟨h, hentry h ?_, by simpa using hhas⟩
      unfold Payload.heads
      rw [hcommand]
      exact hh
    · dsimp only
      split
      all_goals
        rename_i hm
        exact hp.step (Engine.markApplied_brings hm []) hnil rfl (fun h => by cases h)

theorem within_applyEntries : ∀ (entries : List LogEntry), (∀ entry ∈ entries, ∀ h ∈ entry.command.heads, h ∈ heads) →
    ∀ (c : Cluster σ) (r : Multiset Reply), Within env heads term error ⟨c, r, none⟩ →
      Within env heads term error (applyEntries C env entries c r)
  | [], _, _, _, hp => hp
  | entry :: entries, hall, c, r, hp =>
    (within_applyEntry (hall entry mem_cons_self) c r hp).next
      (within_applyEntries entries (fun e he => hall e (mem_cons_of_mem _ he)))

theorem within_compaction (hK : K.Appends) (c : Cluster σ) (r : Multiset Reply)
    (hp : Within env heads term error ⟨c, r, none⟩) : Within env heads term error (compaction C K env c r) := by
  have hnil : ∀ h ∈ ([] : List Head), h ∈ heads := nofun
  unfold compaction
  split
  · split
    · exact hp.same rfl rfl nofun
    · split
      · rename_i hc
        exact hp.step (Engine.compact_brings hK hc) hnil rfl nofun
      · rename_i hc
        dsimp only
        split <;> exact hp.step (Engine.compact_brings hK hc) hnil rfl nofun
  · exact hp

theorem within_send : ∀ (outputs : List Output) (c : Cluster σ) (r : Multiset Reply),
    Within env heads term error ⟨c, r, none⟩ → Within env heads term error (send C env outputs c r)
  | [], _, _, hp => hp
  | output :: outputs, c, r, hp => by
    cases output with
    | sendMessage recipient msg =>
      cases msg with
      | installSnapshot term leader snapshot =>
        rw [send]
        split
        · split
          · exact within_send outputs c r hp
          · exact hp.same rfl rfl nofun
        · exact hp.same rfl rfl nofun
      | _ =>
        unfold send
        split
        · exact within_send outputs c r hp
        · exact hp.same rfl rfl nofun
    | _ => exact within_send outputs c r hp

theorem within_settle (outputs : List Output) (c : Cluster σ) (r : Multiset Reply)
    (hp : Within env heads term error ⟨c, r, none⟩) : Within env heads term error (settle K outputs c r) := by
  have hsettled : (c.settleMembership K outputs r).1.engine = c.engine ∧ (c.settleMembership K outputs r).1.error = c.error := by
    unfold settleMembership
    split
    · exact ⟨rfl, rfl⟩
    · split
      · exact ⟨rfl, rfl⟩
      · split <;> exact ⟨rfl, rfl⟩
  unfold settle
  dsimp only
  split <;> exact hp.same hsettled.1 hsettled.2 nofun

theorem within_pass (hK : K.Appends) (hlog : ∀ h ∈ c.logHeads, h ∈ heads) (outputs : List Output) (suppressSend : Bool) :
    Within env heads c.engine.currentTerm c.error (c.pass C K env outputs suppressSend) := by
  have hp : Within env heads c.engine.currentTerm c.error (⟨c, 0, none⟩ : Pass σ) := ⟨hlog, le_refl _, rfl, nofun⟩
  have hbarrier : Within env heads c.engine.currentTerm c.error (c.barrier K env outputs).1 := by
    unfold barrier
    split
    · split
      all_goals
        rename_i hs
        exact hp.step (Engine.step_brings hK hs) nofun rfl nofun
    · exact hp
  refine (((((hbarrier.next (within_install _)).next (fun c r hc => ?_)).next (within_compaction hK)).next
    (within_send _)).next (within_settle _))
  refine within_applyEntries c.unapplied (fun entry hentry h hh => hc.log h ?_) c r hc
  exact mem_flatMap.2 ⟨entry, (mem_filter.1 hentry).1, hh⟩

/-! ## One input -/

/-- **What an input does to a cluster's log**: it takes nothing but what the input carries; and a cluster that was not
stopped is stopped for a missing generation only if the archive lacks one of these or of the log. -/
structure Bounded (c next : Cluster σ) (env : Env) (new : List Head) : Prop where
  log : ∀ h ∈ next.logHeads, h ∈ c.logHeads ++ new
  term : c.engine.currentTerm ≤ next.engine.currentTerm
  missing : c.error ≠ some .generationUnavailable → next.error = some .generationUnavailable →
    ∃ h ∈ c.logHeads ++ new, env.has h = false

theorem Bounded.same {next : Cluster σ} (he : next.engine = c.engine)
    (hm : next.error = c.error ∨ ∃ f, next.error = some f ∧ f ≠ .generationUnavailable) : Bounded c next env new where
  log := by
    intro h hh
    unfold logHeads at hh
    rw [he] at hh
    exact mem_append_left _ hh
  term := by rw [he]
  missing := by
    intro hc hn
    rcases hm with hm | ⟨f, hf, hne⟩
    · exact absurd (hm ▸ hn) hc
    · rw [hf] at hn
      exact absurd (Option.some.inj hn) hne

theorem bounded_outputs (hK : K.Appends) {next : Cluster σ} (hb : c.engine.Brings next.engine new)
    (herr : next.error = c.error) (outputs : List Output) (suppressSend : Bool) :
    Bounded c (next.outputs C K env outputs suppressSend).1 env new := by
  have hlog : ∀ h ∈ next.logHeads, h ∈ c.logHeads ++ new := fun h hh => mem_append.2 (brings_logHeads hb hh)
  have hw : Within env (c.logHeads ++ new) next.engine.currentTerm next.error
      (next.pass C K env outputs suppressSend) := within_pass hK hlog outputs suppressSend
  unfold Cluster.outputs Pass.finish
  split
  · refine ⟨hw.log, hb.1.trans hw.term, fun hc hn => absurd ?_ hc⟩
    rw [← herr, ← hw.error]
    exact hn
  · rename_i fault hf
    refine ⟨hw.log, hb.1.trans hw.term, fun _ hn => hw.missing ?_⟩
    rw [hf]
    exact hn

theorem bounded_fail {next : Cluster σ} (hb : c.engine.Brings next.engine new)
    {fault : Fault} (hf : fault ≠ .generationUnavailable) : Bounded c (next.fail fault).1 env new where
  log := fun _ hh => mem_append.2 (brings_logHeads hb hh)
  term := hb.1
  missing := fun _ hn => absurd (Option.some.inj hn) hf

theorem handle_bounded (hK : K.Appends) (c : Cluster σ) (env : Env) (input : Input) :
    Bounded c (c.handle C K env input).1 env (input.brought c.engine.currentTerm) := by
  unfold handle
  split
  · exact .same rfl (.inl rfl)
  cases input with
  | propose command term id =>
    unfold proposal
    dsimp only
    split
    · exact .same rfl (.inl rfl)
    rename_i hguard
    split
    · exact .same rfl (.inl rfl)
    have hterm : term = c.engine.currentTerm := by
      by_contra hne
      exact hguard (.inr (.inr (.inl (fun h => hne h.symm))))
    rw [show (Input.propose command term id).brought c.engine.currentTerm = commandHeads command from if_pos hterm]
    split
    · rename_i hs
      have hb := Engine.step_brings hK hs
      refine bounded_outputs hK ?_ ?_ _ _
      · exact hb
      · rfl
    · rename_i hs
      have hb := Engine.step_brings hK hs
      exact bounded_fail hb (fun h => by cases h)
  | membership voters learners =>
    unfold changeMembership
    dsimp only
    split
    · exact .same rfl (.inl rfl)
    split
    · exact .same rfl (.inl rfl)
    split
    · rename_i hs
      refine bounded_outputs hK ?_ ?_ _ _
      · exact Engine.step_brings hK hs
      · rfl
    · rename_i hs
      refine bounded_fail ?_ (fun h => by cases h)
      exact Engine.step_brings hK hs
  | event ev suppressSend =>
    unfold Cluster.event
    dsimp only
    split
    · exact .same rfl (.inl rfl)
    split
    · rename_i hs
      refine bounded_outputs hK ?_ ?_ _ _
      · exact Engine.step_brings hK hs
      · rfl
    · rename_i hs
      split
      · refine bounded_fail ?_ (fun h => by cases h)
        exact Engine.step_brings hK hs
      · have hb := Engine.step_brings hK hs
        have hfail : Bounded c (({ c with engine := _ } : Cluster σ).fail .collect).1 env _ := bounded_fail hb (fun h => by cases h)
        exact ⟨hfail.log, hb.1, fun hc hn => absurd hn hc⟩
  | maintain =>
    dsimp only
    split
    · exact .same rfl (.inl rfl)
    · exact .same rfl (.inr ⟨_, rfl, fun h => by cases h⟩)
  | gone ticket =>
    dsimp only
    split <;> exact .same rfl (.inl rfl)

end Cluster

/-! ## Archive and leases -/

section
variable {C : Crates} {a a' : Archive} {head : Head}

theorem Archive.Holds.of_entries {h : Head} (he : a'.entries = a.entries) (hh : a.Holds C h) : a'.Holds C h := by
  obtain ⟨e, hg, heq⟩ := hh
  exact ⟨e, he ▸ hg, heq⟩

theorem Archive.releaseAll_same : ∀ (leases : List Lease) (a : Archive),
    (a.releaseAll leases).entries = a.entries ∧ (a.releaseAll leases).writeFailed = a.writeFailed
  | [], _ => ⟨rfl, rfl⟩
  | l :: leases, a => Archive.releaseAll_same leases (a.release l)

theorem Pinned.releaseAll : ∀ (leases : List Lease) {live : Multiset Lease} {a : Archive},
    Pinned ((leases : Multiset Lease) + live) a.pins → Pinned live (a.releaseAll leases).pins
  | [], _, _, h => by
    rw [Multiset.coe_nil, zero_add] at h
    exact h
  | l :: leases, _, a, h => by
    rw [← Multiset.cons_coe, Multiset.cons_add] at h
    exact Pinned.releaseAll leases h.release

structure Stages (C : Crates) (room : String) (disk : Bool) (a : Archive) (head : Head) (a' : Archive)
    (result : Except Error Lease) : Prop where
  holds : ∀ h, a.Holds C h → a'.Holds C h
  rooms : a'.Roomed room
  writable : disk = true → a'.writeFailed = a.writeFailed
  failed : ∀ e, result = .error e → a'.pins = a.pins
  leased : ∀ l, result = .ok l → a'.pins = l.hashes.foldl addPin a.pins ∧ a'.Holds C head ∧ head.hash C ∈ l.hashes

theorem Archive.pinOne_stages {room : String} (hr : a.Roomed room) (disk : Bool) :
    Stages C room disk a head (a.pinOne C head).1 (a.pinOne C head).2 := by
  unfold Archive.pinOne
  cases hp : a.pinHeads C [head] with
  | none => exact ⟨fun _ h => h, hr, fun _ => rfl, fun _ _ => rfl, nofun⟩
  | some pinned =>
    obtain ⟨a', l⟩ := pinned
    obtain ⟨hheads, rfl⟩ := Archive.pinHeads_some hp
    refine ⟨fun _ h => h, hr, fun _ => rfl, nofun, fun l' h => ?_⟩
    cases h
    exact ⟨rfl, hheads head mem_cons_self⟩

theorem stageHead_stages {setup : Setup} {running : Bool} {pulled : Except Error (List UInt8 × List UInt8)} {disk : Bool}
    {result : Except Error Lease} (hr : a.Roomed setup.room)
    (h : stageHead C setup running a head pulled disk = (a', result)) : Stages C setup.room disk a head a' result := by
  have hsame : ∀ e, Stages C setup.room disk a head a (.error e) := fun e => ⟨fun _ h => h, hr, fun _ => rfl, fun _ _ => rfl, nofun⟩
  unfold stageHead at h
  split at h
  · cases h; exact hsame _
  split at h
  · cases h; exact hsame _
  split at h
  · cases h; exact hsame _
  split at h
  · have hp := @Archive.pinOne_stages C a head setup.room hr disk
    rw [h] at hp
    exact hp
  split at h
  · cases h; exact hsame _
  split at h
  · cases h; exact hsame _
  rename_i blob bytes
  have hholds : ∀ x, a.Holds C x → (a.stage C setup.cfg setup.room head blob bytes disk).1.Holds C x := fun x hx => hx.stage hr
  have hrooms : (a.stage C setup.cfg setup.room head blob bytes disk).1.Roomed setup.room := hr.stage
  have hwritable : disk = true → (a.stage C setup.cfg setup.room head blob bytes disk).1.writeFailed = a.writeFailed :=
    Archive.stage_writeFailed
  have hpins : (a.stage C setup.cfg setup.room head blob bytes disk).1.pins = a.pins := Archive.stage_pins
  split at h
  · rename_i hst
    rw [hst] at hholds hrooms hwritable hpins
    cases h
    exact ⟨hholds, hrooms, hwritable, fun _ _ => hpins, nofun⟩
  · rename_i hst
    rw [hst] at hholds hrooms hwritable hpins
    have hp := @Archive.pinOne_stages C _ head setup.room hrooms disk
    rw [h] at hp
    refine ⟨fun x hx => hp.holds x (hholds x hx), hp.rooms, fun hd => (hp.writable hd).trans (hwritable hd),
      fun e he => (hp.failed e he).trans hpins, fun l hl => ?_⟩
    rw [← hpins]
    exact hp.leased l hl

end

/-! ## The invariant -/

def RaftMessage.entryHeads : RaftMessage → List Head
  | .appendEntries _ _ _ _ entries _ => entries.flatMap (fun e => e.command.heads)
  | _ => []

theorem Event.heads_message (term : Nat) (sender : String) (msg : RaftMessage) :
    ∀ h ∈ (Event.message sender msg).heads term, h ∈ msg.entryHeads := by
  cases msg with
  | appendEntries t leader prevLogIndex prevLogTerm entries leaderCommit =>
    intro h hh
    simp only [Event.heads] at hh
    split at hh
    · exact hh
    · cases hh
  | _ =>
    intro h hh
    cases hh

variable (C : Crates)

def Leased (a : Archive) (leases : List Lease) (h : Head) : Prop := a.Holds C h ∧ ∃ l ∈ leases, h.hash C ∈ l.hashes

def Task.Sound (a : Archive) (term : Nat) : Task → Prop
  | .barrier _ t _ _ => t ≤ term
  | .ready _ t _ => t ≤ term
  | .staged command t _ lease => t ≤ term ∧ ∀ h ∈ commandHeads command, Leased C a [lease] h
  | .preparing _ msg todo leases => ∀ h ∈ msg.entryHeads, h ∈ todo ∨ Leased C a leases h
  | .waiting _ => True
  | .keeping _ => True

/-- What a queued message may count on: a proposal of the current term, that its generations are there. -/
def Inbound.Sound (a : Archive) (term : Nat) : Inbound → Prop
  | .propose command t _ => t ≤ term ∧ (t = term → ∀ h ∈ commandHeads command, a.Holds C h)
  | .prepared _ msg leases => ∀ h ∈ msg.entryHeads, Leased C a leases h
  | .wire _ _ => True
  | .membership _ _ => True

variable {C} {a a' : Archive} {term term' : Nat}

theorem Task.Sound.weaken {t : Task} (h : t.Sound C a term)
    (hold : ∀ x, ∀ l ∈ t.leases, x.hash C ∈ l.hashes → a.Holds C x → a'.Holds C x) (ht : term ≤ term') :
    t.Sound C a' term' := by
  cases t with
  | barrier | ready => exact le_trans h ht
  | staged command t id lease =>
    refine ⟨h.1.trans ht, fun x hx => ?_⟩
    obtain ⟨hh, l, hl, hm⟩ := h.2 x hx
    exact ⟨hold x l hl hm hh, l, hl, hm⟩
  | preparing sender msg todo leases =>
    intro x hx
    rcases h x hx with htodo | ⟨hh, l, hl, hm⟩
    · exact .inl htodo
    · exact .inr ⟨hold x l hl hm hh, l, hl, hm⟩
  | waiting | keeping => trivial

theorem Inbound.Sound.weaken {i : Inbound} (h : i.Sound C a term)
    (hold : ∀ x, ∀ l ∈ i.leases, x.hash C ∈ l.hashes → a.Holds C x → a'.Holds C x)
    (hpropose : ∀ command id, i = .propose command term id → ∀ x ∈ commandHeads command, a.Holds C x → a'.Holds C x)
    (ht : term ≤ term') : i.Sound C a' term' := by
  cases i with
  | propose command t id =>
    refine ⟨h.1.trans ht, fun heq x hx => ?_⟩
    have hterm : t = term := le_antisymm h.1 (heq ▸ ht)
    subst hterm
    exact hpropose command id rfl x hx (h.2 rfl x hx)
  | prepared sender msg leases =>
    intro x hx
    obtain ⟨hh, l, hl, hm⟩ := h x hx
    exact ⟨hold x l hl hm hh, l, hl, hm⟩
  | wire | membership => trivial

namespace Node

variable {K : Consensus σ} {setup : Setup} {n n' : Node σ}

variable (C setup) in
/-- **The log of a replica is closed**: what it refers to is in the archive, and so is what the next proposals and
prepared batches refer to. -/
structure Closed (n : Node σ) : Prop where
  pinned : Pinned n.live n.archive.pins
  rooms : n.archive.Roomed setup.room
  writable : n.archive.writeFailed = false
  log : ∀ h ∈ n.cluster.logHeads, n.archive.Holds C h
  tasks : ∀ t ∈ n.tasks, t.Sound C n.archive n.cluster.engine.currentTerm
  queue : ∀ i ∈ n.queue, i.Sound C n.archive n.cluster.engine.currentTerm
  error : n.cluster.error ≠ some .generationUnavailable

variable (C) in
/-- Every proposal of the current term that waits in the queue refers to generations that something keeps: the state, the
snapshot, the log or a live lease. -/
def Covered (n : Node σ) : Prop :=
  ∀ command id, .propose command n.cluster.engine.currentTerm id ∈ n.queue → ∀ h ∈ commandHeads command,
    n.cluster.retained C (h.hash C) = true ∨ ∃ l ∈ n.live, h.hash C ∈ l.hashes

variable (C) in
/-- The condition on the steps of a run: collections find every queued proposal covered, and the writes of the archive
succeed. -/
def Careful (n : Node σ) : Label → Prop
  | .other => True
  | .stage disk => disk = true
  | .collect => n.Covered C

theorem Opened.closed (h : n.Opened C setup) : n.Closed C setup where
  pinned := by
    unfold live owned
    rw [h.tasks, h.queue, h.pins]
    exact ⟨fun _ => rfl, nofun⟩
  rooms := h.rooms
  writable := h.writable
  log := fun x hx => (Archive.has_iff.1 (h.log x hx)).2
  tasks := fun t ht => by
    rw [h.tasks] at ht
    exact absurd ht (Multiset.notMem_zero t)
  queue := fun i hi => by
    rw [h.queue] at hi
    cases hi
  error := by rw [h.error]; exact nofun

theorem Closed.update (h : n.Closed C setup) (hc : n'.cluster = n.cluster) (hpin : Pinned n'.live n'.archive.pins)
    (hrooms : n'.archive.Roomed setup.room) (hw : n'.archive.writeFailed = n.archive.writeFailed)
    (hold : ∀ x, n.archive.Holds C x → n'.archive.Holds C x)
    (htasks : ∀ t ∈ n'.tasks, t ∈ n.tasks ∨ t.Sound C n'.archive n.cluster.engine.currentTerm)
    (hqueue : ∀ i ∈ n'.queue, i ∈ n.queue ∨ i.Sound C n'.archive n.cluster.engine.currentTerm) : n'.Closed C setup where
  pinned := hpin
  rooms := hrooms
  writable := hw.trans h.writable
  log := fun x hx => hold x (h.log x (hc ▸ hx))
  tasks := by
    intro t ht
    rw [hc]
    rcases htasks t ht with hm | hs
    · exact (h.tasks t hm).weaken (fun x _ _ _ hx => hold x hx) (le_refl _)
    · exact hs
  queue := by
    intro i hi
    rw [hc]
    rcases hqueue i hi with hm | hs
    · exact (h.queue i hm).weaken (fun x _ _ _ hx => hold x hx) (fun _ _ _ x _ hx => hold x hx) (le_refl _)
    · exact hs
  error := hc ▸ h.error

theorem Closed.drive (hK : K.Appends) (h : n.Closed C setup) (env : Env) (input : Cluster.Input)
    (hnew : ∀ x ∈ input.brought n.cluster.engine.currentTerm, n.archive.Holds C x) :
    (n.drive C K setup env input).Closed C setup := by
  have hb := Cluster.handle_bounded (C := C) hK n.cluster (n.answers C setup env) input
  have hheld : ∀ x ∈ n.cluster.logHeads ++ input.brought n.cluster.engine.currentTerm, n.archive.Holds C x := by
    intro x hx
    rcases mem_append.1 hx with hx | hx
    · exact h.log x hx
    · exact hnew x hx
  refine ⟨h.pinned, h.rooms, h.writable, fun x hx => hheld x (hb.log x hx), fun t ht => ?_, fun i hi => ?_, fun he => ?_⟩
  · exact (h.tasks t ht).weaken (fun _ _ _ _ hx => hx) hb.term
  · exact (h.queue i hi).weaken (fun _ _ _ _ hx => hx) (fun _ _ _ _ _ hx => hx) hb.term
  · obtain ⟨x, hx, hmissing⟩ := hb.missing h.error he
    have hhas : n.archive.has C x = true := Archive.has_iff.2 ⟨h.writable, hheld x hx⟩
    exact absurd (hhas.symm.trans hmissing) (by decide)

/-! ## Steps -/

theorem owned_cons (t : Task) (tasks : Multiset Task) (queue : List Inbound) :
    owned (t ::ₘ tasks) queue = (t.leases : Multiset Lease) + owned tasks queue := by
  unfold owned
  rw [Multiset.cons_bind, add_assoc]

theorem owned_push (i : Inbound) (tasks : Multiset Task) (queue : List Inbound) :
    owned tasks (queue ++ [i]) = (i.leases : Multiset Lease) + owned tasks queue := by
  unfold owned
  rw [flatMap_append, ← Multiset.coe_add, flatMap_singleton, ← add_assoc, add_comm]

theorem owned_pop (i : Inbound) (tasks : Multiset Task) (queue : List Inbound) :
    owned tasks (i :: queue) = (i.leases : Multiset Lease) + owned tasks queue := by
  unfold owned
  rw [flatMap_cons, ← Multiset.coe_add, add_left_comm]

theorem owned_keeping : ∀ (leases : List Lease) (tasks : Multiset Task) (queue : List Inbound),
    owned ((leases.map Task.keeping : List Task) + tasks) queue = (leases : Multiset Lease) + owned tasks queue
  | [], tasks, queue => by simp
  | l :: leases, tasks, queue => by
    rw [map_cons, ← Multiset.cons_coe, Multiset.cons_add, owned_cons, owned_keeping leases tasks queue,
      ← Multiset.cons_coe, Multiset.cons_add]
    rfl

variable {rest : Multiset Task}

theorem Closed.replace (h : n.Closed C setup) {t u : Task} (ht : n.tasks = t ::ₘ rest)
    (hl : u.leases = t.leases) (hs : u.Sound C n.archive n.cluster.engine.currentTerm) :
    ({ n with tasks := u ::ₘ rest } : Node σ).Closed C setup := by
  refine h.update rfl ?_ h.rooms rfl (fun _ hx => hx) (fun x hx => ?_) (fun i hi => .inl hi)
  · have hp := h.pinned
    unfold live at hp ⊢
    rw [ht, owned_cons] at hp
    rw [owned_cons, hl]
    exact hp
  · rcases Multiset.mem_cons.1 hx with rfl | hm
    · exact .inr hs
    · exact .inl (ht ▸ Multiset.mem_cons_of_mem hm)

theorem Closed.start (h : n.Closed C setup) {t : Task} (hl : t.leases = [])
    (hs : t.Sound C n.archive n.cluster.engine.currentTerm) :
    ({ n with tasks := t ::ₘ n.tasks } : Node σ).Closed C setup := by
  refine h.update rfl ?_ h.rooms rfl (fun _ hx => hx) (fun x hx => ?_) (fun i hi => .inl hi)
  · unfold live
    rw [owned_cons, hl, Multiset.coe_nil, zero_add]
    exact h.pinned
  · rcases Multiset.mem_cons.1 hx with rfl | hm
    · exact .inr hs
    · exact .inl hm

theorem Closed.push (h : n.Closed C setup) {i : Inbound} (hl : i.leases = [])
    (hs : i.Sound C n.archive n.cluster.engine.currentTerm) :
    ({ n with queue := n.queue ++ [i] } : Node σ).Closed C setup := by
  refine h.update rfl ?_ h.rooms rfl (fun _ hx => hx) (fun t ht => .inl ht) (fun x hx => ?_)
  · unfold live
    rw [owned_push, hl, Multiset.coe_nil, zero_add]
    exact h.pinned
  · rcases mem_append.1 hx with hm | hm
    · exact .inl hm
    · rw [mem_singleton.1 hm]
      exact .inr hs

theorem Closed.drop (h : n.Closed C setup) {t : Task} (ht : n.tasks = t ::ₘ rest) :
    ({ n with tasks := rest, archive := n.archive.releaseAll t.leases } : Node σ).Closed C setup := by
  obtain ⟨hentries, hwrite⟩ := Archive.releaseAll_same t.leases n.archive
  refine h.update rfl ?_ (fun hash e hg => ?_) hwrite (fun _ hx => hx.of_entries hentries) (fun x hx => ?_)
    (fun i hi => .inl hi)
  · refine Pinned.releaseAll t.leases ?_
    have hp := h.pinned
    unfold live at hp
    rw [ht, owned_cons] at hp
    exact hp
  · exact h.rooms hash e (hentries ▸ hg)
  · exact .inl (ht ▸ Multiset.mem_cons_of_mem hx)

theorem Closed.staged (h : n.Closed C setup) {t u : Task} {head : Head} {a : Archive} {l : Lease}
    (ht : n.tasks = t ::ₘ rest) (hst : Stages C setup.room true n.archive head a (.ok l))
    (hl : u.leases = t.leases ++ [l]) (hs : u.Sound C a n.cluster.engine.currentTerm) :
    ({ n with archive := a, tasks := u ::ₘ rest } : Node σ).Closed C setup := by
  refine h.update rfl ?_ hst.rooms (hst.writable rfl) hst.holds (fun x hx => ?_) (fun i hi => .inl hi)
  · have hp := h.pinned.pin l
    unfold live at hp ⊢
    rw [ht, owned_cons] at hp
    rw [owned_cons, hl, (hst.leased l rfl).1, ← Multiset.coe_add, add_right_comm]
    rw [← Multiset.singleton_add, add_comm] at hp
    exact hp
  · rcases Multiset.mem_cons.1 hx with rfl | hm
    · exact .inr hs
    · exact .inl (ht ▸ Multiset.mem_cons_of_mem hm)

theorem Closed.unstaged (h : n.Closed C setup) {head : Head} {a : Archive} {e : Error}
    (hst : Stages C setup.room true n.archive head a (.error e)) : ({ n with archive := a } : Node σ).Closed C setup := by
  refine h.update rfl ?_ hst.rooms (hst.writable rfl) hst.holds (fun t ht => .inl ht) (fun i hi => .inl hi)
  rw [hst.failed e rfl]
  exact h.pinned

theorem Closed.collect (hK : K.Appends) (h : n.Closed C setup) (hcov : n.Covered C) (env : Env) :
    (n.collect C K setup env).Closed C setup := by
  have hd := h.drive hK env .maintain nofun
  have hengine : (n.cluster.handle C K (n.answers C setup env) .maintain).1.engine = n.cluster.engine := by
    unfold Cluster.handle
    split
    · rfl
    · dsimp only
      split <;> rfl
  unfold Node.collect
  split
  · cases hc : n.archive.collect (n.cluster.retained C) with
    | none => exact hd
    | some a =>
      obtain ⟨hpins, hwrite, hrooms⟩ := Archive.collect_some hc
      have hlease : ∀ x, ∀ l ∈ n.live, x.hash C ∈ l.hashes → n.archive.Holds C x → a.Holds C x :=
        fun x l hl hm hx => hx.collect hc (.inr (h.pinned.contains hl hm))
      refine ⟨?_, hrooms _ h.rooms, hwrite.trans h.writable, fun x hx => ?_, fun t ht => ?_, fun i hi => ?_, hd.error⟩
      · show Pinned n.live a.pins
        rw [hpins]
        exact h.pinned
      · refine (hd.log x hx).collect hc (.inl ?_)
        have hx' : x ∈ n.cluster.logHeads := by
          unfold Cluster.logHeads at hx ⊢
          rw [← hengine]
          exact hx
        unfold Cluster.retained
        rw [Bool.or_eq_true]
        exact .inr (decide_eq_true (mem_map.2 ⟨x, hx', rfl⟩))
      · refine (hd.tasks t ht).weaken (fun x l hl hm hx => hlease x l ?_ hm hx) (le_refl _)
        exact Multiset.mem_add.2 (.inl (Multiset.mem_bind.2 ⟨t, ht, hl⟩))
      · refine (hd.queue i hi).weaken (fun x l hl hm hx => hlease x l ?_ hm hx) (fun command id hcommand x hx hh => ?_)
          (le_refl _)
        · exact Multiset.mem_add.2 (.inr (mem_flatMap.2 ⟨i, hi, hl⟩))
        · subst hcommand
          have hterm : (n.drive C K setup env .maintain).cluster.engine.currentTerm = n.cluster.engine.currentTerm :=
            congrArg Engine.currentTerm hengine
          rw [hterm] at hi
          rcases hcov command id hi x hx with hret | ⟨l, hl, hm⟩
          · exact hh.collect hc (.inl hret)
          · exact hlease x l hl hm hh
  · exact hd

theorem Closed.incoming (hK : K.Appends) (h : n.Closed C setup) (env : Env) (busy : Bool) (sender : String)
    (msg : RaftMessage) : (n.incoming C K setup env busy sender msg).Closed C setup := by
  cases msg with
  | appendEntries term leader prevLogIndex prevLogTerm entries leaderCommit =>
    simp only [Node.incoming]
    split
    · -- the contact carries no entries
      have hc := h.drive hK env (.event (.message sender (.appendEntries term sender 0 0 [] 0)) true)
        (fun x hx => by simp [Cluster.Input.brought, Event.heads] at hx)
      split
      · exact hc
      split
      · rename_i hempty
        refine hc.drive hK env _ (fun x hx => ?_)
        have hm := Event.heads_message _ sender
          (.appendEntries term leader prevLogIndex prevLogTerm entries leaderCommit) x hx
        simp only [RaftMessage.entryHeads, hempty] at hm
        cases hm
      split
      · exact hc
      · exact hc.start rfl (fun x hx => .inl hx)
    · rename_i hstale
      refine h.drive hK env _ (fun x hx => ?_)
      have hx' : x ∈ (Event.message sender
          (.appendEntries term leader prevLogIndex prevLogTerm entries leaderCommit)).heads n.cluster.engine.currentTerm := hx
      simp only [Event.heads] at hx'
      split at hx'
      · rename_i hterm
        by_cases hentries : entries = []
        · rw [hentries] at hx'
          cases hx'
        · exact absurd ⟨hterm, hentries⟩ hstale
      · cases hx'
  | _ =>
    refine h.drive hK env _ (fun x hx => ?_)
    cases hx

theorem Closed.take (hK : K.Appends) (h : n.Closed C setup) (env : Env) (busy : Bool) : (n.take C K setup env busy).Closed C setup := by
  unfold Node.take
  split
  · exact h
  · rename_i item queue hqueue
    have hitem : item.Sound C n.archive n.cluster.engine.currentTerm := h.queue item (hqueue ▸ mem_cons_self)
    have hrest : ∀ i ∈ queue, i ∈ n.queue := fun i hi => hqueue ▸ mem_cons_of_mem _ hi
    have hp := h.pinned
    unfold live at hp
    rw [hqueue, owned_pop] at hp
    have hpop : item.leases = [] → ({ n with queue := queue } : Node σ).Closed C setup := by
      intro hl
      refine h.update rfl ?_ h.rooms rfl (fun _ hx => hx) (fun t ht => .inl ht) (fun i hi => .inl (hrest i hi))
      rw [hl, Multiset.coe_nil, zero_add] at hp
      exact hp
    dsimp only
    split
    · refine (hpop rfl).drive hK env _ (fun x hx => ?_)
      simp only [Cluster.Input.brought] at hx
      split at hx
      · rename_i hterm
        exact hitem.2 hterm x hx
      · cases hx
    · exact (hpop rfl).drive hK env _ nofun
    · exact (hpop rfl).incoming hK env busy _ _
    · rename_i sender msg leases
      have hkept : ({ n with queue := queue, tasks := (leases.map Task.keeping : List Task) + n.tasks } : Node σ).Closed
          C setup := by
        refine h.update rfl ?_ h.rooms rfl (fun _ hx => hx) (fun t ht => ?_) (fun i hi => .inl (hrest i hi))
        · unfold live
          rw [owned_keeping]
          exact hp
        · rcases Multiset.mem_add.1 ht with hm | hm
          · obtain ⟨l, -, rfl⟩ := mem_map.1 (Multiset.mem_coe.1 hm)
            exact .inr trivial
          · exact .inl hm
      split
      · refine hkept.drive hK env _ (fun x hx => ?_)
        exact (hitem x (Event.heads_message _ sender msg x hx)).1
      · exact hkept

theorem Closed.step (hK : K.Appends) (h : n.Closed C setup) {label : Label} (hok : n.Careful C label)
    (hs : Step C K setup n label n') : n'.Closed C setup := by
  cases hs with
  | request command id ticket =>
    exact (h.start (t := .barrier command n.cluster.engine.currentTerm id ticket) rfl (le_refl _)).push
      (i := .propose (.readBarrier ticket) n.cluster.engine.currentTerm id) rfl ⟨le_refl _, nofun⟩
  | preview command term id ticket rest reply ht =>
    have hterm : term ≤ n.cluster.engine.currentTerm := h.tasks (.barrier command term id ticket) (ht ▸ Multiset.mem_cons_self _ _)
    exact h.replace (u := .ready command term id) ht rfl hterm
  | migrate command term _ _ _ hterm => exact h.start (t := .ready command term "migration") rfl hterm
  | stage command term id rest head pulled disk a lease ht hheads hst =>
    have hst := stageHead_stages h.rooms hst
    rw [show disk = true from hok] at hst
    have hterm : term ≤ n.cluster.engine.currentTerm := h.tasks (.ready command term id) (ht ▸ Multiset.mem_cons_self _ _)
    refine h.staged ht hst rfl ⟨hterm, fun x hx => ?_⟩
    rw [hheads] at hx
    rw [mem_singleton.1 hx]
    exact ⟨(hst.leased lease rfl).2.1, lease, mem_cons_self, (hst.leased lease rfl).2.2⟩
  | stageFailed command term id rest head pulled disk a error ht hheads hst =>
    have hst := stageHead_stages h.rooms hst
    rw [show disk = true from hok] at hst
    exact (h.unstaged hst).drop (t := .ready command term id) ht
  | propose command term id rest ht hheads =>
    have hterm : term ≤ n.cluster.engine.currentTerm := h.tasks (.ready command term id) (ht ▸ Multiset.mem_cons_self _ _)
    refine (h.replace (u := .waiting none) ht rfl trivial).push (i := .propose command term id) rfl ⟨hterm, fun _ x hx => ?_⟩
    rw [hheads] at hx
    cases hx
  | proposeStaged command term id lease rest ht =>
    have hstaged := h.tasks (.staged command term id lease) (ht ▸ Multiset.mem_cons_self _ _)
    exact (h.replace (u := .waiting (some lease)) ht rfl trivial).push (i := .propose command term id) rfl
      ⟨hstaged.1, fun _ x hx => (hstaged.2 x hx).1⟩
  | drop task rest ht => exact h.drop ht
  | receive sender msg => exact h.push (i := .wire sender msg) rfl trivial
  | change voters learners => exact h.push (i := .membership voters learners) rfl trivial
  | received sender term snapshot s todo =>
    exact h.start (t := .preparing sender (.installSnapshot term sender snapshot) todo []) rfl nofun
  | prepare sender msg head todo leases rest pulled disk a lease ht hst =>
    have hst := stageHead_stages h.rooms hst
    rw [show disk = true from hok] at hst
    refine h.staged (u := .preparing sender msg todo (leases ++ [lease])) ht hst rfl (fun x hx => ?_)
    have hsound := h.tasks (.preparing sender msg (head :: todo) leases) (ht ▸ Multiset.mem_cons_self _ _)
    rcases hsound x hx with htodo | ⟨hheld, l, hl, hm⟩
    · rcases mem_cons.1 htodo with rfl | htodo
      · exact .inr ⟨(hst.leased lease rfl).2.1, lease, mem_append_right _ mem_cons_self, (hst.leased lease rfl).2.2⟩
      · exact .inl htodo
    · exact .inr ⟨hst.holds x hheld, l, mem_append_left _ hl, hm⟩
  | prepareFailed sender msg head todo leases rest pulled disk a error ht hst =>
    have hst := stageHead_stages h.rooms hst
    rw [show disk = true from hok] at hst
    exact (h.unstaged hst).drop (t := .preparing sender msg (head :: todo) leases) ht
  | prepared sender msg leases rest ht =>
    have hsound := h.tasks (.preparing sender msg [] leases) (ht ▸ Multiset.mem_cons_self _ _)
    refine h.update rfl ?_ h.rooms rfl (fun _ hx => hx) (fun t hm => .inl (ht ▸ Multiset.mem_cons_of_mem hm)) (fun i hi => ?_)
    · have hp := h.pinned
      unfold live at hp ⊢
      rw [ht, owned_cons] at hp
      rw [owned_push]
      exact hp
    · rcases mem_append.1 hi with hm | hm
      · exact .inl hm
      · rw [mem_singleton.1 hm]
        refine .inr (fun x hx => ?_)
        rcases hsound x hx with htodo | hleased
        · cases htodo
        · exact hleased
  | keep heads a lease hp =>
    obtain ⟨-, rfl⟩ := Archive.pinHeads_some hp
    refine h.update rfl ?_ h.rooms rfl (fun _ hx => hx) (fun x hx => ?_) (fun i hi => .inl hi)
    · unfold live
      rw [owned_cons]
      exact h.pinned.pin lease
    · rcases Multiset.mem_cons.1 hx with rfl | hm
      · exact .inr trivial
      · exact .inl hm
  | take env busy => exact h.take hK env busy
  | tick env event hev =>
    refine h.drive hK env _ (fun x hx => ?_)
    rcases hev with rfl | rfl <;> cases hx
  | gone env ticket => exact h.drive hK env _ nofun
  | collect env => exact h.collect hK hok env

theorem Runs.closed (hK : K.Appends) {n₀ : Node σ} (h₀ : n₀.Closed C setup) (hr : Runs C K setup (Careful C) n₀ n) :
    n.Closed C setup := by
  induction hr with
  | refl => exact h₀
  | tail _ hstep ih =>
    obtain ⟨label, hok, hs⟩ := hstep
    exact ih.step hK hok hs

/-- **What the log refers to is in the archive**, in every run of a replica in which every collection finds the queued
proposals covered and the archive can write; and no committed entry stops the replica for a missing generation. -/
theorem log_closed (C : Crates) (K : Consensus σ) (hK : K.Appends) (setup : Setup) (n₀ n : Node σ)
    (h₀ : n₀.Opened C setup) (hr : Runs C K setup (Careful C) n₀ n) :
    (∀ h ∈ n.cluster.logHeads, n.archive.has C h = true) ∧ n.cluster.error ≠ some .generationUnavailable := by
  have h := Runs.closed hK h₀.closed hr
  exact ⟨fun x hx => Archive.has_iff.2 ⟨h.writable, h.log x hx⟩, h.error⟩

end Node

/-! ## A request that times out -/

theorem Consensus.silent_appends : Consensus.silent.Appends where
  term := by
    intro r event
    cases event with
    | electionTimeout =>
      unfold Consensus.silent
      dsimp only
      split <;> exact Nat.le_succ _
    | clientPropose command =>
      unfold Consensus.silent
      dsimp only
      split <;> exact le_refl _
    | message sender msg => rw [Consensus.silent_message]
    | _ => exact le_refl _
  log := by
    intro r event entry hm
    cases event with
    | electionTimeout =>
      unfold Consensus.silent at hm
      dsimp only at hm
      split at hm <;> exact .inl hm
    | clientPropose command =>
      unfold Consensus.silent at hm
      dsimp only at hm
      split at hm
      · rcases mem_append.1 hm with hm | hm
        · exact .inl hm
        · rw [mem_singleton.1 hm]
          exact .inr (fun x hx => hx)
      · exact .inl hm
    | message sender msg =>
      rw [Consensus.silent_message] at hm
      exact .inl hm
    | _ => exact .inl hm

namespace Node

def alone : Setup := ⟨Config.default, "notes", false⟩

def lone : Node Unit where
  cluster := Cluster.opened (Engine.opened "0000000000000001" ["0000000000000001"])
  archive := ⟨∅, 0, false, ∅⟩
  tasks := 0
  queue := []
  replies := 0

theorem lone_opened (C : Crates) : lone.Opened C alone where
  log := nofun
  writable := rfl
  rooms := nofun
  pins := rfl
  tasks := rfl
  queue := rfl
  error := rfl

/-- The node leads, and has one entry in its log. -/
noncomputable def elected : Node Unit :=
  lone.drive noteCrates Consensus.silent alone (Cluster.easyEnv 0) (.event .electionTimeout false)

def notePut : Command := .put (Cluster.nonce 2) noteHead

/-- A client's put waits for its read barrier, which is queued. -/
noncomputable def requested : Node Unit := { elected with
    tasks := .barrier notePut 1 "put" (Cluster.nonce 1) ::ₘ 0
    queue := [.propose (.readBarrier (Cluster.nonce 1)) 1 "put"] }

/-- The barrier is committed, applied and answered. -/
noncomputable def answered : Node Unit := requested.take noteCrates Consensus.silent alone (Cluster.easyEnv 1) false

noncomputable def previewed : Node Unit := { answered with tasks := .ready notePut 1 "put" ::ₘ 0 }

def noteLease : Lease := ⟨[noteHash], nodup_singleton _⟩

/-- The archive with the generation in it: 4 bytes, a manifest of 95 and a record of 463. -/
def noteArchive : Archive where
  entries := Table.insert ∅ noteHash ⟨⟨noteHead, ["notes"]⟩, 562⟩
  bytes := 562
  writeFailed := false
  pins := Table.insert ∅ noteHash 1

/-- The generation was pulled from the client, staged and pinned. -/
noncomputable def stagedNode : Node Unit := { previewed with archive := noteArchive, tasks := .staged notePut 1 "put" noteLease ::ₘ 0 }

/-- The proposal is queued, and the request waits for its answer. -/
noncomputable def proposed : Node Unit :=
  { stagedNode with tasks := .waiting (some noteLease) ::ₘ 0, queue := [.propose notePut 1 "put"] }

/-- The request timed out: its future is gone, and the lease with it. -/
noncomputable def timedOut : Node Unit := { proposed with tasks := 0, archive := proposed.archive.releaseAll [noteLease] }

noncomputable def collected : Node Unit := timedOut.collect noteCrates Consensus.silent alone (Cluster.easyEnv 2)

/-- The proposal is taken up: appended, committed, and its generation not found. -/
noncomputable def lost : Node Unit := collected.take noteCrates Consensus.silent alone (Cluster.easyEnv 3) false

/-- What nothing keeps is collected while the request still waits, and then the proposal is taken up. -/
noncomputable def swept : Node Unit := proposed.collect noteCrates Consensus.silent alone (Cluster.easyEnv 2)

noncomputable def kept : Node Unit := swept.take noteCrates Consensus.silent alone (Cluster.easyEnv 3) false

theorem proposed_run : Runs noteCrates Consensus.silent alone (Careful noteCrates) lone proposed := by
  have hqueue : ([] : List Inbound).length < queueCapacity := by decide
  have helected : elected.cluster.error = none ∧ elected.cluster.engine.role = .leader ∧
      elected.cluster.engine.currentTerm = 1 := by decide
  have hvalid : validate noteCrates notePut alone.cfg.maxBlobBytes = .ok () := by decide
  have hready : .client (Cluster.nonce 1) (.obj [("v", .int 1), ("type", .str "escrow_read_ready"), ("id", .str "put")])
      ∈ answered.replies := by decide
  have hleads : answered.cluster.engine.role = .leader ∧ answered.cluster.engine.currentTerm = 1 := by decide
  have hpreview : replyType (answered.cluster.state.apply noteCrates notePut "put" alone.cfg.maxSlotsPerRoom).2
        ≠ some "escrow_error" ∧
      notePut.slot.bind (answered.cluster.state.apply noteCrates notePut "put" alone.cfg.maxSlotsPerRoom).1.heads.get
        ≠ notePut.slot.bind answered.cluster.state.heads.get := by decide +kernel
  have hlease : stageHead noteCrates alone true ⟨∅, 0, false, ∅⟩ noteHead (.ok (noteBlob, noteManifest)) true
      = (noteArchive, .ok noteLease) := by decide +kernel
  have hrunning : previewed.cluster.running = true := by decide
  have h₁ : Step noteCrates Consensus.silent alone lone .other elected := .tick _ _ (.inr rfl)
  have h₂ : Step noteCrates Consensus.silent alone elected .other requested := by
    have := Step.request (n := elected) (K := Consensus.silent) notePut "put" (Cluster.nonce 1) rfl hvalid helected.1
      helected.2.1 nofun hqueue
    exact this
  have h₃ : Step noteCrates Consensus.silent alone requested .other answered := .take _ _
  have h₄ : Step noteCrates Consensus.silent alone answered .other previewed :=
    .preview notePut 1 "put" (Cluster.nonce 1) 0 _ rfl hready rfl hleads.1 hleads.2 hpreview.1 hpreview.2
  have h₅ : Step noteCrates Consensus.silent alone previewed (.stage true) stagedNode := by
    refine .stage notePut 1 "put" 0 noteHead (.ok (noteBlob, noteManifest)) true noteArchive noteLease rfl rfl ?_
    exact hlease
  have h₆ : Step noteCrates Consensus.silent alone stagedNode .other proposed := .proposeStaged notePut 1 "put" noteLease 0 rfl hqueue
  exact .tail (.tail (.tail (.tail (.tail (.single ⟨.other, trivial, h₁⟩) ⟨.other, trivial, h₂⟩) ⟨.other, trivial, h₃⟩)
    ⟨.other, trivial, h₄⟩) ⟨.stage true, rfl, h₅⟩) ⟨.other, trivial, h₆⟩

/-- The lease of the request that waits covers its proposal. -/
theorem proposed_covered : proposed.Covered noteCrates := by
  have hlive : noteLease ∈ proposed.live := by
    exact Multiset.mem_add.2 (.inl (by decide))
  intro command id hmem x hx
  rw [show proposed.queue = [.propose notePut 1 "put"] from rfl, mem_singleton] at hmem
  cases hmem
  rw [show commandHeads notePut = [noteHead] from rfl, mem_singleton] at hx
  exact .inr ⟨noteLease, hlive, by rw [hx]; decide +kernel⟩

theorem log_closed_kept : Runs noteCrates Consensus.silent alone (Careful noteCrates) lone kept ∧
    noteHead ∈ kept.cluster.logHeads ∧ kept.archive.has noteCrates noteHead = true := by
  have hr : Runs noteCrates Consensus.silent alone (Careful noteCrates) lone kept :=
    (proposed_run.tail ⟨.collect, proposed_covered, .collect _⟩).tail ⟨.other, trivial, .take _ _⟩
  have hm : noteHead ∈ kept.cluster.logHeads := by decide +kernel
  exact ⟨hr, hm, (log_closed _ _ Consensus.silent_appends alone lone kept (lone_opened _) hr).1 _ hm⟩

/-- **A request that times out takes its generation with it**: the maintenance of the drive loop collects what the queued
proposal refers to, the proposal is appended and committed all the same, and the replica stops. -/
theorem dropped_lease_loses_generation : ∃ n, Runs noteCrates Consensus.silent alone (fun _ _ => True) lone n ∧
    noteHead ∈ n.cluster.logHeads ∧ n.archive.has noteCrates noteHead = false ∧
    n.cluster.error = some .generationUnavailable := by
  have hr : Runs noteCrates Consensus.silent alone (fun _ _ => True) lone proposed :=
    Relation.ReflTransGen.mono (fun _ _ ⟨label, _, hs⟩ => ⟨label, trivial, hs⟩) _ _ proposed_run
  have hdrop : Step noteCrates Consensus.silent alone proposed .other timedOut := by
    refine .drop (.waiting (some noteLease)) 0 ?_
    rfl
  have hlost : noteHead ∈ lost.cluster.logHeads ∧ lost.archive.has noteCrates noteHead = false ∧
      lost.cluster.error = some .generationUnavailable := by decide +kernel
  refine ⟨lost, ?_, hlost⟩
  exact ((hr.tail ⟨_, trivial, hdrop⟩).tail ⟨_, trivial, .collect _⟩).tail ⟨_, trivial, .take _ _⟩

end Node
end Mistl.Escrow
