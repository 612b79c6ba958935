import Mistl.AiProtocol
import Mistl.ApiHttp
import Mistl.Lib.Runs
/-!
# AiCatalog — trusted providers while calls overlap

A hello reads the allowlist, the DID, the catalog and the pin under a lock each, and the setter of the allowlist writes
them in an order of its own: what a hello with an old list records and pins after that stays.
-/
open List Mistl.Table Option

namespace Mistl.Ai

/-! ## The consumer -/

def serviceChat : String := "chat"

def advertisesService (services : Option (List String)) (service : String) : Bool :=
  match services with
  | none => service == serviceChat
  | some list => list.any (· == service)

structure ProviderInfo where
  nodeId : String
  models : List String
  modelsKnown : Bool
  services : Option (List String)
  voices : Option (List String)
  did : Option String
  trusted : Bool
  deriving DecidableEq

/-- The fields of a `provider_hello` -/
structure Hello where
  models : Option (List String)
  services : Option (List String)
  voices : Option (List String)
  deriving DecidableEq

def Hello.bounded (h : Hello) : Bool :=
  h.models.all (fun l => decide (l.length ≤ 256) && l.all (fun v => decide (v.utf8ByteSize ≤ 512))) &&
  h.services.all (fun l => decide (l.length ≤ 32) && l.all (fun v => decide (v.utf8ByteSize ≤ 128))) &&
  h.voices.all (fun l => decide (l.length ≤ 256) && l.all (fun v => decide (v.utf8ByteSize ≤ 256)))

/-- The consumer's state; the catalog is in the order of the node ids. -/
structure Consumer where
  trusted : List String
  catalog : List ProviderInfo
  catalogSeen : Bool
  provider : Option ProviderInfo
  pending : List (String × String)
  rejected : List String
  greeted : List String

def record (info : ProviderInfo) : List ProviderInfo → List ProviderInfo
  | [] => [info]
  | p :: l =>
    if info.nodeId < p.nodeId then info :: p :: l
    else if info.nodeId = p.nodeId then info :: l
    else p :: record info l

/-- What `provider_for_model` looks for. -/
def offers (model : Option String) (info : ProviderInfo) : Bool :=
  advertisesService info.services serviceChat && model.all fun m => info.models.contains m

/-- What `wait_for_service_model` looks for. -/
def serves (service : String) (model : Option String) (info : ProviderInfo) : Bool :=
  advertisesService info.services service && model.all fun m => info.models.isEmpty || info.models.contains m

/-! ## Calls -/

inductive Answer where
  | done
  | heard (updated : Bool)
  | provider (info : Option ProviderInfo)

/-- What a call has still to do, from its next section on. -/
inductive Call where
  | hello (sender : String) (hello : Hello)
  | look (sender : String) (hello : Hello) (list : List String)
  | record (info : ProviderInfo)
  | pin (info : ProviderInfo)
  | unpin (sender : String)
  | install (list : List String)
  | retain (list : List String)
  | release (list : List String)
  | remove (node : String) (heard : Bool)
  | clear (node : String) (heard : Bool)
  | reject (node : String) (heard : Bool)
  | provider
  | ask (model : Option String) (waits : Bool)
  | askCatalog (model : Option String) (waits : Bool)
  | askAgain (model : Option String) (waits : Bool)
  | askService (service : String) (model : Option String)
  deriving DecidableEq

def Call.isEntry : Call → Bool
  | .hello _ _ | .install _ | .remove _ false | .provider | .ask _ _ | .askService _ _ => true
  | _ => false

section Sections
variable (nodeIdForDid : String → String)

def providerMatches (trusted : List String) : Option String → Bool
  | none => false
  | some did => trusted.any (fun t => t == did || Api.eqIgnoreAsciiCase t.toList (nodeIdForDid did).toList)

/-- One section of a call: the consumer after it, and the rest of the call or its answer.  A wait that finds nothing looks
again; the model lets it do so at any time. -/
def Call.turn (did : Option String) (c : Consumer) : Call → Consumer × (Call ⊕ Answer)
  | .hello sender h => if h.bounded then (c, .inl (.look sender h c.trusted)) else (c, .inr (.heard false))
  | .look sender h list =>
    let trusted := providerMatches nodeIdForDid list did
    if !list.isEmpty && !trusted then (c, .inr (.heard false))
    else if h.services == some [] then ({ c with catalogSeen := true }, .inl (.remove sender true))
    else (c, .inl (.record ⟨sender, h.models.getD [], h.models.isSome, h.services, h.voices, did, trusted⟩))
  | .record info =>
    if c.catalog.length < 256 ∨ c.catalog.any (fun p => p.nodeId == info.nodeId) = true then
      ({ c with catalog := Ai.record info c.catalog, catalogSeen := true },
        .inl (if advertisesService info.services serviceChat then .pin info else .unpin info.nodeId))
    else (c, .inr (.heard false))
  | .pin info =>
    match c.provider with
    | none => ({ c with provider := some info, greeted := c.greeted ++ [info.nodeId] }, .inr (.heard true))
    | some p =>
      if p.nodeId = info.nodeId then
        ({ c with provider := some { p with
            models := info.models
            modelsKnown := info.modelsKnown
            services := info.services
            voices := info.voices
            did := info.did
            trusted := info.trusted } }, .inr (.heard true))
      else (c, .inr (.heard true))
  | .unpin sender => ({ c with provider := c.provider.filter (fun p => p.nodeId != sender) }, .inr (.heard true))
  | .install list => ({ c with trusted := list }, .inl (.retain list))
  | .retain list => ({ c with catalog := c.catalog.filter (fun p => list.isEmpty || providerMatches nodeIdForDid list p.did) },
      if list.isEmpty then .inr .done else .inl (.release list))
  | .release list => ({ c with provider := c.provider.filter (fun p => providerMatches nodeIdForDid list p.did) }, .inr .done)
  | .remove node heard => ({ c with catalog := c.catalog.filter (fun p => p.nodeId != node) }, .inl (.clear node heard))
  | .clear node heard => ({ c with provider := c.provider.filter (fun p => p.nodeId != node) }, .inl (.reject node heard))
  | .reject node heard => ({ c with rejected := c.rejected ++ (c.pending.filter (fun r => r.2 == node)).map Prod.fst },
      .inr (if heard then .heard true else .done))
  | .provider => (c, .inr (.provider c.provider))
  | .ask model waits =>
    match c.provider.filter (offers model) with
    | some info => (c, .inr (.provider (some info)))
    | none => (c, .inl (.askCatalog model waits))
  | .askCatalog model waits =>
    match c.catalog.find? (offers model) with
    | some info => (c, .inr (.provider (some info)))
    | none => (c, .inl (.askAgain model waits))
  | .askAgain model waits =>
    match c.provider.filter (fun p => p.models.isEmpty) with
    | some info => (c, .inr (.provider (some info)))
    | none => if waits then (c, .inl (.ask model waits)) else (c, .inr (.provider none))
  | .askService service model =>
    match c.catalog.find? (serves service model) with
    | some info => (c, .inr (.provider (some info)))
    | none => (c, .inl (.askService service model))

/-! ## Overlapping calls -/

/-- A consumer and the calls in progress, and which call stored the allowlist. -/
structure Calls where
  consumer : Consumer
  calls : Table Nat Call
  next : Nat
  installer : Option Nat

/-- A call begins, has one section more, with the DID that is verified for its peer then, or gives up waiting. -/
inductive CallAct where
  | enter (call : Call)
  | turn (id : Nat) (did : Option String)
  | expire (id : Nat)

namespace Calls

def start : Calls := ⟨⟨[], [], false, none, [], [], []⟩, ∅, 0, none⟩

def setter (x : Calls) : Option Call := x.installer.bind x.calls.get

def installerAfter (x : Calls) (id : Nat) : Call → Option Nat
  | .install _ => some id
  | _ => x.installer

def step (x : Calls) : CallAct → Option (Calls × Option Answer)
  | .enter call => if call.isEntry then some ({ x with calls := x.calls.insert x.next call, next := x.next + 1 }, none) else none
  | .turn id did => (x.calls.get id).map (fun call =>
      match Call.turn nodeIdForDid did x.consumer call with
      | (consumer, .inl rest) => ({ x with
          consumer := consumer
          calls := x.calls.insert id rest
          installer := x.installerAfter id call }, none)
      | (consumer, .inr answer) => ({ x with
          consumer := consumer
          calls := x.calls.erase id
          installer := x.installerAfter id call }, some answer))
  | .expire id =>
    match x.calls.get id with
    | some (.ask _ true) | some (.askService _ _) => some ({ x with calls := x.calls.erase id }, some (.provider none))
    | _ => none

def advance (x : Calls) (act : CallAct) : Option Calls := (x.step nodeIdForDid act).map Prod.fst

end Calls
/-! ## What a section does -/

theorem mem_record {info p : ProviderInfo} : ∀ {l : List ProviderInfo}, p ∈ record info l → p = info ∨ p ∈ l
  | [], h => .inl (mem_singleton.1 h)
  | q :: l, h => by
    unfold record at h
    split at h
    · exact mem_cons.1 h
    · split at h
      · rcases mem_cons.1 h with h | h
        · exact .inl h
        · exact .inr (mem_cons_of_mem _ h)
      · rcases mem_cons.1 h with rfl | h
        · exact .inr mem_cons_self
        · exact (mem_record h).imp id (mem_cons_of_mem _)

theorem self_mem_record (info : ProviderInfo) : ∀ l : List ProviderInfo, info ∈ record info l
  | [] => mem_singleton.2 rfl
  | q :: l => by
    unfold record
    split
    · exact mem_cons_self
    · split
      · exact mem_cons_self
      · exact mem_cons_of_mem _ (self_mem_record info l)

theorem mem_record_of_ne {info p : ProviderInfo} (hne : info.nodeId ≠ p.nodeId) : ∀ {l : List ProviderInfo}, p ∈ l → p ∈ record info l
  | q :: l, h => by
    unfold record
    split
    · exact mem_cons_of_mem _ h
    · split
      · rename_i heq
        rcases mem_cons.1 h with rfl | h
        · exact absurd heq hne
        · exact mem_cons_of_mem _ h
      · rcases mem_cons.1 h with rfl | h
        · exact mem_cons_self
        · exact mem_cons_of_mem _ (mem_record_of_ne hne h)

variable {nodeIdForDid} {did : Option String} {c : Consumer} {call : Call}

theorem turn_trusted (h : ∀ list, call ≠ .install list) : (call.turn nodeIdForDid did c).1.trusted = c.trusted := by
  cases call with
  | install list => exact absurd rfl (h list)
  | hello | look | record | pin | ask | askCatalog | askAgain | askService =>
    simp only [Call.turn]
    repeat' split
    all_goals rfl
  | unpin | retain | release | remove | clear | reject | provider => rfl

variable {p : ProviderInfo}

theorem turn_catalog (h : p ∈ (call.turn nodeIdForDid did c).1.catalog) : p ∈ c.catalog ∨ call = .record p := by
  cases call with
  | record info =>
    simp only [Call.turn] at h
    split at h
    · rcases mem_record h with rfl | h
      · exact .inr rfl
      · exact .inl h
    · exact .inl h
  | retain list | remove node heard => exact .inl (mem_filter.1 h).1
  | hello | look | pin | ask | askCatalog | askAgain | askService =>
    simp only [Call.turn] at h
    repeat' split at h
    all_goals exact .inl h
  | install | unpin | release | clear | reject | provider => exact .inl h

theorem turn_provider (h : (call.turn nodeIdForDid did c).1.provider = some p) :
    c.provider = some p ∨ call = .pin p ∧ ∀ q, c.provider = some q → q.nodeId = p.nodeId := by
  cases call with
  | pin info =>
    simp only [Call.turn] at h
    split at h
    · rename_i hnone
      cases h
      exact .inr ⟨rfl, fun q hq => by rw [hnone] at hq; cases hq⟩
    · rename_i q hq
      split at h
      · rename_i hnode
        obtain ⟨nodeId, models, modelsKnown, services, voices, did, trusted⟩ := info
        cases hnode
        cases h
        exact .inr ⟨rfl, fun q' hq' => by rw [hq] at hq'; cases hq'; rfl⟩
      · exact .inl h
  | unpin sender | release list | clear node heard => exact .inl (filter_eq_some_iff.1 h).1
  | hello | look | record | ask | askCatalog | askAgain | askService =>
    simp only [Call.turn] at h
    repeat' split at h
    all_goals exact .inl h
  | install | retain | remove | reject | provider => exact .inl h

theorem turn_keeps (h : p ∈ c.catalog) : p ∈ (call.turn nodeIdForDid did c).1.catalog ∨
    (∃ info, call = .record info ∧ info.nodeId = p.nodeId) ∨ (∃ heard, call = .remove p.nodeId heard) ∨
    ∃ list, call = .retain list ∧ list ≠ [] ∧ providerMatches nodeIdForDid list p.did = false := by
  cases call with
  | record info =>
    simp only [Call.turn]
    split
    · by_cases hnode : info.nodeId = p.nodeId
      · exact .inr (.inl ⟨info, rfl, hnode⟩)
      · exact .inl (mem_record_of_ne hnode h)
    · exact .inl h
  | retain list =>
    by_cases hmatch : list.isEmpty || providerMatches nodeIdForDid list p.did
    · exact .inl (mem_filter.2 ⟨h, hmatch⟩)
    · rw [Bool.not_eq_true, Bool.or_eq_false_iff, isEmpty_eq_false_iff] at hmatch
      exact .inr (.inr (.inr ⟨list, rfl, hmatch.1, hmatch.2⟩))
  | remove node heard =>
    by_cases hnode : p.nodeId = node
    · exact .inr (.inr (.inl ⟨heard, by rw [hnode]⟩))
    · exact .inl (mem_filter.2 ⟨h, bne_iff_ne.2 hnode⟩)
  | hello | look | pin | ask | askCatalog | askAgain | askService =>
    simp only [Call.turn]
    repeat' split
    all_goals exact .inl h
  | install | unpin | release | clear | reject | provider => exact .inl h

theorem turn_answer {info : ProviderInfo} (h : (call.turn nodeIdForDid did c).2 = .inr (.provider (some info))) :
    c.provider = some info ∨ info ∈ c.catalog := by
  cases call with
  | provider =>
    simp only [Call.turn, Sum.inr.injEq, Answer.provider.injEq] at h
    exact .inl h
  | ask model waits =>
    simp only [Call.turn] at h
    split at h
    · rename_i hfind
      cases h
      exact .inl (filter_eq_some_iff.1 hfind).1
    · cases h
  | askCatalog model waits | askService service model =>
    simp only [Call.turn] at h
    split at h
    · rename_i hfind
      cases h
      exact .inr (mem_of_find?_eq_some hfind)
    · cases h
  | askAgain model waits =>
    simp only [Call.turn] at h
    split at h
    · rename_i hfind
      cases h
      exact .inl (filter_eq_some_iff.1 hfind).1
    · split at h <;> cases h
  | hello | look | record | pin | retain | reject =>
    simp only [Call.turn] at h
    repeat' split at h
    all_goals nomatch h
  | unpin | install | release | remove | clear => cases h

/-! ## One section of overlapping calls -/

variable {x x' : Calls}

variable {answer : Option Answer}

theorem step_turn {id : Nat} (h : x.step nodeIdForDid (.turn id did) = some (x', answer)) :
    ∃ call, x.calls.get id = some call ∧ x'.consumer = (call.turn nodeIdForDid did x.consumer).1 ∧ x'.next = x.next ∧
      (x'.installer = x.installer ∧ (∀ list, call ≠ .install list) ∨ x'.installer = some id ∧ ∃ list, call = .install list) ∧
      (∀ k, x'.calls.get k = if k = id then (call.turn nodeIdForDid did x.consumer).2.getLeft? else x.calls.get k) ∧
      answer = (call.turn nodeIdForDid did x.consumer).2.getRight? := by
  obtain ⟨call, hcall, h⟩ := map_eq_some_iff.1 h
  have hinstaller : x.installerAfter id call = x.installer ∧ (∀ list, call ≠ .install list) ∨
      x.installerAfter id call = some id ∧ ∃ list, call = .install list := by
    unfold Calls.installerAfter
    split
    · exact .inr ⟨rfl, _, rfl⟩
    · rename_i hnot
      exact .inl ⟨rfl, hnot⟩
  refine ⟨call, hcall, ?_⟩
  cases hturn : call.turn nodeIdForDid did x.consumer with
  | mk consumer rest =>
    simp only [hturn] at h
    cases rest with
    | inl call' =>
      cases h
      exact ⟨rfl, rfl, hinstaller, fun k => get_insert _ _ _ _, rfl⟩
    | inr a =>
      cases h
      exact ⟨rfl, rfl, hinstaller, fun k => get_erase _ _ _, rfl⟩

/-! ## The allowlist -/

/-- A hello that the allowlist does not cover records its provider before the setter's section on the catalog, and pins it
before the setter's section on the pin. -/
def Calls.current (nodeIdForDid : String → String) (x : Calls) : CallAct → Bool
  | .turn id _ =>
    match x.calls.get id with
    | some (.record info) => x.consumer.trusted.isEmpty || providerMatches nodeIdForDid x.consumer.trusted info.did ||
        x.setter == some (.retain x.consumer.trusted)
    | some (.pin info) => x.consumer.trusted.isEmpty || providerMatches nodeIdForDid x.consumer.trusted info.did || x.setter.isSome
    | _ => true
  | _ => true

/-- What the setter of the allowlist has done already holds. -/
structure Calls.Enforced (nodeIdForDid : String → String) (x : Calls) : Prop where
  fresh : ∀ id, x.next ≤ id → x.calls.get id = none
  older : ∀ id, x.installer = some id → id < x.next
  setter : ∀ call, x.setter = some call → call = .retain x.consumer.trusted ∨
    call = .release x.consumer.trusted ∧ x.consumer.trusted ≠ []
  catalog : x.setter = some (.retain x.consumer.trusted) ∨ x.consumer.trusted = [] ∨
    ∀ p ∈ x.consumer.catalog, providerMatches nodeIdForDid x.consumer.trusted p.did = true
  pin : x.setter ≠ none ∨ x.consumer.trusted = [] ∨
    ∀ p, x.consumer.provider = some p → providerMatches nodeIdForDid x.consumer.trusted p.did = true

theorem start_enforced : Calls.start.Enforced nodeIdForDid where
  fresh := fun _ _ => rfl
  older := nofun
  setter := nofun
  catalog := .inr (.inl rfl)
  pin := .inr (.inl rfl)

theorem Calls.Enforced.unmoved (h : x.Enforced nodeIdForDid) (hconsumer : x'.consumer = x.consumer)
    (hinstaller : x'.installer = x.installer) (hnext : x.next ≤ x'.next) (hfresh : ∀ k, x'.next ≤ k → x'.calls.get k = none)
    (hsetter : x'.setter = x.setter) : x'.Enforced nodeIdForDid where
  fresh := hfresh
  older := fun k hk => Nat.lt_of_lt_of_le (h.older k (hinstaller ▸ hk)) hnext
  setter := by rw [hsetter, hconsumer]; exact h.setter
  catalog := by rw [hsetter, hconsumer]; exact h.catalog
  pin := by rw [hsetter, hconsumer]; exact h.pin

theorem Calls.Enforced.other {id : Nat} (h : x.Enforced nodeIdForDid) (hcall : x.calls.get id = some call)
    (hcurrent : x.current nodeIdForDid (.turn id did) = true) (hother : x.installer ≠ some id)
    (hinstall : ∀ list, call ≠ .install list) (hconsumer : x'.consumer = (call.turn nodeIdForDid did x.consumer).1)
    (hnext : x'.next = x.next) (hinstaller : x'.installer = x.installer)
    (hcalls : ∀ k, x'.calls.get k = if k = id then (call.turn nodeIdForDid did x.consumer).2.getLeft? else x.calls.get k) :
    x'.Enforced nodeIdForDid := by
  have htrusted : x'.consumer.trusted = x.consumer.trusted := by rw [hconsumer, turn_trusted hinstall]
  have hsetter : x'.setter = x.setter := by
    unfold Calls.setter
    rw [hinstaller]
    cases hi : x.installer with
    | none => rfl
    | some i => rw [bind_some, bind_some, hcalls, if_neg (fun heq => hother (by rw [hi, heq]))]
  have hid : id < x.next := by
    by_contra hle
    rw [h.fresh id (Nat.le_of_not_lt hle)] at hcall
    cases hcall
  simp only [Calls.current, hcall] at hcurrent
  refine ⟨fun k hk => ?_, fun k hk => ?_, ?_, ?_, ?_⟩
  · rw [hnext] at hk
    rw [hcalls, if_neg (Nat.ne_of_gt (Nat.lt_of_lt_of_le hid hk))]
    exact h.fresh k hk
  · rw [hnext]
    exact h.older k (hinstaller ▸ hk)
  · rw [hsetter, htrusted]
    exact h.setter
  · rw [hsetter, htrusted]
    rcases h.catalog with hretain | hempty | hall
    · exact .inl hretain
    · exact .inr (.inl hempty)
    · by_cases hrec : ∃ info, call = .record info
      · obtain ⟨info, rfl⟩ := hrec
        simp only [Bool.or_eq_true, List.isEmpty_iff, beq_iff_eq] at hcurrent
        rcases hcurrent with (hempty | hmatch) | hretain
        · exact .inr (.inl hempty)
        · refine .inr (.inr (fun p hp => ?_))
          rw [hconsumer] at hp
          rcases turn_catalog hp with hp | hp
          · exact hall p hp
          · cases hp
            exact hmatch
        · exact .inl hretain
      · refine .inr (.inr (fun p hp => ?_))
        rw [hconsumer] at hp
        rcases turn_catalog hp with hp | hp
        · exact hall p hp
        · exact absurd ⟨p, hp⟩ hrec
  · rw [hsetter, htrusted]
    rcases h.pin with hset | hempty | hall
    · exact .inl hset
    · exact .inr (.inl hempty)
    · by_cases hpin : ∃ info, call = .pin info
      · obtain ⟨info, rfl⟩ := hpin
        simp only [Bool.or_eq_true, List.isEmpty_iff] at hcurrent
        rcases hcurrent with (hempty | hmatch) | hset
        · exact .inr (.inl hempty)
        · refine .inr (.inr (fun p hp => ?_))
          rw [hconsumer] at hp
          rcases turn_provider hp with hp | ⟨hp, -⟩
          · exact hall p hp
          · cases hp
            exact hmatch
        · exact .inl (isSome_iff_ne_none.1 hset)
      · refine .inr (.inr (fun p hp => ?_))
        rw [hconsumer] at hp
        rcases turn_provider hp with hp | ⟨hp, -⟩
        · exact hall p hp
        · exact absurd ⟨p, hp⟩ hpin

variable {act : CallAct}

theorem Calls.Enforced.step (h : x.Enforced nodeIdForDid)
    (hcurrent : x.current nodeIdForDid act = true) (hstep : x.step nodeIdForDid act = some (x', answer)) :
    x'.Enforced nodeIdForDid := by
  cases act with
  | enter call =>
    simp only [Calls.step] at hstep
    split at hstep
    · cases hstep
      refine h.unmoved rfl rfl (Nat.le_succ _) (fun k hk => ?_) ?_
      · rw [get_insert_ne (Nat.ne_of_gt hk)]
        exact h.fresh k (Nat.le_of_succ_le hk)
      · show x.installer.bind (x.calls.insert x.next call).get = x.installer.bind x.calls.get
        cases hinst : x.installer with
        | none => rfl
        | some i => exact get_insert_ne (Nat.ne_of_lt (h.older i hinst)) _ _
    · cases hstep
  | expire id =>
    have hwaits : ∀ call, x.calls.get id = some call → (∀ list, call ≠ .retain list) → (∀ list, call ≠ .release list) →
        x' = { x with calls := x.calls.erase id } → x'.Enforced nodeIdForDid := by
      rintro call hcall hretain hrelease rfl
      refine h.unmoved rfl rfl (Nat.le_refl _) (fun k hk => ?_) ?_
      · rw [get_erase]
        split
        · rfl
        · exact h.fresh k hk
      · show x.installer.bind (x.calls.erase id).get = x.installer.bind x.calls.get
        cases hinst : x.installer with
        | none => rfl
        | some i =>
          refine get_erase_ne ?_ _
          rintro rfl
          have hset : x.setter = some call := by
            unfold Calls.setter
            rw [hinst]
            exact hcall
          rcases h.setter call hset with rfl | ⟨rfl, -⟩
          · exact hretain _ rfl
          · exact hrelease _ rfl
    simp only [Calls.step] at hstep
    split at hstep
    iterate 2
      rename_i hcall
      cases hstep
      exact hwaits _ hcall (fun _ h => by cases h) (fun _ h => by cases h) rfl
    · cases hstep
  | turn id did =>
    obtain ⟨call, hcall, hconsumer, hnext, hinst, hcalls, -⟩ := step_turn hstep
    have hid : id < x.next := by
      by_contra hle
      rw [h.fresh id (Nat.le_of_not_lt hle)] at hcall
      cases hcall
    have hfresh : ∀ k, x'.next ≤ k → x'.calls.get k = none := by
      intro k hk
      rw [hnext] at hk
      rw [hcalls, if_neg (Nat.ne_of_gt (Nat.lt_of_lt_of_le hid hk))]
      exact h.fresh k hk
    rcases hinst with ⟨hinstaller, hnot⟩ | ⟨hinstaller, list, rfl⟩
    · by_cases hother : x.installer = some id
      · have hset : x.setter = some call := by
          unfold Calls.setter
          rw [hother]
          exact hcall
        have hset' : x'.setter = (call.turn nodeIdForDid did x.consumer).2.getLeft? := by
          unfold Calls.setter
          rw [hinstaller, hother, bind_some, hcalls, if_pos rfl]
        have holder : ∀ k, x'.installer = some k → k < x'.next := by
          rw [hnext, hinstaller]
          exact h.older
        have htrusted : x'.consumer.trusted = x.consumer.trusted := by rw [hconsumer, turn_trusted hnot]
        rcases h.setter call hset with rfl | ⟨rfl, hne⟩
        · -- The setter's section on the catalog.
          have hcatalog : x.consumer.trusted = [] ∨
              ∀ p ∈ x'.consumer.catalog, providerMatches nodeIdForDid x.consumer.trusted p.did = true := by
            by_cases hempty : x.consumer.trusted = []
            · exact .inl hempty
            · refine .inr (fun p hp => ?_)
              rw [hconsumer] at hp
              have hkept := (mem_filter.1 hp).2
              rw [Bool.or_eq_true, List.isEmpty_iff] at hkept
              exact hkept.resolve_left hempty
          refine ⟨hfresh, holder, ?_, .inr (htrusted.symm ▸ hcatalog), ?_⟩
          · intro call' hcall'
            rw [hset'] at hcall'
            simp only [Call.turn] at hcall'
            split at hcall'
            · cases hcall'
            · rename_i hempty
              cases hcall'
              rw [htrusted]
              exact .inr ⟨rfl, fun heq => hempty (by rw [heq]; rfl)⟩
          · rw [hset', htrusted]
            simp only [Call.turn]
            split
            · rename_i hempty
              exact .inr (.inl (List.isEmpty_iff.1 hempty))
            · exact .inl (some_ne_none _)
        · -- The setter's section on the pin.
          refine ⟨hfresh, holder, ?_, ?_, .inr (.inr (fun p hp => ?_))⟩
          · intro call' hcall'
            rw [hset'] at hcall'
            cases hcall'
          · rw [hconsumer]
            rcases h.catalog with hretain | hrest
            · rw [hset] at hretain
              cases hretain
            · exact .inr hrest
          · rw [hconsumer] at hp
            rw [htrusted]
            exact (filter_eq_some_iff.1 hp).2
      · exact h.other hcall hcurrent hother hnot hconsumer hnext hinstaller hcalls
    · -- A new allowlist.
      have hset' : x'.setter = some (.retain list) := by
        unfold Calls.setter
        rw [hinstaller, bind_some, hcalls, if_pos rfl]
        rfl
      have htrusted : x'.consumer.trusted = list := by rw [hconsumer]; rfl
      refine ⟨hfresh, fun k hk => ?_, fun call' hcall' => ?_, .inl ?_, .inl ?_⟩
      · rw [hinstaller] at hk
        cases hk
        rw [hnext]
        exact hid
      · rw [hset'] at hcall'
        cases hcall'
        rw [htrusted]
        exact .inl rfl
      · rw [hset', htrusted]
      · rw [hset']
        exact some_ne_none _

/-! ## The pin -/

def listed (catalog : List ProviderInfo) (node : String) : Bool :=
  catalog.any fun p => p.nodeId == node && advertisesService p.services serviceChat

theorem listed_iff {catalog : List ProviderInfo} {node : String} : listed catalog node = true ↔
    ∃ p ∈ catalog, p.nodeId = node ∧ advertisesService p.services serviceChat = true := by
  unfold listed
  rw [List.any_eq_true]
  exact exists_congr (fun p => and_congr_right (fun _ => by rw [Bool.and_eq_true, beq_iff_eq]))

def retained (nodeIdForDid : String → String) (list : List String) (catalog : List ProviderInfo) : List ProviderInfo :=
  catalog.filter fun p => list.isEmpty || providerMatches nodeIdForDid list p.did

/-- A hello pins a provider that is still listed, and the pinned provider is not taken from the catalog. -/
def Calls.holdsPin (nodeIdForDid : String → String) (x : Calls) : CallAct → Bool
  | .turn id _ =>
    match x.calls.get id with
    | some (.record info) => x.consumer.provider.all (fun p => p.nodeId != info.nodeId || advertisesService info.services serviceChat)
    | some (.pin info) => x.consumer.provider.any (fun p => p.nodeId != info.nodeId) || listed x.consumer.catalog info.nodeId
    | some (.remove node _) => x.consumer.provider.all (fun p => p.nodeId != node)
    | some (.retain list) => x.consumer.provider.all (fun p => listed (retained nodeIdForDid list x.consumer.catalog) p.nodeId)
    | _ => true
  | _ => true

/-- A hello pins a provider that is still listed, and an allowlist takes the pinned provider from the catalog only where it
does not match the pin either. -/
def Calls.pinsListed (nodeIdForDid : String → String) (x : Calls) : CallAct → Bool
  | .turn id _ =>
    match x.calls.get id with
    | some (.pin info) => x.consumer.provider.any (fun p => p.nodeId != info.nodeId) || listed x.consumer.catalog info.nodeId
    | some (.retain list) => x.consumer.provider.all (fun p =>
        listed (retained nodeIdForDid list x.consumer.catalog) p.nodeId || !providerMatches nodeIdForDid list p.did)
    | _ => true
  | _ => true

def Call.clears (nodeIdForDid : String → String) (p : ProviderInfo) : Call → Bool
  | .unpin sender => p.nodeId == sender
  | .clear node _ => p.nodeId == node
  | .release list => !providerMatches nodeIdForDid list p.did
  | _ => false

theorem turn_listed {node : String} (h : listed c.catalog node = true) : listed (call.turn nodeIdForDid did c).1.catalog node = true ∨
      (∃ info, call = .record info ∧ info.nodeId = node ∧ advertisesService info.services serviceChat = false ∧
        (call.turn nodeIdForDid did c).2 = .inl (.unpin node)) ∨
      (∃ heard, call = .remove node heard) ∨
      ∃ list, call = .retain list ∧ list ≠ [] ∧ listed (retained nodeIdForDid list c.catalog) node = false := by
  obtain ⟨p, hp, hnode, hchat⟩ := listed_iff.1 h
  rcases @turn_keeps nodeIdForDid did c call p hp with hkept | ⟨info, rfl, hinfo⟩ | ⟨heard, rfl⟩ | ⟨list, rfl, hne, -⟩
  · exact .inl (listed_iff.2 ⟨p, hkept, hnode, hchat⟩)
  · have hthere : c.catalog.any (fun q => q.nodeId == info.nodeId) = true := List.any_eq_true.2 ⟨p, hp, beq_iff_eq.2 hinfo.symm⟩
    simp only [Call.turn]
    rw [if_pos (.inr hthere)]
    cases hservice : advertisesService info.services serviceChat with
    | true => exact .inl (listed_iff.2 ⟨info, self_mem_record info _, hinfo.trans hnode, hservice⟩)
    | false => exact .inr (.inl ⟨info, rfl, hinfo.trans hnode, hservice, by rw [hinfo, hnode]; rfl⟩)
  · rw [hnode]
    exact .inr (.inr (.inl ⟨heard, rfl⟩))
  · cases hlisted : listed (retained nodeIdForDid list c.catalog) node with
    | true => exact .inl hlisted
    | false => exact .inr (.inr (.inr ⟨list, rfl, hne, hlisted⟩))

def Calls.PinListed (x : Calls) : Prop := ∀ p, x.consumer.provider = some p → listed x.consumer.catalog p.nodeId = true

/-- The pinned provider is in the catalog and advertises chat, or a call is about to clear the pin. -/
def Calls.PinSettling (nodeIdForDid : String → String) (x : Calls) : Prop := ∀ p, x.consumer.provider = some p →
  listed x.consumer.catalog p.nodeId = true ∨ ∃ id call, x.calls.get id = some call ∧ call.clears nodeIdForDid p = true

theorem Calls.PinListed.step (h : x.PinListed)
    (hholds : x.holdsPin nodeIdForDid act = true) (hstep : x.step nodeIdForDid act = some (x', answer)) : x'.PinListed := by
  cases act with
  | enter call =>
    simp only [Calls.step] at hstep
    split at hstep
    · cases hstep
      exact h
    · cases hstep
  | expire id =>
    simp only [Calls.step] at hstep
    split at hstep
    · cases hstep
      exact h
    · cases hstep
      exact h
    · cases hstep
  | turn id did =>
    obtain ⟨call, hcall, hconsumer, -⟩ := step_turn hstep
    simp only [Calls.holdsPin, hcall] at hholds
    intro p hp
    rw [hconsumer] at hp ⊢
    have hpin : (∀ info, call ≠ .pin info) → x.consumer.provider = some p := fun hcall =>
      (turn_provider hp).resolve_right (fun h => hcall _ h.1)
    have hlisted : listed x.consumer.catalog p.nodeId = true := by
      rcases turn_provider hp with hp | ⟨rfl, hsame⟩
      · exact h p hp
      · cases hpin : x.consumer.provider with
        | none => simpa [hpin] using hholds
        | some q => simpa [hpin, hsame q hpin] using hholds
    rcases @turn_listed nodeIdForDid did x.consumer call p.nodeId hlisted with
      hlisted | ⟨info, rfl, hinfo, hservice, -⟩ | ⟨heard, rfl⟩ | ⟨list, rfl, -, hgone⟩
    · exact hlisted
    · simp [hpin (fun _ h => by cases h), hinfo, hservice] at hholds
    · simp [hpin (fun _ h => by cases h)] at hholds
    · simp [hpin (fun _ h => by cases h), hgone] at hholds

theorem turn_clears (h : call.clears nodeIdForDid p = true) : (call.turn nodeIdForDid did c).1.provider ≠ some p := by
  intro hp
  cases call with
  | unpin sender | clear node heard =>
    have hkept := (filter_eq_some_iff.1 hp).2
    rw [bne_iff_ne] at hkept
    exact hkept (beq_iff_eq.1 h)
  | release list =>
    have hkept := (filter_eq_some_iff.1 hp).2
    rw [Call.clears, hkept] at h
    cases h
  | _ => cases h

theorem Calls.PinSettling.step (h : x.PinSettling nodeIdForDid)
    (hfresh : ∀ id, x.next ≤ id → x.calls.get id = none) (hpins : x.pinsListed nodeIdForDid act = true)
    (hstep : x.step nodeIdForDid act = some (x', answer)) : x'.PinSettling nodeIdForDid := by
  cases act with
  | enter call =>
    simp only [Calls.step] at hstep
    split at hstep
    · cases hstep
      intro p hp
      refine (h p hp).imp_right (fun ⟨k, call', hcall', hclears⟩ => ⟨k, call', ?_, hclears⟩)
      refine (get_insert_ne ?_ _ _).trans hcall'
      rintro rfl
      rw [hfresh _ (Nat.le_refl _)] at hcall'
      cases hcall'
    · cases hstep
  | expire id =>
    have herased : ∀ call, x.calls.get id = some call → (∀ p, call.clears nodeIdForDid p = false) →
        Calls.PinSettling nodeIdForDid { x with calls := x.calls.erase id } := by
      intro call hcall hnot p hp
      refine (h p hp).imp_right (fun ⟨k, call', hcall', hclears⟩ => ⟨k, call', ?_, hclears⟩)
      refine (get_erase_ne ?_ _).trans hcall'
      rintro rfl
      rw [hcall] at hcall'
      cases hcall'
      rw [hnot p] at hclears
      cases hclears
    simp only [Calls.step] at hstep
    split at hstep
    iterate 2
      rename_i hcall
      cases hstep
      exact herased _ hcall (fun _ => rfl)
    · cases hstep
  | turn id did =>
    obtain ⟨call, hcall, hconsumer, -, -, hcalls, -⟩ := step_turn hstep
    simp only [Calls.pinsListed, hcall] at hpins
    intro p hp
    rw [hconsumer] at hp ⊢
    have hrest : ∀ call', (call.turn nodeIdForDid did x.consumer).2 = .inl call' → x'.calls.get id = some call' := by
      intro call' hrest
      rw [hcalls, if_pos rfl, hrest]
      rfl
    have hlisted : listed x.consumer.catalog p.nodeId = true ∨
        x.consumer.provider = some p ∧ ∃ k call', x.calls.get k = some call' ∧ call'.clears nodeIdForDid p = true := by
      rcases turn_provider hp with hp | ⟨rfl, hsame⟩
      · exact (h p hp).imp_right (fun hclears => ⟨hp, hclears⟩)
      · refine .inl ?_
        cases hpin : x.consumer.provider with
        | none => simpa [hpin] using hpins
        | some q => simpa [hpin, hsame q hpin] using hpins
    rcases hlisted with hlisted | ⟨-, k, call', hcall', hclears⟩
    · rcases @turn_listed nodeIdForDid did x.consumer call p.nodeId hlisted with
        hlisted | ⟨info, rfl, hinfo, hservice, hunpin⟩ | ⟨heard, rfl⟩ | ⟨list, rfl, hne, hgone⟩
      · exact .inl hlisted
      · exact .inr ⟨id, _, hrest _ hunpin, beq_iff_eq.2 rfl⟩
      · exact .inr ⟨id, _, hrest _ rfl, beq_iff_eq.2 rfl⟩
      · have hpin : x.consumer.provider = some p := (turn_provider hp).resolve_right (fun hpin => by cases hpin.1)
        have hnot : providerMatches nodeIdForDid list p.did = false := by simpa [hpin, hgone] using hpins
        refine .inr ⟨id, .release list, hrest _ ?_, by rw [Call.clears, hnot]; rfl⟩
        simp only [Call.turn]
        rw [if_neg (fun hempty => hne (List.isEmpty_iff.1 hempty))]
    · by_cases hk : k = id
      · subst hk
        rw [hcall] at hcall'
        cases hcall'
        exact absurd hp (turn_clears hclears)
      · exact .inr ⟨k, call', by rw [hcalls, if_neg hk]; exact hcall', hclears⟩

/-! ## Runs -/

def Calls.run (nodeIdForDid : String → String) (acts : List CallAct) : Option Calls :=
  Runs.run (Calls.advance nodeIdForDid) Calls.start acts

def Calls.along (nodeIdForDid : String → String) (ok : Calls → CallAct → Bool) (acts : List CallAct) : Bool :=
  Runs.along (Calls.advance nodeIdForDid) ok Calls.start acts

theorem fresh_of_step (hfresh : ∀ id, x.next ≤ id → x.calls.get id = none)
    (hstep : x.step nodeIdForDid act = some (x', answer)) : ∀ id, x'.next ≤ id → x'.calls.get id = none := by
  intro k hk
  cases act with
  | enter call =>
    simp only [Calls.step] at hstep
    split at hstep
    · cases hstep
      exact (get_insert_ne (Nat.ne_of_gt hk) _ _).trans (hfresh k (Nat.le_of_succ_le hk))
    · cases hstep
  | expire id =>
    have herased : (x.calls.erase id).get k = none ∨ x.next > k := by
      rw [get_erase]
      split
      · exact .inl rfl
      · exact (Nat.lt_or_ge k x.next).symm.imp_left (hfresh k)
    simp only [Calls.step] at hstep
    split at hstep
    · cases hstep
      exact herased.resolve_right (Nat.not_lt.2 hk)
    · cases hstep
      exact herased.resolve_right (Nat.not_lt.2 hk)
    · cases hstep
  | turn id did =>
    obtain ⟨call, hcall, -, hnext, -, hcalls, -⟩ := step_turn hstep
    rw [hnext] at hk
    have hid : id < x.next := by
      by_contra hle
      rw [hfresh id (Nat.le_of_not_lt hle)] at hcall
      cases hcall
    rw [hcalls, if_neg (Nat.ne_of_gt (Nat.lt_of_lt_of_le hid hk))]
    exact hfresh k hk

/-- **Trusted providers under every interleaving.**  Once the call that stored an allowlist has returned, every
provider returned matches it, in a run whose hellos record and pin before the setter's sections; and the pinned
provider is in the catalog, in a run whose hellos pin what is still listed and which never takes it out. -/
theorem trusted_when (nodeIdForDid : String → String) :
    (∀ acts x, Calls.run nodeIdForDid acts = some x → Calls.along nodeIdForDid (Calls.current nodeIdForDid) acts = true →
      x.setter = none → x.consumer.trusted ≠ [] → ∀ act x' info, x.step nodeIdForDid act = some (x', some (.provider (some info))) →
        providerMatches nodeIdForDid x.consumer.trusted info.did = true) ∧
    (∀ acts x, Calls.run nodeIdForDid acts = some x → Calls.along nodeIdForDid (Calls.holdsPin nodeIdForDid) acts = true →
      ∀ p, x.consumer.provider = some p →
        ∃ q ∈ x.consumer.catalog, q.nodeId = p.nodeId ∧ advertisesService q.services serviceChat = true) ∧
    ∀ acts x, Calls.run nodeIdForDid acts = some x → Calls.along nodeIdForDid (Calls.pinsListed nodeIdForDid) acts = true →
      ∀ p, x.consumer.provider = some p →
        (∃ q ∈ x.consumer.catalog, q.nodeId = p.nodeId ∧ advertisesService q.services serviceChat = true) ∨
        ∃ id call, x.calls.get id = some call ∧ call.clears nodeIdForDid p = true := by
  refine ⟨fun acts x hrun halong hset hne act x' info hstep => ?_, fun acts x hrun halong p hp => ?_, fun acts x hrun halong p hp => ?_⟩
  · have h : x.Enforced nodeIdForDid := by
      refine Runs.invariant (fun x x' act h hok hstep => ?_) start_enforced halong hrun
      obtain ⟨⟨y, answer⟩, hturn, rfl⟩ := map_eq_some_iff.1 hstep
      exact h.step hok hturn
    have hcatalog : ∀ p ∈ x.consumer.catalog, providerMatches nodeIdForDid x.consumer.trusted p.did = true :=
      (h.catalog.resolve_left (by rw [hset]; nofun)).resolve_left hne
    have hpin : ∀ p, x.consumer.provider = some p → providerMatches nodeIdForDid x.consumer.trusted p.did = true :=
      (h.pin.resolve_left (fun hnot => hnot hset)).resolve_left hne
    cases act with
    | enter call =>
      simp only [Calls.step] at hstep
      split at hstep <;> cases hstep
    | expire id =>
      simp only [Calls.step] at hstep
      split at hstep <;> cases hstep
    | turn id did =>
      obtain ⟨call, -, -, -, -, -, hanswer⟩ := step_turn hstep
      rcases turn_answer (Sum.getRight?_eq_some_iff.1 hanswer.symm) with hinfo | hinfo
      · exact hpin info hinfo
      · exact hcatalog info hinfo
  · have h : x.PinListed := by
      refine Runs.invariant (fun x x' act h hok hstep => ?_) (fun p hp => by cases hp) halong hrun
      obtain ⟨⟨y, answer⟩, hturn, rfl⟩ := map_eq_some_iff.1 hstep
      exact Calls.PinListed.step h hok hturn
    exact listed_iff.1 (h p hp)
  · have h : x.PinSettling nodeIdForDid ∧ ∀ id, x.next ≤ id → x.calls.get id = none := by
      refine @Runs.invariant Calls CallAct _ _
        (fun x => x.PinSettling nodeIdForDid ∧ ∀ id, x.next ≤ id → x.calls.get id = none)
        (fun x x' act h hok hstep => ?_) acts _ x ⟨fun p hp => (by cases hp), fun _ _ => rfl⟩ halong hrun
      obtain ⟨⟨y, answer⟩, hturn, rfl⟩ := map_eq_some_iff.1 hstep
      exact ⟨Calls.PinSettling.step h.1 h.2 hok hturn, fresh_of_step h.2 hturn⟩
    exact (h.1 p hp).imp_left listed_iff.1

end Sections

/-! ## Two runs -/

def chatHello : Hello := ⟨none, none, none⟩

def orderlyActs : List CallAct := [.enter (.install ["did:key:owner"]), .turn 0 none, .turn 0 none, .turn 0 none,
    .enter (.hello "friend" chatHello), .turn 1 none, .turn 1 (some "did:key:owner"), .turn 1 none, .turn 1 none, .enter .provider]

def overtakenActs : List CallAct := [.enter (.hello "stranger" chatHello), .turn 0 none,
    .enter (.install ["did:key:owner"]), .turn 1 none, .turn 1 none, .turn 1 none,
    .turn 0 none, .turn 0 none, .turn 0 none, .enter .provider]

def leavingActs : List CallAct := [.enter (.hello "guest" chatHello), .turn 0 none, .turn 0 none, .turn 0 none,
    .enter (.remove "guest" false), .turn 1 none, .turn 1 none, .turn 1 none, .turn 0 none]

theorem trusted_when_orderly : ∃ x x' info, Calls.run id orderlyActs = some x ∧
    x.step id (.turn 2 none) = some (x', some (.provider (some info))) ∧
    providerMatches id x.consumer.trusted info.did = true ∧
    (∃ q ∈ x.consumer.catalog, q.nodeId = info.nodeId ∧ advertisesService q.services serviceChat = true) := by
  obtain ⟨htrusted, hpinned, -⟩ := trusted_when id
  refine ⟨_, _, _, rfl, rfl, ?_, ?_⟩
  · exact htrusted orderlyActs _ rfl (by decide) (by decide) (by decide) (.turn 2 none) _ _ rfl
  · exact hpinned orderlyActs _ rfl (by decide) _ rfl

/-- **A stranger is pinned past the allowlist**: the call that stored it has returned, no later call changed it, and the
provider returned has no DID.  And a peer that left is pinned although no call is in progress and the catalog is empty. -/
theorem stranger_is_pinned :
    (∃ x x' info, Calls.run id overtakenActs = some x ∧ x.setter = none ∧ x.consumer.trusted = ["did:key:owner"] ∧
      x.step id (.turn 2 none) = some (x', some (.provider (some info))) ∧
      info.did = none ∧ providerMatches id x.consumer.trusted info.did = false) ∧
    ∃ x p, Calls.run id leavingActs = some x ∧ x.calls = ∅ ∧ x.consumer.provider = some p ∧ x.consumer.catalog = [] := by
  refine ⟨⟨_, _, _, rfl, ?_, rfl, rfl, rfl, ?_⟩, ⟨_, _, rfl, ?_, rfl, rfl⟩⟩
  · decide
  · decide
  · decide

end Mistl.Ai
