import Mistl.AuthzPersist
/-!
# AiModels — what a room shares, and the two doors to it

A room's entry lists the references it shares; those that resolve to an enabled HTTP provider are advertised, the
first of a raw id only.
-/
open Mistl.Table Option

namespace Mistl.Ai

open Authz (isBlank)

structure ModelRef where
  providerId : String
  model : String

/-- `AiProviderConfig`: what resolving reads of a provider or of a room. -/
structure ProviderConfig where
  id : String
  baseUrl : String
  apiKey : String
  enabled : Bool
  shared : List ModelRef

structure AiConfig where
  defaultRef : Option ModelRef
  providers : List ProviderConfig

structure ResolvedModel where
  baseUrl : String
  apiKey : String
  model : String
  reasoningEffort : Option String
  voice : Option String
  langVoices : List (String × String)

def resolveRefExact (ai : AiConfig) (reference : ModelRef) : Option ResolvedModel :=
  match ai.providers.find? (fun p => p.id == reference.providerId && p.enabled) with
  | none => none
  | some provider =>
    if isBlank reference.model then none
    else some ⟨provider.baseUrl, provider.apiKey, reference.model, none, none, []⟩

def isRoomUrl (url : String) : Bool := "mist-network://".toList.isPrefixOf url.toList

/-- The table of what is advertised, and the ids in the order they are listed. -/
abbrev Advertised := List String × Table String ResolvedModel

/-- One turn of the loop of `resolve_advertised_models`. -/
def advertise (cfg : AiConfig) (acc : Advertised) (reference : ModelRef) : Advertised :=
  match resolveRefExact cfg reference with
  | none => acc
  | some resolved =>
    if isRoomUrl resolved.baseUrl || (acc.2.get reference.model).isSome then acc
    else (acc.1 ++ [reference.model], acc.2.insert reference.model resolved)

def resolveAdvertisedModels (cfg : AiConfig) (room : ProviderConfig) : Advertised := room.shared.foldl (advertise cfg) ([], ∅)

/-- What `build_provider` makes of a room: the table, the flag and the default call of the one door, and what the resolver
of the tunnel holds. -/
structure Doors where
  models : List String
  advertised : Table String ResolvedModel
  sharedRestricted : Bool
  call : Option ResolvedModel
  shared : Table String ResolvedModel
  oaiDefault : Option ResolvedModel
  restricted : Bool

def buildProvider (cfg : AiConfig) (room : ProviderConfig) : Doors :=
  let (models, advertised) := resolveAdvertisedModels cfg room
  let default := ((cfg.defaultRef.bind (resolveRefExact cfg)).filter (fun r => !isRoomUrl r.baseUrl)).or
    (models.head?.bind advertised.get)
  let (_, shared) := resolveAdvertisedModels cfg room
  ⟨models, advertised, !room.shared.isEmpty, default, shared, default, !room.shared.isEmpty⟩

/-- `LlmCallResolution` -/
inductive Resolution where
  | default
  | resolved (model : ResolvedModel)
  | reject

def resolveLlmCall (d : Doors) (model : Option String) : Resolution :=
  match model.filter (fun m => !isBlank m) with
  | none => .default
  | some name =>
    match d.advertised.get name with
    | some resolved => .resolved resolved
    | none => if d.sharedRestricted then .reject else .default

def resolveOaiModel (shared : Table String ResolvedModel) (default : Option ResolvedModel) (restricted : Bool)
    (model : String) : Except String (Option ResolvedModel) :=
  if model ≠ "" then
    match shared.get model with
    | some target => .ok (some target)
    | none => if restricted then .error "model_not_shared" else .ok default
  else .ok default

/-- The upstream that serves an `llm_request`, or the code it is refused with. -/
def Doors.llmRequest (d : Doors) (model : Option String) : Except String (Option ResolvedModel) :=
  match resolveLlmCall d model with
  | .default => .ok d.call
  | .resolved target => .ok (some target)
  | .reject => .error "model_not_shared"

/-- The upstream that serves an `oai_request`; a body with no model has the empty one. -/
def Doors.oaiRequest (d : Doors) (model : Option String) : Except String (Option ResolvedModel) :=
  resolveOaiModel d.shared d.oaiDefault d.restricted (model.getD "")

/-! ## The table -/

def usable (cfg : AiConfig) (reference : ModelRef) : Option ResolvedModel :=
  (resolveRefExact cfg reference).filter fun r => !isRoomUrl r.baseUrl

theorem usable_blank (cfg : AiConfig) {reference : ModelRef} (h : isBlank reference.model = true) : usable cfg reference = none := by
  unfold usable resolveRefExact
  cases cfg.providers.find? (fun p => p.id == reference.providerId && p.enabled) with
  | none => rfl
  | some provider =>
    dsimp only
    rw [if_pos h]
    rfl

theorem get_advertise (cfg : AiConfig) (acc : Advertised) (reference : ModelRef) (name : String) :
    (advertise cfg acc reference).2.get name = (acc.2.get name).or (if reference.model = name then usable cfg reference else none) := by
  unfold advertise usable
  cases resolveRefExact cfg reference with
  | none => rw [filter_none, ite_self, or_none]
  | some resolved =>
    dsimp only
    cases hroom : isRoomUrl resolved.baseUrl with
    | true =>
      have hunusable : (some resolved).filter (fun r => !isRoomUrl r.baseUrl) = none := by rw [filter_some, hroom]; rfl
      rw [hunusable, ite_self, or_none, Bool.true_or, if_pos rfl]
    | false =>
      have husable : (some resolved).filter (fun r => !isRoomUrl r.baseUrl) = some resolved := by
        rw [filter_some, hroom]
        rfl
      rw [husable, Bool.false_or]
      by_cases hname : reference.model = name
      · subst hname
        rw [if_pos (rfl : reference.model = reference.model)]
        cases hget : acc.2.get reference.model with
        | some old => rw [isSome_some, if_pos rfl, hget, some_or]
        | none => rw [isSome_none, if_neg Bool.false_ne_true, get_insert_self, none_or]
      · rw [if_neg hname, or_none]
        split
        · rfl
        · exact get_insert_ne (Ne.symm hname) _ _

theorem get_advertised (cfg : AiConfig) (room : ProviderConfig) (name : String) : (resolveAdvertisedModels cfg room).2.get name =
      room.shared.findSome? (fun r => if r.model = name then usable cfg r else none) := by
  have hrun : ∀ (refs : List ModelRef) (acc : Advertised), (refs.foldl (advertise cfg) acc).2.get name =
      (acc.2.get name).or (refs.findSome? (fun r => if r.model = name then usable cfg r else none)) := by
    intro refs
    induction refs with
    | nil =>
      intro acc
      rw [List.foldl_nil, List.findSome?_nil, or_none]
    | cons r refs ih =>
      intro acc
      rw [List.foldl_cons, ih, get_advertise, Option.or_assoc, List.findSome?_cons]
      cases (if r.model = name then usable cfg r else none) <;> rfl
  rw [resolveAdvertisedModels, hrun, get_empty, none_or]

variable {name : String}

theorem get_advertised_blank (cfg : AiConfig) (room : ProviderConfig) (h : isBlank name = true) :
    (resolveAdvertisedModels cfg room).2.get name = none := by
  rw [get_advertised, List.findSome?_eq_none_iff]
  intro r _
  split
  · rename_i hname
    exact usable_blank cfg (hname ▸ h)
  · rfl

/-! ## The two doors -/

theorem request_named (cfg : AiConfig) (room : ProviderConfig) (h : isBlank name = false) :
    (buildProvider cfg room).llmRequest (some name) = (buildProvider cfg room).oaiRequest (some name) := by
  have hne : name ≠ "" := fun hnil => absurd (hnil ▸ h) (by decide)
  have hfilter : (some name).filter (fun m => !isBlank m) = some name := by
    rw [filter_some, h]
    rfl
  unfold Doors.llmRequest Doors.oaiRequest resolveLlmCall resolveOaiModel buildProvider
  rw [hfilter, getD_some, if_pos hne]
  dsimp only
  cases (resolveAdvertisedModels cfg room).2.get name with
  | some target => rfl
  | none => cases room.shared.isEmpty <;> rfl

theorem llmRequest_blank (d : Doors) {model : Option String} (h : ∀ name, model = some name → isBlank name = true) :
    d.llmRequest model = .ok d.call := by
  have hnone : model.filter (fun m => !isBlank m) = none := by
    cases model with
    | none => rfl
    | some name => rw [filter_some, h name rfl]; rfl
  unfold Doors.llmRequest resolveLlmCall
  rw [hnone]

theorem oaiRequest_blank (cfg : AiConfig) (room : ProviderConfig) (hblank : isBlank name = true) (hne : name ≠ "")
    (hshared : room.shared ≠ []) : (buildProvider cfg room).oaiRequest (some name) = .error "model_not_shared" := by
  unfold Doors.oaiRequest resolveOaiModel buildProvider
  rw [getD_some, if_pos hne, get_advertised_blank cfg room hblank]
  rw [if_pos (by rw [Bool.not_eq_true', List.isEmpty_eq_false_iff]; exact hshared)]

/-- **The two doors choose the same upstream** unless the model is nothing but white space, and not empty, at a room that
shares something: the one door has its default for it, the other refuses it. -/
theorem doors_agree (cfg : AiConfig) (room : ProviderConfig) (model : Option String) :
    (buildProvider cfg room).llmRequest model = (buildProvider cfg room).oaiRequest model ↔
      ∀ name, model = some name → isBlank name = true → name = "" ∨ room.shared = [] := by
  constructor
  · rintro heq name rfl hblank
    by_contra hne
    rw [not_or] at hne
    rw [llmRequest_blank _ (fun n hn => Option.some.inj hn ▸ hblank), oaiRequest_blank cfg room hblank hne.1 hne.2] at heq
    cases heq
  · intro h
    by_cases hblank : ∀ name, model = some name → isBlank name = true
    · rw [llmRequest_blank _ hblank]
      unfold Doors.oaiRequest resolveOaiModel buildProvider
      dsimp only
      cases model with
      | none => rfl
      | some name =>
        rw [getD_some]
        rcases h name rfl (hblank name rfl) with rfl | hnil
        · rfl
        · split
          · rw [get_advertised_blank cfg room (hblank name rfl), hnil]
            rfl
          · rfl
    · push Not at hblank
      obtain ⟨name, rfl, hname⟩ := hblank
      exact request_named cfg room (Bool.not_eq_true _ ▸ hname)

/-- A blank model at a room with one model. -/
theorem blank_model : ¬ ∀ (cfg : AiConfig) (room : ProviderConfig) (model : String),
    (buildProvider cfg room).llmRequest (some model) = (buildProvider cfg room).oaiRequest (some model) := by
  intro h
  have hsame := h ⟨none, [⟨"p", "http://127.0.0.1:11434/v1", "", true, []⟩]⟩
    ⟨"room", "mist-network://team", "", true, [⟨"p", "m"⟩]⟩ " "
  cases hsame

end Mistl.Ai
