import Mistl.Lib.JsonIndent
import Mistl.Lib.Records
import Mistl.Lib.Runs
import Mistl.TunnelRuleForms
/-!
# TunnelRuleStore — rules over a restart

`RuleStore` of `tunnel/proposal_rules.rs`: `add`, `update` and `remove` write the whole list and take it over when the write has succeeded;
`load` checks and normalizes every rule again, and starts empty where one does not pass.
-/
open List Mistl.Json Option

namespace Mistl.ProposalRules

open Folder (trim)

/-! ## Edits -/

structure RulePatch where
  action : Option String
  peer : Option String
  proto : Option String
  ports : Option String
  hosts : Option String
  note : Option String

def readAction (text : List Char) : Except String Action :=
  if trim text = "allow".toList then .ok .allow
  else if trim text = "deny".toList then .ok .deny
  else .error "action must be allow or deny"

def Rule.apply (r : Rule) (patch : RulePatch) : Except String Rule := do
  let action ← patch.action.elim (.ok r.action) (fun action => readAction action.toList)
  { r with
    action := action, peer := patch.peer.getD r.peer, proto := patch.proto.getD r.proto, ports := patch.ports.getD r.ports,
    hosts := patch.hosts.getD r.hosts, note := patch.note.getD r.note }.normalize

def maxRules : Nat := 256

def maxFileBytes : Nat := 4 * 1024 * 1024

def ruleLe (a b : Rule) : Prop := a.createdMs < b.createdMs ∨ a.createdMs = b.createdMs ∧ a.id ≤ b.id

instance : DecidableRel ruleLe := fun _ _ => inferInstanceAs (Decidable (_ ∨ _))

/-- `sort_rules`, a stable sort -/
def sortRules (rules : List Rule) : List Rule := rules.insertionSort ruleLe

/-! ## The file -/

def Action.asStr : Action → String
  | .allow => "allow"
  | .deny => "deny"

def Action.ofStr (s : String) : Option Action := if s = "allow" then some .allow else if s = "deny" then some .deny else none

def Action.ofJson : Json → Option Action
  | .str s => Action.ofStr s
  | .obj [(s, .null)] => Action.ofStr s
  | _ => none

def Rule.toJson (r : Rule) : Json :=
  .obj [("id", .str r.id), ("action", .str r.action.asStr), ("peer", .str r.peer), ("proto", .str r.proto), ("ports", .str r.ports),
    ("hosts", .str r.hosts), ("note", .str r.note), ("created_ms", .int r.createdMs)]

def Rule.ofJson (j : Json) : Option Rule :=
  match structFields ["id", "action", "peer", "proto", "ports", "hosts", "note", "created_ms"] false j with
  | some [some id, some action, some peer, some proto, some ports, some hosts, note, some created] => do
    some ⟨← id.asStr, ← Action.ofJson action, ← peer.asStr, ← proto.asStr, ← ports.asStr, ← hosts.asStr,
      ← note.elim (some "") asStr, ← created.asUnsigned (2 ^ 64)⟩
  | _ => none

/-- `to_vec_pretty` of the list -/
def saveText (rules : List Rule) : List UInt8 := toVecPretty (.arr (rules.map Rule.toJson))

def validId (id : String) : Bool := id.utf8ByteSize == 10 && "r-".toList.isPrefixOf id.toList && (id.toList.drop 2).all isAsciiHexdigit

/-- The loop of `load`, over the ids seen so far; what is wrong is only logged. -/
def checkRules (ids : List String) : List Rule → Option (List Rule)
  | [] => some []
  | r :: rules =>
    if validId r.id = false ∨ r.id ∈ ids then none
    else match r.normalize with
      | .error _ => none
      | .ok r => (checkRules (r.id :: ids) rules).map fun rules => r :: rules

def parseRules (text : List UInt8) : Option (List Rule) :=
  if maxFileBytes < text.length then none
  else ((fromSlice text).bind asArr).bind (fun items => (items.mapM Rule.ofJson).bind (fun rules =>
    if maxRules < rules.length then none else (checkRules [] rules).map sortRules))

structure RuleStore where
  rules : List Rule
  file : Option (List UInt8)

/-- `RuleStore::load`; a file that does not pass is moved aside. -/
def RuleStore.load : Option (List UInt8) → RuleStore
  | none => ⟨[], none⟩
  | some text =>
    match parseRules text with
    | some rules => ⟨rules, some text⟩
    | none => ⟨[], none⟩

/-! ## The operations -/

/-- How `write_private` ends: the file replaced; nothing replaced; or the file replaced and then an error, where the directory
cannot be synced. -/
inductive Write where
  | stored
  | refused (error : String)
  | unsynced (error : String)

inductive Answer where
  | rule (r : Rule)
  | removed (b : Bool)

/-- What a call comes to: its answer, the list that was written successfully, and the store after it. -/
structure Reply where
  answer : Except String Answer
  saved : Option (List Rule)
  store : RuleStore

namespace RuleStore

/-- `persist`, and the new list in memory where it succeeds -/
def commit (s : RuleStore) (next : List Rule) (w : Write) (answer : Answer) : Reply :=
  match w with
  | .stored => ⟨.ok answer, some next, ⟨next, some (saveText next)⟩⟩
  | .refused error => ⟨.error error, none, s⟩
  | .unsynced error => ⟨.error error, none, { s with file := some (saveText next) }⟩

/-- `format!("r-{:08x}", _)` -/
def ruleId (draw : Nat) : String := String.ofList ('r' :: '-' :: (List.range 8).map (fun i => (draw / 16 ^ (7 - i) % 16).digitChar))

def newRule (draw now : Nat) : Rule :=
  { id := ruleId draw, action := .deny, peer := "*", proto := "*", ports := "*", hosts := "loopback", note := "", createdMs := now }

def add (s : RuleStore) (patch : RulePatch) (draw now : Nat) (w : Write) : Reply :=
  if patch.action = none then ⟨.error "action is required", none, s⟩
  else if maxRules ≤ s.rules.length then ⟨.error "at most 256 proposal rules are allowed", none, s⟩
  else match (newRule draw now).apply patch with
    | .error error => ⟨.error error, none, s⟩
    | .ok rule => s.commit (sortRules (s.rules ++ [rule])) w (.rule rule)

def update (s : RuleStore) (id : String) (patch : RulePatch) (w : Write) : Reply :=
  match Records.find Rule.id id s.rules with
  | none => ⟨.error "proposal rule not found", none, s⟩
  | some rule =>
    match rule.apply patch with
    | .error error => ⟨.error error, none, s⟩
    | .ok rule => s.commit (Records.update Rule.id id (fun _ => rule) s.rules) w (.rule rule)

def remove (s : RuleStore) (id : String) (w : Write) : Reply :=
  let next := s.rules.filter (fun r => r.id != id)
  if next.length = s.rules.length then ⟨.ok (.removed false), none, s⟩ else s.commit next w (.removed true)

end RuleStore

inductive Call where
  | add (patch : RulePatch) (draw : UInt32) (now : UInt64) (w : Write)
  | update (id : String) (patch : RulePatch) (w : Write)
  | remove (id : String) (w : Write)

def RuleStore.serve (s : RuleStore) : Call → Option Reply
  | .add patch draw now w => if ruleId draw.toNat ∈ s.rules.map Rule.id then none else some (s.add patch draw.toNat now.toNat w)
  | .update id patch w => some (s.update id patch w)
  | .remove id w => some (s.remove id w)

def RuleStore.after (p : RuleStore × List Rule) (call : Call) : Option (RuleStore × List Rule) :=
  (p.1.serve call).map (fun reply => (reply.store, reply.saved.getD p.2))

def Write.synced : Write → Bool
  | .unsynced _ => false
  | _ => true

def Call.write : Call → Write
  | .add _ _ _ w => w
  | .update _ _ w => w
  | .remove _ w => w

/-! ## A list that is saved is read again -/

instance : IsTrans Rule ruleLe := ⟨fun a b c hab hbc => by
  rcases hab with hab | ⟨hab, hid⟩ <;> rcases hbc with hbc | ⟨hbc, hid'⟩
  · exact .inl (hab.trans hbc)
  · exact .inl (hbc ▸ hab)
  · exact .inl (hab ▸ hbc)
  · exact .inr ⟨hab.trans hbc, hid.trans hid'⟩⟩

instance : Std.Total ruleLe := ⟨fun a b => by
  rcases Nat.lt_trichotomy a.createdMs b.createdMs with hlt | heq | hgt
  · exact .inl (.inl hlt)
  · rcases le_total a.id b.id with hid | hid
    · exact .inl (.inr ⟨heq, hid⟩)
    · exact .inr (.inr ⟨heq.symm, hid⟩)
  · exact .inr (.inl hgt)⟩

structure Kept (rules : List Rule) : Prop where
  count : rules.length ≤ maxRules
  ids : (rules.map Rule.id).Nodup
  sorted : rules.Pairwise ruleLe
  valid : ∀ r ∈ rules, validId r.id = true
  form : ∀ r ∈ rules, r.Form
  created : ∀ r ∈ rules, r.createdMs < 2 ^ 64

theorem Action.ofJson_asStr (a : Action) : Action.ofJson (.str a.asStr) = some a := by
  cases a <;> decide

variable {r : Rule}

theorem Rule.ofJson_toJson (h : r.createdMs < 2 ^ 64) : Rule.ofJson r.toJson = some r := by
  have hfields : structFields ["id", "action", "peer", "proto", "ports", "hosts", "note", "created_ms"] false r.toJson =
      some [some (.str r.id), some (.str r.action.asStr), some (.str r.peer), some (.str r.proto), some (.str r.ports),
        some (.str r.hosts), some (.str r.note), some (.int r.createdMs)] := rfl
  have hcreated : (Json.int r.createdMs).asUnsigned (2 ^ 64) = some r.createdMs := by
    rw [asUnsigned, Int.toNat_natCast, if_pos ⟨Int.natCast_nonneg _, h⟩]
  rw [Rule.ofJson, hfields]
  simp only [asStr, Action.ofJson_asStr, hcreated, elim_some, bind_eq_bind, bind_some]

theorem mapM_ofJson : ∀ {rules : List Rule}, (∀ r ∈ rules, r.createdMs < 2 ^ 64) → (rules.map Rule.toJson).mapM Rule.ofJson = some rules
  | [], _ => rfl
  | r :: rules, h => by
    rw [map_cons, mapM_cons, Rule.ofJson_toJson (h r mem_cons_self), mapM_ofJson (fun r hr => h r (mem_cons_of_mem _ hr))]
    rfl

theorem checkRules_form : ∀ {rules : List Rule} {ids : List String}, (∀ r ∈ rules, validId r.id = true) → (∀ r ∈ rules, r.Form) →
    (rules.map Rule.id).Nodup → (∀ r ∈ rules, r.id ∉ ids) → checkRules ids rules = some rules
  | [], _, _, _, _, _ => rfl
  | r :: rules, ids, hvalid, hform, hnd, hfresh => by
    rw [map_cons, nodup_cons] at hnd
    have hrest : checkRules (r.id :: ids) rules = some rules := by
      refine checkRules_form (fun r hr => hvalid r (mem_cons_of_mem _ hr)) (fun r hr => hform r (mem_cons_of_mem _ hr)) hnd.2 ?_
      intro r' hr'
      rw [mem_cons, not_or]
      exact ⟨fun heq => hnd.1 (heq ▸ List.mem_map_of_mem hr'), hfresh r' (mem_cons_of_mem _ hr')⟩
    rw [checkRules, if_neg (by simp [hvalid r mem_cons_self, hfresh r mem_cons_self]), (hform r mem_cons_self).fixed]
    simp only [hrest, map_some]

variable {rules : List Rule}

theorem repr_rules (h : ∀ r ∈ rules, r.createdMs < 2 ^ 64) : Json.Repr (.arr (rules.map Rule.toJson)) ∧
    nesting (.arr (rules.map Rule.toJson)) ≤ 2 := by
  rw [Json.Repr, nesting]
  induction rules with
  | nil => exact ⟨trivial, by decide⟩
  | cons r rules ih =>
    have hr : Json.Repr r.toJson := by
      have := h r mem_cons_self
      simp only [Rule.toJson, Json.Repr, ReprFields, true_and, and_true]
      omega
    have hn : nesting r.toJson = 1 := rfl
    obtain ⟨hrepr, hnest⟩ := ih (fun r hr => h r (mem_cons_of_mem _ hr))
    rw [map_cons, nestingItems]
    exact ⟨⟨hr, hrepr⟩, by omega⟩

/-! ## The file is small enough -/

theorem length_le_byteLen : ∀ cs : List Char, cs.length ≤ byteLen cs
  | [] => Nat.le_refl _
  | c :: cs => by
    have := c.utf8Size_pos
    have := length_le_byteLen cs
    have hcons : byteLen (c :: cs) = c.utf8Size + byteLen cs := by
      unfold byteLen
      rw [map_cons, List.sum_cons]
    rw [length_cons]
    omega

theorem stringSize_le_byteLen {s : String} {bound : Nat} (h : byteLen s.toList ≤ bound) : stringSize s ≤ bound * 6 + 2 := by
  have := stringSize_le_length s
  have := length_le_byteLen s.toList
  omega

theorem PortsForm.byteLen_le {ports : List Char} (h : PortsForm ports) : byteLen ports ≤ 384 := by
  obtain rfl | ⟨items, hjoined, -⟩ := h
  · decide
  · exact hjoined.byteLen_le

theorem HostsForm.byteLen_le {hosts : List Char} (h : HostsForm hosts) : byteLen hosts ≤ 4064 := by
  obtain rfl | rfl | ⟨items, hjoined, -⟩ := h
  · decide
  · decide
  · exact hjoined.byteLen_le

theorem HostsForm.printed {hosts : List Char} (h : HostsForm hosts) : ∀ c ∈ hosts, 32 ≤ c.toNat := by
  have hall : ∀ {cs : List Char}, cs.all (fun c => Nat.ble 32 c.toNat) = true → ∀ c ∈ cs, 32 ≤ c.toNat :=
    fun h c hc => Nat.le_of_ble_eq_true (List.all_eq_true.mp h c hc)
  obtain rfl | rfl | ⟨items, hjoined, hitems⟩ := h
  · exact hall rfl
  · exact hall rfl
  · intro c hc
    rw [hjoined.eq] at hc
    rcases mem_intercalate hc with rfl | ⟨item, hitem, hc⟩
    · decide
    · have hgood := (hitems item hitem).good
      unfold badHost at hgood
      simp only [decide_eq_false_iff_not, not_or, List.any_eq_true, Bool.or_eq_true, not_exists, not_and] at hgood
      have hcontrol := (hgood.2.2.1 c hc).2
      unfold Folder.isControl at hcontrol
      simp only [Bool.or_eq_true, decide_eq_true_eq, not_or] at hcontrol
      exact Nat.not_lt.1 hcontrol.1

theorem HostsForm.stringSize_le {hosts : String} (h : HostsForm hosts.toList) : stringSize hosts ≤ 8130 := by
  have hsum : stringSize hosts ≤ (hosts.toList.map (fun c => 2 * c.utf8Size)).sum + 2 :=
    stringSize_le_sum (fun c hc => length_escapeChar_printed (h.printed c hc))
  have := h.byteLen_le
  rw [List.sum_map_mul_left, ← byteLen] at hsum
  omega

theorem length_indent_str (level : Nat) (s : String) : (utf8 (Json.indent level (.str s))).length = stringSize s := by
  rw [Json.indent, Json.write, stringSize]

theorem length_indent_rule (hform : r.Form) (hid : validId r.id = true) (hcreated : r.createdMs < 2 ^ 64) :
    (utf8 (Json.indent 1 r.toJson)).length ≤ 14000 := by
  have hidSize : stringSize r.id ≤ 62 := by
    have := stringSize_le r.id
    unfold validId at hid
    simp only [Bool.and_eq_true, beq_iff_eq] at hid
    omega
  have haction : stringSize r.action.asStr ≤ 7 := by
    cases r.action <;> decide
  have hpeer := stringSize_le_byteLen hform.peer.2
  have hproto := stringSize_le_length r.proto
  have hprotoLen := hform.proto.2
  have hports := stringSize_le_byteLen hform.ports.byteLen_le
  have hhosts := hform.hosts.stringSize_le
  have hnote := stringSize_le_length r.note
  have hnoteLen := hform.note.2
  have htime : (utf8 (Json.indent 2 (.int r.createdMs))).length ≤ 80 := by
    exact size_int_le hcreated
  have hfields := length_indentFields_le 2 [("id", .str r.id), ("action", .str r.action.asStr), ("peer", .str r.peer),
    ("proto", .str r.proto), ("ports", .str r.ports), ("hosts", .str r.hosts), ("note", .str r.note), ("created_ms", .int r.createdMs)]
  have hkeys : stringSize "id" = 4 ∧ stringSize "action" = 8 ∧ stringSize "peer" = 6 ∧ stringSize "proto" = 7 ∧
      stringSize "ports" = 7 ∧ stringSize "hosts" = 7 ∧ stringSize "note" = 6 ∧ stringSize "created_ms" = 12 := by
    decide
  obtain ⟨hk1, hk2, hk3, hk4, hk5, hk6, hk7, hk8⟩ := hkeys
  simp only [map_cons, map_nil, List.sum_cons, sum_nil, length_indent_str] at hfields
  have hline := length_utf8_line 1
  rw [Rule.toJson, Json.indent, utf8_cons, utf8_append, utf8_append, length_append, length_append,
    length_append, utf8_singleton_length (by decide), Json.closing, isEmpty_cons, if_neg (by decide), show (utf8 ['\x7d']).length = 1 by decide, show 1 + 1 = 2 from rfl]
  omega

theorem length_saveText_le (h : Kept rules) : (saveText rules).length ≤ maxFileBytes := by
  have hrules : ∀ j ∈ rules.map Rule.toJson, (utf8 (Json.indent 1 j)).length ≤ 14000 := by
    intro j hj
    obtain ⟨r, hr, rfl⟩ := List.mem_map.1 hj
    exact length_indent_rule (h.form r hr) (h.valid r hr) (h.created r hr)
  have hitems := length_indentItems_le hrules
  have hcount := h.count
  have hclosing : (utf8 (Json.closing 0 (rules.map Rule.toJson).isEmpty)).length ≤ 1 := by
    unfold Json.closing
    split
    · exact Nat.zero_le _
    · exact Nat.le_of_eq (length_utf8_line 0)
  rw [length_map] at hitems
  unfold maxRules at hcount
  unfold saveText toVecPretty maxFileBytes
  rw [Json.indent, utf8_cons, utf8_append, utf8_append, length_append, length_append, length_append,
    utf8_singleton_length (by decide), show (utf8 [']']).length = 1 by decide, show 0 + 1 = 1 from rfl]
  omega

theorem parseRules_saveText (h : Kept rules) : parseRules (saveText rules) = some rules := by
  obtain ⟨hrepr, hnest⟩ := repr_rules h.created
  have hsort : sortRules rules = rules := Pairwise.insertionSort_eq h.sorted
  unfold parseRules
  rw [if_neg (Nat.not_lt.2 (length_saveText_le h))]
  unfold saveText
  rw [fromSlice_toVecPretty hrepr (lt_of_le_of_lt hnest (by decide))]
  simp only [bind_some, asArr, mapM_ofJson h.created]
  rw [if_neg (Nat.not_lt.2 h.count), checkRules_form h.valid h.form h.ids (fun _ _ => not_mem_nil), map_some, hsort]

/-! ## Each operation keeps the list -/

theorem kept_sort (count : rules.length ≤ maxRules) (ids : (rules.map Rule.id).Nodup)
    (valid : ∀ r ∈ rules, validId r.id = true) (form : ∀ r ∈ rules, r.Form) (created : ∀ r ∈ rules, r.createdMs < 2 ^ 64) :
    Kept (sortRules rules) := by
  have hperm : (sortRules rules).Perm rules := perm_insertionSort ruleLe rules
  refine ⟨?_, ?_, pairwise_insertionSort ruleLe rules, ?_, ?_, ?_⟩
  · rw [hperm.length_eq]
    exact count
  · exact (hperm.map Rule.id).nodup_iff.2 ids
  · exact fun r hr => valid r (hperm.mem_iff.1 hr)
  · exact fun r hr => form r (hperm.mem_iff.1 hr)
  · exact fun r hr => created r (hperm.mem_iff.1 hr)

theorem Kept.sublist {rules next : List Rule} (h : Kept rules) (hsub : next.Sublist rules) : Kept next where
  count := hsub.length_le.trans h.count
  ids := h.ids.sublist (hsub.map Rule.id)
  sorted := h.sorted.sublist hsub
  valid r hr := h.valid r (hsub.subset hr)
  form r hr := h.form r (hsub.subset hr)
  created r hr := h.created r (hsub.subset hr)

theorem Rule.apply_form {r r' : Rule} {patch : RulePatch} (h : r.apply patch = .ok r') :
    r'.Form ∧ r'.id = r.id ∧ r'.createdMs = r.createdMs := by
  unfold Rule.apply at h
  cases haction : patch.action.elim (.ok r.action) (fun action => readAction action.toList) with
  | error e => simp [haction, bind, Except.bind] at h
  | ok action =>
    simp only [haction, bind] at h
    obtain ⟨hform, hid, hcreated⟩ := Rule.normalize_form h
    exact ⟨hform, hid, hcreated⟩

theorem validId_ruleId (draw : Nat) : validId (RuleStore.ruleId draw) = true := by
  have hdigit : ∀ n < 16, isAsciiHexdigit n.digitChar = true ∧ n.digitChar.toNat < 128 := by decide
  have hall : ∀ c ∈ (List.range 8).map (fun i => (draw / 16 ^ (7 - i) % 16).digitChar), isAsciiHexdigit c = true ∧ c.toNat < 128 := by
    intro c hc
    obtain ⟨i, -, rfl⟩ := List.mem_map.1 hc
    exact hdigit _ (Nat.mod_lt _ (by decide))
  unfold validId RuleStore.ruleId
  rw [utf8ByteSize_ascii]
  · simp only [String.toList_ofList, Bool.and_eq_true]
    refine ⟨⟨?_, ?_⟩, ?_⟩
    · simp
    · rfl
    · exact List.all_eq_true.2 (fun c hc => (hall c hc).1)
  · intro c hc
    rcases mem_cons.1 hc with rfl | hc
    · decide
    · rcases mem_cons.1 hc with rfl | hc
      · decide
      · exact (hall c hc).2

def sortKey (r : Rule) : Nat × String := (r.createdMs, r.id)

variable {id : String}

theorem update_sortKey {r r' : Rule} : ∀ {rules : List Rule}, Records.find Rule.id id rules = some r →
    sortKey r' = sortKey r → (Records.update Rule.id id (fun _ => r') rules).map sortKey = rules.map sortKey
  | [], hfind, _ => by cases hfind
  | b :: rules, hfind, hkey => by
    unfold Records.find at hfind
    unfold Records.update
    by_cases hb : b.id = id
    · rw [find?_cons_of_pos (by simpa using hb)] at hfind
      cases hfind
      rw [if_pos hb, map_cons, map_cons, hkey]
    · rw [find?_cons_of_neg (by simpa using hb)] at hfind
      rw [if_neg hb, map_cons, map_cons, update_sortKey hfind hkey]

theorem mem_update {r' r : Rule} : ∀ {rules : List Rule}, r ∈ Records.update Rule.id id (fun _ => r') rules → r = r' ∨ r ∈ rules
  | [], h => .inr h
  | b :: rules, h => by
    unfold Records.update at h
    split at h
    · rcases mem_cons.1 h with rfl | h
      · exact .inl rfl
      · exact .inr (mem_cons_of_mem _ h)
    · rcases mem_cons.1 h with rfl | h
      · exact .inr mem_cons_self
      · rcases mem_update h with rfl | h
        · exact .inl rfl
        · exact .inr (mem_cons_of_mem _ h)

theorem Kept.updated {r r' : Rule} (h : Kept rules) (hfind : Records.find Rule.id id rules = some r)
    (hform : r'.Form) (hid : r'.id = r.id) (hcreated : r'.createdMs = r.createdMs) :
    Kept (Records.update Rule.id id (fun _ => r') rules) := by
  have hr : r ∈ rules := Records.mem_of_find hfind
  have hkeys := update_sortKey hfind (show sortKey r' = sortKey r by rw [sortKey, sortKey, hid, hcreated])
  have hlen : (Records.update Rule.id id (fun _ => r') rules).length = rules.length := by
    simpa only [length_map] using congrArg List.length hkeys
  have hids : (Records.update Rule.id id (fun _ => r') rules).map Rule.id = rules.map Rule.id := by
    have := congrArg (List.map Prod.snd) hkeys
    rwa [List.map_map, List.map_map] at this
  have hsorted : ∀ l : List Rule, l.Pairwise ruleLe ↔ (l.map sortKey).Pairwise (fun a b => a.1 < b.1 ∨ a.1 = b.1 ∧ a.2 ≤ b.2) :=
    fun l => by
      rw [pairwise_map]
      rfl
  refine ⟨hlen ▸ h.count, hids ▸ h.ids, ?_, ?_, ?_, ?_⟩
  · rw [hsorted, hkeys, ← hsorted]
    exact h.sorted
  · intro r'' hr''
    rcases mem_update hr'' with rfl | hr''
    · rw [hid]
      exact h.valid r hr
    · exact h.valid r'' hr''
  · intro r'' hr''
    rcases mem_update hr'' with rfl | hr''
    · exact hform
    · exact h.form r'' hr''
  · intro r'' hr''
    rcases mem_update hr'' with rfl | hr''
    · rw [hcreated]
      exact h.created r hr
    · exact h.created r'' hr''

theorem Kept.added (h : Kept rules) (hcount : rules.length < maxRules) (hvalid : validId r.id = true)
    (hfresh : r.id ∉ rules.map Rule.id) (hform : r.Form) (hcreated : r.createdMs < 2 ^ 64) : Kept (sortRules (rules ++ [r])) := by
  have hall : ∀ {P : Rule → Prop}, (∀ r ∈ rules, P r) → P r → ∀ r' ∈ rules ++ [r], P r' := by
    intro P hrules hr r' hr'
    rcases mem_append.1 hr' with hr' | hr'
    · exact hrules r' hr'
    · rw [mem_singleton.1 hr']
      exact hr
  refine kept_sort ?_ ?_ (hall h.valid hvalid) (hall h.form hform) (hall h.created hcreated)
  · rw [length_append]
    exact hcount
  · rw [map_append, map_singleton, nodup_append]
    refine ⟨h.ids, nodup_singleton _, ?_⟩
    intro a ha b hb heq
    rw [mem_singleton] at hb
    exact hfresh (hb ▸ heq ▸ ha)

/-! ## What is loaded is kept -/

theorem Rule.created_of_ofJson {j : Json} (h : Rule.ofJson j = some r) : r.createdMs < 2 ^ 64 := by
  unfold Rule.ofJson at h
  split at h
  · simp only [bind_eq_bind, bind_eq_some_iff] at h
    obtain ⟨_, -, _, -, _, -, _, -, _, -, _, -, _, -, created, hcreated, h⟩ := h
    cases h
    unfold asUnsigned at hcreated
    split at hcreated
    · split at hcreated
      · rename_i hlt
        cases hcreated
        exact hlt.2
      · cases hcreated
    · cases hcreated
  · cases h

theorem created_of_mapM : ∀ {items : List Json} {rules : List Rule}, items.mapM Rule.ofJson = some rules → ∀ r ∈ rules, r.createdMs < 2 ^ 64
  | [], rules, h => by
    cases h
    exact nofun
  | j :: items, rules, h => by
    rw [mapM_cons] at h
    simp only [bind_eq_bind, bind_eq_some_iff] at h
    obtain ⟨r, hr, rest, hrest, h⟩ := h
    cases h
    intro r' hr'
    rcases mem_cons.1 hr' with rfl | hr'
    · exact Rule.created_of_ofJson hr
    · exact created_of_mapM hrest r' hr'

theorem checkRules_eq_some : ∀ {raw rules : List Rule} {ids : List String}, checkRules ids raw = some rules →
    rules.length = raw.length ∧ (rules.map Rule.id).Nodup ∧ (∀ r ∈ rules, r.id ∉ ids ∧ validId r.id = true ∧ r.Form) ∧
      ((∀ r ∈ raw, r.createdMs < 2 ^ 64) → ∀ r ∈ rules, r.createdMs < 2 ^ 64)
  | [], rules, ids, h => by
    cases h
    exact ⟨rfl, nodup_nil, nofun, nofun⟩
  | r :: raw, rules, ids, h => by
    rw [checkRules] at h
    split at h
    · cases h
    · rename_i hgood
      simp only [not_or, Bool.not_eq_false] at hgood
      split at h
      · cases h
      · rename_i r' hr'
        obtain ⟨rest, hrest, rfl⟩ := map_eq_some_iff.1 h
        obtain ⟨hform, hid, hcreated⟩ := Rule.normalize_form hr'
        obtain ⟨hlen, hnd, hall, htimes⟩ := checkRules_eq_some hrest
        refine ⟨by rw [length_cons, length_cons, hlen], ?_, ?_, ?_⟩
        · rw [map_cons, nodup_cons]
          refine ⟨?_, hnd⟩
          intro hmem
          obtain ⟨r'', hr'', heq⟩ := List.mem_map.1 hmem
          exact (hall r'' hr'').1 (heq ▸ mem_cons_self)
        · intro r'' hr''
          rcases mem_cons.1 hr'' with rfl | hr''
          · rw [hid]
            exact ⟨hgood.2, hgood.1, hform⟩
          · obtain ⟨hfresh, hrest⟩ := hall r'' hr''
            exact ⟨fun hmem => hfresh (mem_cons_of_mem _ hmem), hrest⟩
        · intro hraw r'' hr''
          rcases mem_cons.1 hr'' with rfl | hr''
          · rw [hcreated]
            exact hraw r mem_cons_self
          · exact htimes (fun r hr => hraw r (mem_cons_of_mem _ hr)) r'' hr''

theorem kept_of_parse {text : List UInt8} (h : parseRules text = some rules) : Kept rules := by
  unfold parseRules at h
  split at h
  · cases h
  · obtain ⟨items, -, h⟩ := bind_eq_some_iff.1 h
    obtain ⟨raw, hraw, h⟩ := bind_eq_some_iff.1 h
    split at h
    · cases h
    · rename_i hcount
      obtain ⟨checked, hchecked, rfl⟩ := map_eq_some_iff.1 h
      obtain ⟨hlen, hnd, hall, htimes⟩ := checkRules_eq_some hchecked
      exact kept_sort (hlen ▸ Nat.not_lt.1 hcount) hnd (fun r hr => (hall r hr).2.1) (fun r hr => (hall r hr).2.2)
        (htimes (created_of_mapM hraw))

/-! ## Runs -/

namespace RuleStore

/-- What `load` gives of the file, without moving it aside, is what is in memory. -/
def Loads (s : RuleStore) : Prop :=
  match s.file with
  | none => s.rules = []
  | some text => parseRules text = some s.rules

theorem serve_cases {s : RuleStore} {call : Call} {reply : Reply} (h : s.serve call = some reply) :
    (reply.saved = none ∧ reply.store = s) ∨ ∃ next answer, (Kept s.rules → Kept next) ∧ reply = s.commit next call.write answer := by
  cases call with
  | add patch draw now w =>
    rw [serve] at h
    split at h
    · cases h
    · rename_i hfresh
      cases h
      unfold add
      split
      · exact .inl ⟨rfl, rfl⟩
      · split
        · exact .inl ⟨rfl, rfl⟩
        · rename_i hcount
          split
          · exact .inl ⟨rfl, rfl⟩
          · rename_i rule hrule
            obtain ⟨hform, hid, hcreated⟩ := Rule.apply_form hrule
            refine .inr ⟨_, _, fun hk => hk.added (Nat.not_le.1 hcount) ?_ ?_ hform ?_, rfl⟩
            · rw [hid]
              exact validId_ruleId draw.toNat
            · rw [hid]
              exact hfresh
            · rw [hcreated]
              exact now.toNat_lt
  | update id patch w =>
    cases h
    unfold update
    split
    · exact .inl ⟨rfl, rfl⟩
    · rename_i rule hfind
      split
      · exact .inl ⟨rfl, rfl⟩
      · rename_i rule' hrule
        obtain ⟨hform, hid, hcreated⟩ := Rule.apply_form hrule
        exact .inr ⟨_, _, fun hk => hk.updated hfind hform hid hcreated, rfl⟩
  | remove id w =>
    cases h
    unfold remove
    dsimp only
    split
    · exact .inl ⟨rfl, rfl⟩
    · exact .inr ⟨_, _, fun hk => hk.sublist filter_sublist, rfl⟩

structure Inv (p : RuleStore × List Rule) : Prop where
  saved : p.1.rules = p.2
  kept : Kept p.1.rules
  loads : p.1.Loads

theorem inv_serve {s : RuleStore} {saved : List Rule} {call : Call} {reply : Reply} (hinv : Inv (s, saved))
    (hsynced : call.write.synced = true) (h : s.serve call = some reply) :
    Inv (reply.store, reply.saved.getD saved) ∧ ∀ error, reply.answer = .error error → reply.saved = none ∧ reply.store = s := by
  rcases serve_cases h with ⟨hsaved, hstore⟩ | ⟨next, answer, hnext, rfl⟩
  · rw [hsaved, hstore]
    exact ⟨hinv, fun _ _ => ⟨rfl, rfl⟩⟩
  · have hkept := hnext hinv.kept
    cases hw : call.write with
    | stored =>
      refine ⟨⟨rfl, hkept, parseRules_saveText hkept⟩, ?_⟩
      intro error herror
      cases herror
    | refused error => exact ⟨hinv, fun _ _ => ⟨rfl, rfl⟩⟩
    | unsynced error =>
      rw [hw] at hsynced
      cases hsynced

theorem inv_load (file : Option (List UInt8)) : Inv (load file, (load file).rules) := by
  have hempty : Kept [] := ⟨Nat.zero_le _, nodup_nil, List.Pairwise.nil, by simp, by simp, by simp⟩
  cases file with
  | none => exact ⟨rfl, hempty, rfl⟩
  | some text =>
    cases hparse : parseRules text with
    | none =>
      have hload : load (some text) = ⟨[], none⟩ := by
        rw [load, hparse]
      rw [hload]
      exact ⟨rfl, hempty, rfl⟩
    | some rules =>
      have hload : load (some text) = ⟨rules, some text⟩ := by
        rw [load, hparse]
      rw [hload]
      exact ⟨rfl, kept_of_parse hparse, hparse⟩

/-- **Rules survive a restart as long as no write fails after its rename.**  After any run of edits from any file the list in memory is the
one written last, `load` accepts the file and gives that list, and a call that fails changes neither. -/
theorem rules_survive (file : Option (List UInt8)) (calls : List Call) (s : RuleStore) (saved : List Rule)
    (hsynced : ∀ call ∈ calls, call.write.synced = true)
    (hrun : Runs.run after (load file, (load file).rules) calls = some (s, saved)) :
    s.rules = saved ∧ s.Loads ∧ load s.file = s ∧
      ∀ call reply error, call.write.synced = true → s.serve call = some reply → reply.answer = .error error →
        reply.saved = none ∧ reply.store = s := by
  have hstep : ∀ p p' call, Inv p → call.write.synced = true → after p call = some p' → Inv p' := by
    intro p p' call hp hsynced hafter
    obtain ⟨reply, hreply, rfl⟩ := map_eq_some_iff.1 hafter
    exact (inv_serve hp hsynced hreply).1
  have hinv : Inv (s, saved) := Runs.invariant hstep (inv_load file) (Runs.along_of_forall hsynced _) hrun
  refine ⟨hinv.saved, hinv.loads, ?_, fun call reply error hc hreply => (inv_serve hinv hc hreply).2 error⟩
  obtain ⟨rules, file⟩ := s
  have hloads := hinv.loads
  cases file with
  | none =>
    rw [show rules = [] from hloads]
    rfl
  | some text => rw [load, show parseRules text = some rules from hloads]

end RuleStore

def denyPatch : RulePatch := ⟨some "deny", none, none, none, some "*", none⟩

/-- The rule that `denyPatch` makes. -/
def deniedRule : Rule :=
  { id := "r-00000007", action := .deny, peer := "*", proto := "*", ports := "*", hosts := "*", note := "", createdMs := 5 }

theorem denyPatch_applies : (RuleStore.newRule 7 5).apply denyPatch = .ok deniedRule := by
  decide

theorem denyPatch_served (w : Write) : (RuleStore.load none).serve (.add denyPatch 7 5 w) =
    some ((RuleStore.load none).commit [deniedRule] w (.rule deniedRule)) := by
  show some (RuleStore.add _ _ 7 5 w) = _
  unfold RuleStore.add
  rfl

theorem denyPatch_run : Runs.run RuleStore.after (RuleStore.load none, (RuleStore.load none).rules) [.add denyPatch 7 5 .stored] =
    some (⟨[deniedRule], some (saveText [deniedRule])⟩, [deniedRule]) := by
  rfl

theorem rules_survive_added : RuleStore.load (some (saveText [deniedRule])) = ⟨[deniedRule], some (saveText [deniedRule])⟩ :=
  (RuleStore.rules_survive none [.add denyPatch 7 5 .stored] _ _ (by decide) denyPatch_run).2.2.1

/-- A write that fails after the rename: the call fails, and the rule is there after a restart. -/
theorem failed_add_returns : ∃ reply error, (RuleStore.load none).serve (.add denyPatch 7 5 (.unsynced "sync")) = some reply ∧
    reply.answer = .error error ∧ reply.saved = none ∧ reply.store.rules = [] ∧ reply.store ≠ RuleStore.load none ∧
    (RuleStore.load reply.store.file).rules = [deniedRule] := by
  have hkept : Kept [deniedRule] := by
    rcases RuleStore.serve_cases (denyPatch_served .stored) with ⟨hsaved, -⟩ | ⟨next, answer, hnext, heq⟩
    · cases hsaved
    · have hrules : next = [deniedRule] := Option.some.inj (congrArg Reply.saved heq).symm
      rw [← hrules]
      exact hnext (RuleStore.inv_load none).kept
  refine ⟨_, "sync", denyPatch_served _, rfl, rfl, rfl, ?_, ?_⟩
  · intro heq
    exact some_ne_none _ (congrArg RuleStore.file heq)
  · show (RuleStore.load (some (saveText [deniedRule]))).rules = _
    rw [RuleStore.load, parseRules_saveText hkept]

end Mistl.ProposalRules
