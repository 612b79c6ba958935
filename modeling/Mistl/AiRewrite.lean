import Mistl.Lib.Checks
import Mistl.Lib.JsonCanon
import Mistl.Lib.JsonRead
/-!
# AiRewrite — the members of a body rewritten in place

`rewrite_object` of `ai/oai_tunnel.rs`.  `Serde` is how `serde_json` reads an object: keys unescaped, values as raw text.
-/
open List Mistl.Json

namespace Mistl.Ai
namespace Rewrite

/-! ## The code -/

/-- A member read: its key, and the text of its value as it stands -/
abbrev Member := String × List Char

def member (m : Member) : List Char := writeString m.1 ++ ':' :: m.2

def joined : List Member → List Char
  | [] => []
  | [m] => member m
  | m :: n :: ms => member m ++ ',' :: joined (n :: ms)

def openText (ms : List Member) : List Char := '\x7b' :: joined ms

def objectText (ms : List Member) : List Char := openText ms ++ ['\x7d']

/-- What is relied on: a raw text is that of a value, and an object of such members is read as these. -/
structure Serde where
  IsValue : List Char → Prop
  members : List UInt8 → Option (List Member)
  isValue_of_members : ∀ {bytes ms}, members bytes = some ms → ∀ m ∈ ms, IsValue m.2
  members_objectText : ∀ {ms}, (∀ m ∈ ms, IsValue m.2) → members (utf8 (objectText ms)) = some ms

/-- The closure `push` -/
def push (out : List Char) (key : String) (raw : List Char) : List Char :=
  (if 1 < out.length then out ++ [','] else out) ++ writeString key ++ ':' :: raw

variable (set : List (String × Json)) (remove : List String)

/-- The loop over the members: the text so far, and the keys of `set` that are written -/
def rewriteMembers : List Member → List Char → List String → List Char × List String
  | [], out, written => (out, written)
  | (key, raw) :: members, out, written =>
    if remove.contains key || written.contains key then rewriteMembers members out written
    else match set.find? (fun e => e.1 == key) with
      | some (k, value) => rewriteMembers members (push out key value.write) (written ++ [k])
      | none => rewriteMembers members (push out key raw) written

/-- The loop over `set` -/
def appendSet (written : List String) : List (String × Json) → List Char → List Char
  | [], out => out
  | (key, value) :: set, out => appendSet written set (if written.contains key then out else push out key value.write)

def rewriteObject (S : Serde) (bytes : List UInt8) : Except String (List UInt8) := do
  let members ← okOr (S.members bytes) "request_rejected"
  let (out, written) := rewriteMembers set remove members ['\x7b'] []
  .ok (utf8 (appendSet written set out ++ ['\x7d']))

/-! ## The text as members -/

theorem joined_concat : ∀ (ms : List Member) (n m : Member), joined (n :: ms ++ [m]) = joined (n :: ms) ++ ',' :: member m
  | [], _, _ => rfl
  | k :: ms, n, m => by
    change member n ++ ',' :: joined (k :: ms ++ [m]) = (member n ++ ',' :: joined (k :: ms)) ++ ',' :: member m
    rw [joined_concat ms k m, append_assoc, cons_append]

theorem push_openText (ms : List Member) (key : String) (raw : List Char) :
    push (openText ms) key raw = openText (ms ++ [(key, raw)]) := by
  cases ms with
  | nil => simp [push, openText, joined, member]
  | cons n ms =>
    have hlong : 1 < (openText (n :: ms)).length := by
      cases ms <;> simp [openText, joined, member]
    rw [push, if_pos hlong, openText, openText, joined_concat]
    simp [member]

/-! ## The members of the result -/

/-- A member that is neither set nor removed -/
def other (m : Member) : Bool := !(set.map Prod.fst).contains m.1 && !remove.contains m.1

theorem other_of_set {m : Member} (h : m.1 ∈ set.map Prod.fst) : other set remove m = false := by
  rw [other, contains_iff_mem.mpr h]
  rfl

def setMember (e : String × Json) : Member := (e.1, e.2.write)

/-- What the loop makes of some members, from the keys written before them to those written after -/
structure Rewrites (members new : List Member) (written written' : List String) : Prop where
  others : new.filter (other set remove) = members.filter (other set remove)
  notRemoved : ∀ m ∈ new, m.1 ∉ remove
  once : ∀ e ∈ set, new.filter (fun m => m.1 == e.1) = if e.1 ∈ written then [] else if e.1 ∈ written' then [setMember e] else []
  subset : written ⊆ written'
  values : ∀ m ∈ new, m ∈ members ∨ ∃ e ∈ set, m = setMember e

theorem rewriteMembers_spec (hset : (set.map Prod.fst).Nodup) : ∀ (members before : List Member) (written : List String),
    (∀ k ∈ written, k ∈ set.map Prod.fst) → ∃ new written',
      rewriteMembers set remove members (openText before) written = (openText (before ++ new), written') ∧
        Rewrites set remove members new written written'
  | [], before, written, _ =>
    ⟨[], written, by rw [append_nil]; rfl, rfl, nofun, fun e _ => by by_cases h : e.1 ∈ written <;> simp [h], Subset.refl _, nofun⟩
  | (key, raw) :: members, before, written, hw => by
    rw [rewriteMembers]
    by_cases hskip : (remove.contains key || written.contains key) = true
    · rw [if_pos hskip]
      obtain ⟨new, written', heq, h⟩ := rewriteMembers_spec hset members before written hw
      refine ⟨new, written', heq, ?_, h.notRemoved, h.once, h.subset, fun m hm => (h.values m hm).imp_left (mem_cons_of_mem _)⟩
      have hother : other set remove (key, raw) = false := by
        rcases Bool.or_eq_true_iff.mp hskip with hr | hk
        · simp [other, contains_iff_mem.mp hr]
        · exact other_of_set set remove (hw key (contains_iff_mem.mp hk))
      rw [h.others, filter_cons_of_neg (by rw [hother]; decide)]
    · rw [if_neg hskip]
      obtain ⟨hremove, hwritten⟩ : key ∉ remove ∧ key ∉ written := by simpa using hskip
      cases hfind : set.find? (fun e => e.1 == key) with
      | some e =>
        have he := mem_of_find?_eq_some hfind
        obtain rfl : e.1 = key := by simpa using find?_some hfind
        obtain ⟨new, written', heq, h⟩ := rewriteMembers_spec hset members (before ++ [setMember e]) (written ++ [e.1])
          (fun k hk => (mem_append.mp hk).elim (hw k) (fun h1 => by
            rw [mem_singleton.mp h1]
            exact mem_map_of_mem he))
        have hnew : e.1 ∈ written' := h.subset (mem_append_right _ (mem_singleton_self _))
        refine ⟨setMember e :: new, written', ?_, ?_, ?_, fun e' he' => ?_, ?_, ?_⟩
        · change rewriteMembers set remove members (push (openText before) e.1 e.2.write) (written ++ [e.1]) = _
          rw [push_openText]
          simpa [setMember] using heq
        · have hother : ∀ t, other set remove (e.1, t) = false := fun t => other_of_set set remove (mem_map_of_mem he)
          rw [filter_cons_of_neg, h.others] <;> simp [setMember, hother]
        · exact forall_mem_cons.mpr ⟨hremove, h.notRemoved⟩
        · have honce := h.once e' he'
          by_cases hk : e'.1 = e.1
          · obtain rfl := inj_on_of_nodup_map hset he' he hk
            rw [if_pos (mem_append_right _ (mem_singleton_self _))] at honce
            rw [filter_cons_of_pos (by simp [setMember]), honce, if_neg hwritten, if_pos hnew]
          · have hne : e'.1 ∈ written ++ [e.1] ↔ e'.1 ∈ written := by simp [hk]
            rw [filter_cons_of_neg (by simpa [setMember] using Ne.symm hk), honce]
            simp only [hne]
        · exact fun k hk => h.subset (mem_append_left _ hk)
        · exact forall_mem_cons.mpr ⟨.inr ⟨e, he, rfl⟩, fun m hm => (h.values m hm).imp_left (mem_cons_of_mem _)⟩
      | none =>
        have hfree : key ∉ set.map Prod.fst := fun hk => by
          obtain ⟨e, he, rfl⟩ := mem_map.mp hk
          exact find?_eq_none.mp hfind e he (beq_self_eq_true _)
        obtain ⟨new, written', heq, h⟩ := rewriteMembers_spec hset members (before ++ [(key, raw)]) written hw
        have hother : other set remove (key, raw) = true := by simp [other, hremove, hfree]
        refine ⟨(key, raw) :: new, written', ?_, ?_, ?_, fun e he => ?_, h.subset, ?_⟩
        · rw [push_openText]
          simpa [setMember] using heq
        · rw [filter_cons_of_pos hother, filter_cons_of_pos hother, h.others]
        · exact forall_mem_cons.mpr ⟨hremove, h.notRemoved⟩
        · have hne : key ≠ e.1 := fun hk => hfree (hk ▸ mem_map_of_mem he)
          rw [filter_cons_of_neg (by simpa using hne)]
          exact h.once e he
        · exact forall_mem_cons.mpr ⟨.inl mem_cons_self, fun m hm => (h.values m hm).imp_left (mem_cons_of_mem _)⟩

theorem appendSet_eq (written : List String) : ∀ (rest : List (String × Json)) (before : List Member),
    appendSet written rest (openText before) = openText (before ++ (rest.filter (fun e => !written.contains e.1)).map setMember)
  | [], before => by simp [appendSet]
  | (key, value) :: rest, before => by
    rw [appendSet]
    by_cases h : written.contains key = true
    · rw [if_pos h, appendSet_eq written rest, filter_cons_of_neg (by simpa using h)]
    · rw [if_neg h, push_openText, appendSet_eq written rest, filter_cons_of_pos (by simpa using h), append_assoc]
      rfl

/-- The object a body is rewritten to has each key of `set` once, with its new value, which the first and the last of its
members give alike; none of `remove`; and its other members in their order, with the text of their values. -/
theorem rewriteObject_exact (S : Serde) {bytes : List UInt8} {ms : List Member} (hms : S.members bytes = some ms)
    (hset : (set.map Prod.fst).Nodup) (hdisj : ∀ e ∈ set, e.1 ∉ remove) (hvalue : ∀ e ∈ set, S.IsValue e.2.write) :
    ∃ out text, rewriteObject set remove S bytes = .ok text ∧ S.members text = some out ∧
      (∀ e ∈ set, out.filter (fun m => m.1 == e.1) = [setMember e] ∧
        out.find? (fun m => m.1 == e.1) = some (setMember e) ∧ out.reverse.find? (fun m => m.1 == e.1) = some (setMember e)) ∧
      (∀ m ∈ out, m.1 ∉ remove) ∧ out.filter (other set remove) = ms.filter (other set remove) := by
  obtain ⟨new, written, heq, h⟩ := rewriteMembers_spec set remove hset ms [] [] nofun
  let rest := (set.filter (fun e => !written.contains e.1)).map setMember
  have hrest : ∀ m ∈ rest, ∃ e ∈ set, m = setMember e := fun m hm => by
    obtain ⟨e, he, rfl⟩ := mem_map.mp hm
    exact ⟨e, mem_of_mem_filter he, rfl⟩
  refine ⟨new ++ rest, _, ?_, S.members_objectText ?_, fun e he => ?_, ?_, ?_⟩
  · have hopen : rewriteMembers set remove ms ['\x7b'] [] = (openText new, written) := heq
    simp only [rewriteObject, hms, okOr, bind, Except.bind, hopen, appendSet_eq]
    rfl
  · refine forall_mem_append.mpr ⟨fun m hm => ?_, fun m hm => ?_⟩
    · rcases h.values m hm with hm | ⟨e, he, rfl⟩
      · exact S.isValue_of_members hms m hm
      · exact hvalue e he
    · obtain ⟨e, he, rfl⟩ := hrest m hm
      exact hvalue e he
  · refine (fun hone => ⟨hone, by rw [← head?_filter, hone]; rfl, by rw [← head?_filter, filter_reverse, hone]; rfl⟩) ?_
    have hone : set.filter (fun x => x.1 == e.1) = [e] := by
      have hsame : ∀ x ∈ set, (x.1 == e.1) = (x == e) := fun x hx => by
        rw [Bool.eq_iff_iff, beq_iff_eq, beq_iff_eq]
        exact ⟨inj_on_of_nodup_map hset hx he, congrArg Prod.fst⟩
      rw [filter_congr hsame, filter_beq, count_eq_one_of_mem (Nodup.of_map _ hset) he]
      rfl
    have hkeys : (fun m => m.1 == e.1) ∘ setMember = fun x : String × Json => x.1 == e.1 := rfl
    rw [filter_append, h.once e he, filter_map, hkeys, filter_filter]
    have hswap : ∀ x ∈ set, (x.1 == e.1 && !written.contains x.1) = (!written.contains e.1 && x.1 == e.1) := fun x _ => by
      grind
    rw [filter_congr hswap, ← filter_filter, hone]
    by_cases hw : e.1 ∈ written <;> simp [hw]
  · refine forall_mem_append.mpr ⟨h.notRemoved, fun m hm => ?_⟩
    obtain ⟨e, he, rfl⟩ := hrest m hm
    exact hdisj e he
  · have hnone : rest.filter (other set remove) = [] := by
      refine filter_eq_nil_iff.mpr fun m hm => ?_
      obtain ⟨e, he, rfl⟩ := hrest m hm
      rw [other_of_set (m := setMember e) set remove (mem_map_of_mem he)]
      decide
    rw [filter_append, h.others, hnone, append_nil]

/-! ## A reader of compact texts -/

theorem writeFields_eq : ∀ fields : List (String × Json), writeFields fields = joined (fields.map setMember)
  | [] => rfl
  | [(_, _)] => rfl
  | (n, j) :: k :: fields => by
    rw [writeFields, writeFields_eq (k :: fields)]
    simp [joined, member, setMember]

def compact : Serde where
  IsValue text := ∃ j : Json, Json.Repr j ∧ j.nesting + 1 < maxDepth ∧ j.write = text
  members bytes := match fromSlice bytes with
    | some (.obj fields) => some (fields.map setMember)
    | _ => none
  isValue_of_members {bytes ms} h m hm := by
    split at h
    · rename_i fields hread
      cases h
      obtain ⟨f, hf, rfl⟩ := mem_map.mp hm
      obtain ⟨hrepr, hnest⟩ := fromSlice_repr hread
      exact ⟨f.2, reprFields_iff.mp hrepr f hf, lt_of_le_of_lt (Nat.add_le_add_right (nestingFields_le.mp le_rfl f hf) 1) hnest, rfl⟩
    · cases h
  members_objectText {ms} h := by
    have hfields : ∃ fields : List (String × Json), fields.map setMember = ms ∧
        ∀ f ∈ fields, Json.Repr f.2 ∧ f.2.nesting + 1 < maxDepth := by
      induction ms with
      | nil => exact ⟨[], rfl, nofun⟩
      | cons m ms ih =>
        obtain ⟨⟨j, hj, hd, hw⟩, hms⟩ := forall_mem_cons.mp h
        obtain ⟨fields, rfl, hfields⟩ := ih hms
        exact ⟨(m.1, j) :: fields, by simp [setMember, hw], forall_mem_cons.mpr ⟨⟨hj, hd⟩, hfields⟩⟩
    obtain ⟨fields, rfl, hfields⟩ := hfields
    have hread : fromSlice (toVec (.obj fields)) = some (.obj fields) := by
      refine fromSlice_toVec _ (by exact reprFields_iff.mpr fun f hf => (hfields f hf).1) ?_
      have hle : nestingFields fields ≤ maxDepth - 2 := nestingFields_le.mpr fun f hf => by
        have := (hfields f hf).2
        omega
      exact lt_of_le_of_lt (Nat.add_le_add_right hle 1) (by decide)
    have htext : utf8 (objectText (fields.map setMember)) = toVec (.obj fields) := by
      rw [toVec, Json.write, writeFields_eq]
      rfl
    rw [htext, hread]

/-- Two spellings of one key -/
def spelled : List UInt8 := utf8 "\x7b\"model\":\"a\",\"temperature\":1,\"mod\\u0065l\":[2]\x7d".toList

theorem rewriteObject_exact_spelled : ∃ out text,
    rewriteObject [("model", .str "m")] ["temperature"] compact spelled = .ok text ∧ compact.members text = some out ∧
      out.filter (fun m => m.1 == "model") = [setMember ("model", .str "m")] := by
  have hms : compact.members spelled =
      some [("model", "\"a\"".toList), ("temperature", ['1']), ("model", "[2]".toList)] := by decide +kernel
  obtain ⟨out, text, hok, hread, hone, -⟩ := rewriteObject_exact [("model", .str "m")] ["temperature"] compact hms
    (by decide) (by decide) (fun e he => by
      rw [mem_singleton.mp he]
      exact ⟨.str "m", by trivial, by decide, rfl⟩)
  exact ⟨out, text, hok, hread, (hone _ mem_cons_self).1⟩

end Rewrite
end Mistl.Ai
