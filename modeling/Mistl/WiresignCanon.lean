import Mistl.EscrowProtocol
import Mistl.Lib.JsonCanon
/-!
# WiresignCanon — the canonical text stands for one value

`stableStringify` writes the canonical form of a value, so where every number is an integer its text is read back as
that value: two values have one text exactly when they are the same.
-/
open List Mistl.Json

namespace Mistl.Wiresign

open Json (writeString canon same Distinct Integral)

theorem join_writeItems : ∀ items : List Json, writeItems items = join (items.map Json.write)
  | [] => rfl
  | [_] => by rfl
  | j :: k :: l => by
    rw [writeItems, join_writeItems (k :: l)]
    rfl

def member (f : String × Json) : List Char := writeString f.1 ++ ':' :: f.2.write

theorem join_writeFields : ∀ fields : List (String × Json), writeFields fields = join (fields.map member)
  | [] => rfl
  | [(_, _)] => by rfl
  | (n, j) :: k :: l => by
    rw [writeFields, join_writeFields (k :: l)]
    simp [join, member]

mutual
theorem stableStringify_eq : ∀ j : Json, stableStringify j = (canon j).write
  | .null | .bool true | .bool false | .int _ | .float _ | .str _ => by rw [stableStringify, canon, Json.write]
  | .arr items => by rw [stableStringify, canon, Json.write, stableItems_eq, join_writeItems]
  | .obj fields => by
    have hsort := map_insertionSort nameLe (fun a b => keyLe a b = true) (fun f => (f.1, Json.write f.2))
      (canonFields fields) (fun a _ b _ => (decide_eq_true_iff (p := a.1 ≤ b.1)).symm)
    rw [stableStringify, canon, Json.write, stableFields_eq, join_writeFields, ← hsort, map_map]
    rfl
theorem stableItems_eq : ∀ items : List Json, stableItems items = (canonItems items).map Json.write
  | [] => rfl
  | j :: l => by rw [stableItems, canonItems, map_cons, stableStringify_eq j, stableItems_eq l]
theorem stableFields_eq : ∀ fields : List (String × Json),
    stableFields fields = (canonFields fields).map (fun f => (f.1, Json.write f.2))
  | [] => rfl
  | (n, j) :: l => by rw [stableFields, canonFields, map_cons, stableStringify_eq j, stableFields_eq l]
end

/-- A value as a deserializer builds it, all its numbers integers. -/
structure Exact (j : Json) : Prop where
  integral : Integral j
  distinct : Distinct j

variable {a b : Json}

theorem stableStringify_inj (ha : Exact a) (hb : Exact b) : stableStringify a = stableStringify b ↔ same a b = true := by
  rw [same_iff_canon ha.distinct hb.distinct, stableStringify_eq, stableStringify_eq]
  constructor
  · exact write_inj (canon_repr ha.integral).1 (canon_repr hb.integral).1
  · intro h
    rw [h]

theorem parse_stableStringify (ha : Exact a) {depth : Nat} (hd : nesting a < depth) :
    ∃ c, parseWithin depth (stableStringify a) = some c ∧ same c a = true := by
  obtain ⟨hr, hn⟩ := canon_repr ha.integral
  rw [stableStringify_eq]
  exact ⟨_, parseWithin_write hr (by omega), same_canon ha.distinct⟩

theorem Exact.unsigned {fields : List (String × Json)} (h : Exact (.obj fields)) (key : String) :
    Exact (.obj (fields.filter (fun f => f.1 != key))) := by
  obtain ⟨hi, hd⟩ := h
  rw [Integral, integralFields_iff] at hi
  rw [Distinct, distinctFields_iff] at hd
  refine ⟨?_, ?_⟩
  · rw [Integral, integralFields_iff]
    exact fun f hf => hi f (mem_filter.1 hf).1
  · rw [Distinct, distinctFields_iff]
    exact ⟨hd.1.sublist (filter_sublist.map _), fun f hf => hd.2 f (mem_filter.1 hf).1⟩

theorem utf8_inj {a b : List Char} (h : utf8 a = utf8 b) : a = b := by
  have ha := fromUTF8?_utf8 a
  rw [h, fromUTF8?_utf8] at ha
  have := congrArg String.toList (Option.some.inj ha)
  rw [String.toList_ofList, String.toList_ofList] at this
  exact this.symm

end Wiresign

namespace Escrow

open Json (same)
open Wiresign (Exact)

structure Head.Words (h : Head) : Prop where
  v : h.v < 2 ^ 8
  seq : h.seq < 2 ^ 64
  size : h.size < 2 ^ 64
  at_ : h.at_ < 2 ^ 64

theorem Head.Words.exact {h : Head} (hw : h.Words) : Exact h.toJson := by
  have hparent : Integral (optStr h.parent) ∧ Distinct (optStr h.parent) := by
    cases h.parent <;> simp [optStr, Integral, Distinct]
  obtain ⟨h1, h2, h3, h4⟩ := hw
  refine ⟨?_, ?_⟩
  · rw [Head.toJson]
    simp only [IntegralFields, Integral, hparent.1, true_and, and_true]
    omega
  · rw [Head.toJson]
    simp only [DistinctFields, Distinct, hparent.2, map_cons]
    decide

theorem same_optStr {a b : Option String} : same (optStr a) (optStr b) = true ↔ a = b := by
  cases a <;> cases b <;> simp [optStr, same]

variable {h k : Head}

theorem same_head (hs : same h.toJson k.toJson = true) : h = k := by
  have hall := same_obj_forall₂ hs rfl (by simp only [map_cons]; decide)
  obtain ⟨⟩ := h
  obtain ⟨⟩ := k
  simp only [forall₂_cons, same_int, same_str, same_optStr, Nat.cast_inj] at hall
  simp only [Head.mk.injEq]
  tauto

theorem removeSig (h : Head) : removeField "sig" h.toJson =
    .obj [("v", .int h.v), ("type", .str h.kind), ("slot", .str h.slot), ("seq", .int h.seq), ("parent", optStr h.parent),
      ("cid", .str h.cid), ("size", .int h.size), ("sha256", .str h.sha256), ("comp", .str h.comp),
      ("schema", .str h.schema), ("writer", .str h.writer), ("at", .int h.at_)] := by
  simp [removeField, Head.toJson]

theorem same_unsigned_head (hs : same (removeField "sig" h.toJson) (removeField "sig" k.toJson) = true) :
    { h with sig := k.sig } = k := by
  rw [removeSig, removeSig] at hs
  have hall := same_obj_forall₂ hs rfl (by simp only [map_cons]; decide)
  obtain ⟨⟩ := k
  simp only [forall₂_cons, same_int, same_str, same_optStr, Nat.cast_inj] at hall
  simp only [Head.mk.injEq]
  tauto

theorem Head.signingPayload_inj (hh : h.Words) (hk : k.Words)
    (he : h.signingPayload = k.signingPayload) : { h with sig := k.sig } = k := by
  have htext := append_cancel_left (Wiresign.utf8_inj he)
  exact same_unsigned_head ((Wiresign.stableStringify_inj (hh.exact.unsigned "sig") (hk.exact.unsigned "sig")).1 htext)

theorem Head.document_inj_words (hh : h.Words) (hk : k.Words) (he : h.document = k.document) : h = k :=
  same_head ((Wiresign.stableStringify_inj hh.exact hk.exact).1 (Wiresign.utf8_inj he))

theorem Delete.signingPayload_inj {d e : Delete} (hd : d.seq < 2 ^ 64) (he : e.seq < 2 ^ 64)
    (h : d.signingPayload = e.signingPayload) : { d with sig := e.sig } = e := by
  have hexact : ∀ x : Delete, x.seq < 2 ^ 64 → Exact (.obj [("slot", .str x.slot), ("seq", .int x.seq), ("head", .str x.head)]) := by
    intro x hx
    refine ⟨?_, ?_⟩
    · simp only [IntegralFields, Integral, true_and, and_true]
      omega
    · simp only [DistinctFields, Distinct, map_cons]
      decide
  have hs := (Wiresign.stableStringify_inj (hexact d hd) (hexact e he)).1 (append_cancel_left (Wiresign.utf8_inj h))
  have hall := same_obj_forall₂ hs rfl (by simp only [map_cons]; decide)
  obtain ⟨⟩ := e
  simp only [forall₂_cons, same_int, same_str, Nat.cast_inj] at hall
  simp only [Delete.mk.injEq]
  tauto

end Escrow

namespace Wiresign

open Json (same)

/-- **The canonical text is injective.**  Values whose numbers are integers have one text exactly when they are the same, and
the text is read back as the value; so a wire signature, a head's signature or hash and a deletion's signature stand for
one message. -/
theorem canonical_text_injective : (∀ a b, Exact a → Exact b → (stableStringify a = stableStringify b ↔ same a b = true)) ∧
    (∀ a depth, Exact a → nesting a < depth → ∃ c, parseWithin depth (stableStringify a) = some c ∧ same c a = true) ∧
    (∀ f g, Exact (.obj f) → Exact (.obj g) → signingPayload f = signingPayload g →
      same (.obj (f.filter (fun m => m.1 != "signature"))) (.obj (g.filter (fun m => m.1 != "signature"))) = true) ∧
    (∀ h k : Escrow.Head, h.Words → k.Words → (h.signingPayload = k.signingPayload → { h with sig := k.sig } = k) ∧
      ∀ C : Crates, (C.digest h.document = C.digest k.document → h.document = k.document) → h.hash C = k.hash C → h = k) ∧
    (∀ d e : Escrow.Delete, d.seq < 2 ^ 64 → e.seq < 2 ^ 64 → d.signingPayload = e.signingPayload → { d with sig := e.sig } = e) := by
  refine ⟨fun a b => stableStringify_inj, fun a depth ha hd => parse_stableStringify ha hd, fun f g hf hg he => ?_,
    fun h k hh hk => ⟨Escrow.Head.signingPayload_inj hh hk, fun C hC he => ?_⟩, fun d e hd he => Escrow.Delete.signingPayload_inj hd he⟩
  · exact (stableStringify_inj (hf.unsigned "signature") (hg.unsigned "signature")).1 he
  · exact Escrow.Head.document_inj_words hh hk (hC he)

theorem canonical_text_injective_order :
    stableStringify (.obj [("b", .int 1), ("a", .str "\n")]) = stableStringify (.obj [("a", .str "\n"), ("b", .int 1)]) := by
  have hexact : Exact (.obj [("b", .int 1), ("a", .str "\n")]) ∧ Exact (.obj [("a", .str "\n"), ("b", .int 1)]) := by
    refine ⟨⟨?_, ?_⟩, ⟨?_, ?_⟩⟩ <;> simp +decide [Integral, IntegralFields, Distinct, DistinctFields]
  exact (canonical_text_injective.1 _ _ hexact.1 hexact.2).2 (by decide)

end Mistl.Wiresign
