import Mistl.NostrSync
/-!
# NostrBatches — batches lose nothing

What a receiver reads from the batches of a page.  An event of the store takes at least 256 bytes, so that a batch never
has more events than a receiver accepts; and one that fits a batch alone fits a message of its own.
-/
open List Mistl.Json

namespace Mistl.Nostr

/-! ## The length of an event -/

theorem length_escapeChar_ge (c : Char) : c.utf8Size ≤ (utf8 (escapeChar c)).length := by
  by_cases hc : c.toNat < 128
  · obtain ⟨d, rest, hd⟩ : ∃ d rest, escapeChar c = d :: rest := by
      unfold escapeChar
      repeat' split
      all_goals exact ⟨_, _, rfl⟩
    have hpos := d.utf8Size_pos
    rw [hd, utf8Size_ascii hc, utf8_cons, length_append, String.length_utf8EncodeChar]
    omega
  · have hplain : escapeChar c = [c] := by
      unfold escapeChar
      rw [if_neg, if_neg, if_neg, if_neg, if_neg, if_neg, if_neg, if_neg]
      · omega
      all_goals
        rintro rfl
        exact hc (by decide)
    rw [hplain, utf8_cons, utf8_nil, append_nil, String.length_utf8EncodeChar]

theorem stringSize_ge (s : String) : s.utf8ByteSize ≤ stringSize s := by
  have hflat : ∀ l : List Char, (String.ofList l).utf8ByteSize ≤ (utf8 (l.flatMap escapeChar)).length := by
    intro l
    induction l with
    | nil => exact Nat.zero_le _
    | cons c l ih =>
      have hc := length_escapeChar_ge c
      rw [flatMap_cons, utf8_append, length_append, String.ofList_cons, String.utf8ByteSize_append, String.utf8ByteSize_singleton]
      omega
  have hs := hflat s.toList
  rw [String.ofList_toList] at hs
  rw [stringSize, writeString, utf8_cons, utf8_append, length_append, length_append]
  omega

theorem Event.Shaped.length_ge {e : Event} (h : e.Shaped) : 256 ≤ (toVec e.toJson).length := by
  have hsize : ∀ {s : String} {n : Nat}, isLowerHex s n = true → n ≤ stringSize s := by
    intro s n hs
    rw [isLowerHex, Bool.and_eq_true, beq_iff_eq] at hs
    rw [← hs.1]
    exact stringSize_ge s
  have hid := hsize h.id
  have hpubkey := hsize h.pubkey
  have hsig := hsize h.sig
  show 256 ≤ Json.size e.toJson
  rw [Event.toJson, size_obj]
  simp only [fieldsSize, size_str]
  omega

theorem length_readEvent (e : Event) : (toVec (readEvent e)).length = (toVec e.toJson).length := by
  show Json.size (readEvent e) = Json.size e.toJson
  rw [readEvent, Event.toJson, size_obj, size_obj]
  simp only [fieldsSize]
  omega

theorem value_envelope (e : Event) : Json.value (.obj [("t", .str tag), ("op", .str "ev"), ("ev", e.toJson)]) =
    .obj [("ev", readEvent e), ("op", .str "ev"), ("t", .str tag)] := by
  simp +decide only [valueFields, Json.value, setField, if_true, value_toJson]

theorem eventBytes_isSome (e : Event) : (eventBytes e).isSome = true ↔ 38 + (toVec e.toJson).length ≤ maxWireBytes := by
  have hlength : (toVec (Json.value (.obj [("t", .str tag), ("op", .str "ev"), ("ev", e.toJson)]))).length
      = 38 + (toVec e.toJson).length := by
    have hnames : stringSize "ev" = 4 ∧ stringSize "op" = 4 ∧ stringSize "t" = 3 ∧ stringSize tag = 16 := by decide
    rw [value_envelope, ← length_readEvent]
    show Json.size _ = 38 + Json.size (readEvent e)
    rw [size_obj]
    simp only [fieldsSize, size_str]
    omega
  unfold eventBytes eventEnvelope
  simp only [hlength]
  split
  · rename_i hlt
    exact iff_of_false Bool.false_ne_true (not_le.2 hlt)
  · rename_i hle
    exact iff_of_true rfl (not_lt.1 hle)

/-! ## Batches -/

/-- An event fits a batch alone: one that others follow, and one that ends the page. -/
def Event.FitsAlone (full : Bool) (bound : Option Nat) (e : Event) : Prop :=
  (batchOf [e] true none).length ≤ maxWireBytes ∧ (batchOf [e] full bound).length ≤ maxWireBytes

instance (full : Bool) (bound : Option Nat) (e : Event) : Decidable (e.FitsAlone full bound) := by
  unfold Event.FitsAlone
  infer_instance

theorem fits_iff (full : Bool) (bound : Option Nat) (e : Event) : e.Fits (batchOverhead full bound) ↔ e.FitsAlone full bound := by
  have hprefix : 38 ≤ batchPrefix.length := by decide
  have hlength : ∀ more bound, (batchOf [e] more bound).length
      = batchPrefix.length + (toVec e.toJson).length + (batchSuffix more bound).length := by
    intro more bound
    rw [batchOf, finishBatch, map_singleton, joined, length_append, length_append]
  unfold Event.Fits Event.FitsAlone batchOverhead
  rw [eventBytes_isSome, hlength, hlength]
  omega

theorem length_joined_ge : ∀ {l : List (List UInt8)}, (∀ b ∈ l, 256 ≤ b.length) → 256 * l.length ≤ (joined l).length
  | [], _ => Nat.le_refl _
  | [b], h => by
    have hb := h b mem_cons_self
    rw [joined]
    omega
  | b :: c :: l, h => by
    have ih := length_joined_ge (fun x hx => h x (mem_cons_of_mem b hx))
    have hb := h b mem_cons_self
    rw [joined, length_append]
    simp only [length_cons] at ih ⊢
    omega

theorem length_batch_le {c : List Event} {more : Bool} {bound : Option Nat} (hshaped : ∀ e ∈ c, e.Shaped)
    (hlen : (batchOf c more bound).length ≤ maxWireBytes) : c.length ≤ maxPageEvents := by
  have hjoined : 256 * (c.map (fun e => toVec e.toJson)).length
      ≤ (joined (c.map (fun e => toVec e.toJson))).length := by
    refine length_joined_ge (fun b hb => ?_)
    obtain ⟨e, he, rfl⟩ := mem_map.1 hb
    exact (hshaped e he).length_ge
  rw [batchOf, finishBatch, length_append, length_append] at hlen
  rw [length_map] at hjoined
  simp only [maxWireBytes, maxPageEvents] at hlen ⊢
  omega

theorem decode_batchOf {c : List Event} {more : Bool} {bound : Option Nat} (hshaped : ∀ e ∈ c, e.Shaped) (hne : c ≠ [])
    (hb : ∀ b, bound = some b → b < 2 ^ 64) (hlen : (batchOf c more bound).length ≤ maxWireBytes) :
    Wire.decode (batchOf c more bound) = some (.batch (c.map readEvent) more bound) :=
  decode_finishBatch hshaped hne (length_batch_le hshaped hlen) hb (hlen.trans (by decide))

/-- **Batches lose nothing**: they are within the limit of a message; a receiver reads from them, in order, the events that
fit a batch alone; and the last one alone has the marker of the page. -/
theorem packBatches_lossless (events : List Event) (full : Bool) (hshaped : ∀ e ∈ events, e.Shaped) :
    (∀ b ∈ packBatches events full, b.length ≤ maxWireBytes) ∧
    ∃ decoded : List (List Event), decoded.flatten = events.filter (fun e => e.FitsAlone full (if full then oldest events else none)) ∧
      (∀ c ∈ decoded, c.map (fun e => Event.parse (readEvent e)) = c.map .ok) ∧
      (packBatches events full).map Wire.decode = decoded.dropLast.map (fun c => some (.batch (c.map readEvent) true none)) ++
          decoded.getLast?.toList.map (fun c => some (.batch (c.map readEvent) full (if full then oldest events else none))) ∧
      (decoded ≠ [] → (full, if full then oldest events else none) ≠ (true, none)) := by
  have hfilter : fitting events full = events.filter (fun e => e.FitsAlone full (if full then oldest events else none)) := by
    refine filter_congr (fun e _ => ?_)
    rw [decide_eq_decide]
    exact fits_iff _ _ _
  rcases packBatches_spec events full with ⟨hnone, hpack⟩ | ⟨chunks, last, hlast, hne, hsent, hpack, hlen⟩
  · rw [hpack]
    exact ⟨nofun, [], by rw [← hfilter, hnone]; rfl, nofun, rfl, fun h => absurd rfl h⟩
  · have hmem : ∀ c ∈ chunks ++ [last], ∀ e ∈ c, e ∈ events := by
      intro c hc e he
      have hin : e ∈ fitting events full := by
        rw [← hsent]
        rcases mem_append.1 hc with hc | hc
        · exact mem_append_left _ (mem_flatten_of_mem hc he)
        · rw [mem_singleton.1 hc] at he
          exact mem_append_right _ he
      exact mem_of_mem_filter hin
    have hchunk : ∀ c ∈ chunks, Wire.decode (batchOf c true none) = some (.batch (c.map readEvent) true none) := by
      intro c hc
      refine decode_batchOf (fun e he => hshaped e (hmem c (mem_append_left _ hc) e he)) (hne c hc) nofun (hlen _ ?_)
      rw [hpack]
      exact mem_append_left _ (mem_map_of_mem hc)
    have hbound : ∀ b, (if full then oldest events else none) = some b → b < 2 ^ 64 := by
      intro b hb
      split at hb
      · obtain ⟨e, he, rfl⟩ := mem_map.1 (min?_mem hb)
        exact (hshaped e he).createdAt
      · cases hb
    have hfinal : Wire.decode (batchOf last full (if full then oldest events else none))
        = some (.batch (last.map readEvent) full (if full then oldest events else none)) := by
      refine decode_batchOf (fun e he => hshaped e (hmem last (mem_append_right _ mem_cons_self) e he)) hlast hbound
        (hlen _ ?_)
      rw [hpack]
      exact mem_append_right _ mem_cons_self
    refine ⟨hlen, chunks ++ [last], ?_, fun c hc => ?_, ?_, fun _ hmarker => ?_⟩
    · rw [← hfilter, ← hsent, flatten_append, flatten_singleton]
    · exact map_congr_left (fun e he => parse_readEvent (hshaped e (hmem c hc e he)))
    · rw [hpack, map_append, map_map, map_singleton, hfinal, dropLast_concat, getLast?_concat]
      refine congrArg (· ++ _) (map_congr_left (fun c hc => ?_))
      exact hchunk c hc
    · obtain ⟨hfull, hmarker⟩ := Prod.mk.inj hmarker
      obtain ⟨e, he⟩ := exists_mem_of_ne_nil _ hlast
      rw [if_pos hfull, oldest, min?_eq_none_iff, map_eq_nil_iff] at hmarker
      have hin := hmem last (mem_append_right _ mem_cons_self) e he
      rw [hmarker] at hin
      cases hin

theorem packBatches_lossless_note : (∀ b ∈ packBatches [noteEvent 'b', noteDeletion] true, b.length ≤ maxWireBytes) ∧
    ∃ decoded : List (List Event), decoded.flatten = [noteEvent 'b', noteDeletion].filter (fun e => e.FitsAlone true (some 10)) ∧
      (packBatches [noteEvent 'b', noteDeletion] true).map Wire.decode =
        decoded.dropLast.map (fun c => some (.batch (c.map readEvent) true none)) ++
          decoded.getLast?.toList.map (fun c => some (.batch (c.map readEvent) true (some 10))) := by
  obtain ⟨hlen, decoded, hflat, -, hdecode, -⟩ := packBatches_lossless [noteEvent 'b', noteDeletion] true (fun e he => by
    rcases mem_cons.1 he with rfl | he
    · exact (note_valid 'b' (by decide)).1
    · rw [mem_singleton.1 he]
      exact noteDeletion_valid.1)
  exact ⟨hlen, decoded, hflat, hdecode⟩

end Mistl.Nostr
