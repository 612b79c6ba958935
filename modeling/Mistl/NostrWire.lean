import Mistl.NostrEvent
import Mistl.NostrTracker
/-!
# NostrWire — the messages of a catch-up

`decode`, and the bytes of a request and of a batch of `mesh.rs`, with what they are read back as.
-/
open List Mistl.Json Option

namespace Mistl.Nostr

def tag : String := "mistl-nostr-v1"

def maxWireBytes : Nat := 60000

def maxInboundBytes : Nat := 65536

/-! ## Messages -/

/-- The messages of the mesh, reports of interest left out. -/
inductive Wire where
  | event (event : Json)
  | forward (event : Json)
  | sequence (epoch : String) (n : Nat) (event : Json)
  | fetch (epoch : String) (first : Nat)
  | sync (since : Nat) («until» : Option Nat) (limit : Nat)
  | batch (events : List Json) (more : Bool) («until» : Option Nat)

def looksLikeMesh (bytes : List UInt8) : Bool := decide (bytes.length ≤ maxInboundBytes) && decide (utf8 tag.toList <:+: bytes)

namespace Wire

def keys : String → Option (List String)
  | "ev" => some ["t", "op", "ev"]
  | "fwd" => some ["t", "op", "ev"]
  | "seq" => some ["t", "op", "ep", "n", "ev"]
  | "fetch" => some ["t", "op", "ep", "from"]
  | "sync" => some ["t", "op", "since", "until", "limit"]
  | "batch" => some ["t", "op", "evs", "more", "until"]
  | _ => none

def readUntil (object : Json) : Option (Option Nat) :=
  match object.get? "until" with
  | none => none
  | some .null => some none
  | some value => (value.asUnsigned (2 ^ 64)).map some

def readEpoch (object : Json) : Option String :=
  ((object.get? "ep").bind asStr).filter (fun ep => ep.utf8ByteSize = 16 ∧ ep.toList.all (fun c =>
    c.isDigit || (decide ('a' ≤ c) && decide (c ≤ 'f')) || (decide ('A' ≤ c) && decide (c ≤ 'F'))) = true)

def readPositive (object : Json) (key : String) : Option Nat := ((object.get? key).bind (asUnsigned (2 ^ 64))).filter fun n => n ≠ 0

def readOp (object : Json) : String → Option Wire
  | "ev" => (object.get? "ev").map .event
  | "fwd" => (object.get? "ev").map .forward
  | "seq" => do
    let n ← readPositive object "n"
    some (.sequence (← readEpoch object) n (← object.get? "ev"))
  | "fetch" => do
    let first ← readPositive object "from"
    some (.fetch (← readEpoch object) first)
  | "sync" => do
    let since ← (object.get? "since").bind (asUnsigned (2 ^ 64))
    let bound ← readUntil object
    some (.sync since bound (← (object.get? "limit").bind (asUnsigned (2 ^ 32))))
  | "batch" => do
    let events ← (object.get? "evs").bind asArr
    if events.length = 0 ∨ maxPageEvents < events.length then none
    else
      let more ← (object.get? "more").bind asBool
      some (.batch events more (← readUntil object))
  | _ => none

def decode (bytes : List UInt8) : Option Wire :=
  if looksLikeMesh bytes = false then none
  else
    match valueOf bytes with
    | some (.obj fields) =>
      if ((Json.obj fields).get? "t").bind asStr ≠ some tag then none
      else
        (((Json.obj fields).get? "op").bind asStr).bind (fun op =>
          (keys op).bind (fun keys =>
            if fields.length ≠ keys.length ∨ keys.any (fun key => ((Json.obj fields).get? key).isNone) = true then none
            else readOp (.obj fields) op))
    | _ => none

end Wire

def untilJson : Option Nat → Json
  | none => .null
  | some n => .int n

def syncBytes (since : Nat) (bound : Option Nat) : List UInt8 :=
  toVec (Json.value (.obj [("t", .str tag), ("op", .str "sync"), ("since", .int since), ("until", untilJson bound),
    ("limit", .int maxPageEvents)]))

/-! ## Batches -/

def eventEnvelope (value : Json) : Option (List UInt8) :=
  let bytes := toVec value
  if maxWireBytes < bytes.length then none else some bytes

def eventBytes (ev : Event) : Option (List UInt8) :=
  eventEnvelope (Json.value (.obj [("t", .str tag), ("op", .str "ev"), ("ev", ev.toJson)]))

def batchPrefix : List UInt8 := utf8 "\x7b\"t\":\"mistl-nostr-v1\",\"op\":\"batch\",\"evs\":[".toList

def batchSuffix (more : Bool) (bound : Option Nat) : List UInt8 :=
  utf8 ("],\"more\":".toList ++ (toString more).toList ++ ",\"until\":".toList ++ ((bound.map toString).getD "null").toList ++ ['\x7d'])

def joined : List (List UInt8) → List UInt8
  | [] => []
  | [event] => event
  | event :: next :: events => event ++ 44 :: joined (next :: events)

def finishBatch (events : List (List UInt8)) (more : Bool) (bound : Option Nat) : List UInt8 :=
  batchPrefix ++ joined events ++ batchSuffix more bound

/-! ## Reading the messages back -/

theorem valueItems_eq_map (items : List Json) : valueItems items = items.map Json.value := by
  induction items with
  | nil => rfl
  | cons j items ih => rw [valueItems, ih, map_cons]

theorem value_untilJson (bound : Option Nat) : (untilJson bound).value = untilJson bound := by
  cases bound <;> rw [untilJson, Json.value]

theorem length_writeInt_le {n : Nat} (h : n < 2 ^ 64) : (writeInt n).length ≤ 20 := by
  have : writeInt n = Nat.toDigits 10 n := by
    rw [writeInt, if_neg (by omega), Int.natAbs_natCast]
  exact (Nat.length_toDigits_le_iff (by decide) (by decide)).2 (h.trans (by decide))

variable {bound : Option Nat}

theorem length_write_untilJson_le (h : ∀ b, bound = some b → b < 2 ^ 64) : (untilJson bound).write.length ≤ 20 := by
  cases bound with
  | none => decide
  | some b => exact length_writeInt_le (h b rfl)

theorem integral_untilJson (h : ∀ b, bound = some b → b < 2 ^ 64) : Integral (untilJson bound) := by
  cases bound with
  | none => trivial
  | some b => exact Event.integral_nat (h b rfl)

theorem nesting_untilJson (bound : Option Nat) : nesting (untilJson bound) = 0 := by
  cases bound <;> rw [untilJson, nesting]

variable {fields : List (String × Json)}

theorem readUntil_untilJson (h : ∀ b, bound = some b → b < 2 ^ 64)
    (hget : (Json.obj fields).get? "until" = some (untilJson bound)) : Wire.readUntil (.obj fields) = some bound := by
  unfold Wire.readUntil
  rw [hget]
  cases bound with
  | none => rfl
  | some b =>
    have : (Json.int b).asUnsigned (2 ^ 64) = some b := by
      rw [asUnsigned, if_pos ⟨by omega, by exact h b rfl⟩, Int.toNat_natCast]
    simp only [untilJson, this, map_some]

theorem Wire.decode_obj {bytes : List UInt8} {op : String} {keys : List String}
    (hmesh : looksLikeMesh bytes = true) (hvalue : valueOf bytes = some (.obj fields))
    (ht : (Json.obj fields).get? "t" = some (.str tag)) (hop : (Json.obj fields).get? "op" = some (.str op))
    (hkeys : Wire.keys op = some keys) (hlen : fields.length = keys.length)
    (hall : keys.all (fun key => ((Json.obj fields).get? key).isSome) = true) : Wire.decode bytes = Wire.readOp (.obj fields) op := by
  unfold Wire.decode
  rw [hmesh, if_neg (by decide), hvalue]
  simp only
  rw [ht, if_neg (by simp [asStr]), hop]
  simp only [bind_some, asStr, hkeys]
  rw [if_neg]
  rw [not_or, not_not, List.any_eq_true]
  refine ⟨hlen, ?_⟩
  rintro ⟨key, hk, hnone⟩
  have := List.all_eq_true.1 hall key hk
  rw [isNone_iff_eq_none.1 hnone] at this
  cases this

def syncValue (since : Nat) (bound : Option Nat) : Json :=
  .obj [("limit", .int maxPageEvents), ("op", .str "sync"), ("since", .int since), ("t", .str tag), ("until", untilJson bound)]

theorem syncBytes_eq (since : Nat) (bound : Option Nat) : syncBytes since bound = toVec (syncValue since bound) := by
  rw [syncBytes, syncValue]
  simp +decide only [valueFields, Json.value, setField, if_false, if_true, value_untilJson]

theorem write_syncValue (since : Nat) (bound : Option Nat) : (syncValue since bound).write =
    ("\x7b\"limit\":500,\"op\":\"sync\",\"since\":".toList ++ writeInt since ++ ",\"t\":\"".toList) ++ tag.toList ++
      ("\",\"until\":".toList ++ (untilJson bound).write ++ ['\x7d']) := by
  simp only [syncValue, Json.write, writeFields, append_assoc, cons_append]
  rfl

theorem decode_syncBytes {since : Nat} (hs : since < 2 ^ 64) (hb : ∀ b, bound = some b → b < 2 ^ 64) :
    Wire.decode (syncBytes since bound) = some (.sync since bound maxPageEvents) := by
  have hint : Integral (syncValue since bound) := by
    rw [syncValue]
    simp only [IntegralFields, Integral, true_and, and_true]
    exact ⟨by decide, by omega, integral_untilJson hb⟩
  have hnest : nesting (syncValue since bound) < maxDepth := by
    simp only [syncValue, nesting, nestingFields, nesting_untilJson]
    decide
  have hvalue : (syncValue since bound).value = syncValue since bound := by
    rw [syncValue]
    simp +decide only [valueFields, Json.value, setField, if_false, value_untilJson]
  have hmesh : looksLikeMesh (syncBytes since bound) = true := by
    rw [looksLikeMesh, Bool.and_eq_true, decide_eq_true_eq, decide_eq_true_eq, syncBytes_eq, toVec, write_syncValue]
    constructor
    · have h1 := length_writeInt_le hs
      have h2 := length_write_untilJson_le hb
      refine (length_utf8_le _).trans ?_
      simp only [length_append]
      have h3 : ∀ a b c d e f : Nat, a ≤ 35 → b ≤ 20 → c ≤ 10 → d ≤ 20 → e ≤ 20 → f ≤ 20 →
          4 * (a + b + c + d + (e + f + 1)) ≤ 65536 := by omega
      exact h3 _ _ _ _ _ _ (by decide) h1 (by decide) (by decide) (by decide) h2
    · rw [utf8_append, utf8_append]
      exact ⟨_, _, rfl⟩
  have hof : valueOf (syncBytes since bound) = some (syncValue since bound) := by
    rw [valueOf, syncBytes_eq, fromSlice_toVec _ hint.repr hnest, map_some, hvalue]
  have hsince : ((syncValue since bound).get? "since").bind (asUnsigned (2 ^ 64)) = some since := by
    show asUnsigned (2 ^ 64) (.int since) = _
    rw [asUnsigned, if_pos ⟨Int.natCast_nonneg _, by rwa [Int.toNat_natCast]⟩, Int.toNat_natCast]
  have hlimit : ((syncValue since bound).get? "limit").bind (asUnsigned (2 ^ 32)) = some maxPageEvents := rfl
  rw [Wire.decode_obj hmesh hof rfl rfl rfl rfl rfl]
  show (do
    let since' ← ((syncValue since bound).get? "since").bind (asUnsigned (2 ^ 64))
    let bound' ← Wire.readUntil (syncValue since bound)
    some (Wire.sync since' bound' (← ((syncValue since bound).get? "limit").bind (asUnsigned (2 ^ 32))))) = _
  rw [hsince, syncValue, readUntil_untilJson hb rfl]
  rfl

def readEvent (e : Event) : Json :=
  .obj [("content", .str e.content), ("created_at", .int e.createdAt), ("id", .str e.id), ("kind", .int e.kind),
    ("pubkey", .str e.pubkey), ("sig", .str e.sig), ("tags", Event.tagsJson e.tags)]

theorem value_tagsJson (tags : List (List String)) : (Event.tagsJson tags).value = Event.tagsJson tags := by
  have hstr : ∀ tag : List String, (tag.map Json.str).map Json.value = tag.map Json.str := by
    intro tag
    rw [List.map_map]
    exact map_congr_left (fun s _ => by rw [Function.comp_apply, Json.value])
  rw [Event.tagsJson, Json.value, valueItems_eq_map, List.map_map]
  congr 1
  exact map_congr_left fun tag _ => by rw [Function.comp_apply, Json.value, valueItems_eq_map, hstr]

theorem value_toJson (e : Event) : e.toJson.value = readEvent e := by
  rw [Event.toJson, readEvent]
  simp +decide only [valueFields, Json.value, setField, if_false, if_true, value_tagsJson]

theorem parse_readEvent {e : Event} (h : e.Shaped) : Event.parse (readEvent e) = .ok e := h.parse_obj rfl rfl rfl rfl rfl rfl rfl

def batchValue (events : List Event) (more : Bool) (bound : Option Nat) : Json :=
  .obj [("t", .str tag), ("op", .str "batch"), ("evs", .arr (events.map Event.toJson)), ("more", .bool more),
    ("until", untilJson bound)]

theorem utf8_writeItems : ∀ (items : List Json), utf8 (writeItems items) = joined (items.map toVec)
  | [] | [j] => by rfl
  | j :: k :: items => by
    rw [writeItems, utf8_append, utf8_cons, utf8_writeItems (k :: items)]
    rfl

theorem write_untilJson (bound : Option Nat) : ((bound.map toString).getD "null").toList = (untilJson bound).write := by
  cases bound with
  | none => rfl
  | some n =>
    have : writeInt n = Nat.toDigits 10 n := by
      rw [writeInt, if_neg (by omega), Int.natAbs_natCast]
    exact String.toList_ofList

theorem write_batchValue (events : List Event) (more : Bool) (bound : Option Nat) : (batchValue events more bound).write =
    "\x7b\"t\":\"mistl-nostr-v1\",\"op\":\"batch\",\"evs\":[".toList ++ writeItems (events.map Event.toJson) ++
      ("],\"more\":".toList ++ (toString more).toList ++ ",\"until\":".toList ++
        ((bound.map toString).getD "null").toList ++ ['\x7d']) := by
  rw [write_untilJson]
  cases more <;>
  · simp only [batchValue, Json.write, writeFields, append_assoc, cons_append]
    rfl

theorem toVec_batchValue (events : List Event) (more : Bool) (bound : Option Nat) : toVec (batchValue events more bound) =
      finishBatch (events.map (fun e => toVec e.toJson)) more bound := by
  rw [toVec, write_batchValue, utf8_append, utf8_append, utf8_writeItems, List.map_map]
  rfl

theorem integral_events : ∀ {events : List Event}, (∀ e ∈ events, e.Shaped) → IntegralItems (events.map Event.toJson)
  | [], _ => by trivial
  | e :: events, h => by
    exact ⟨(h e mem_cons_self).integral, integral_events (fun f hf => h f (mem_cons_of_mem _ hf))⟩

theorem nesting_events : ∀ (events : List Event), nestingItems (events.map Event.toJson) ≤ 3
  | [] => Nat.zero_le _
  | e :: events => by
    exact max_le (Event.nesting_toJson e) (nesting_events events)

theorem decode_finishBatch {events : List Event} {more : Bool} (hshaped : ∀ e ∈ events, e.Shaped)
    (hne : events ≠ []) (hpage : events.length ≤ maxPageEvents) (hb : ∀ b, bound = some b → b < 2 ^ 64)
    (hlen : (finishBatch (events.map (fun e => toVec e.toJson)) more bound).length ≤ maxInboundBytes) :
    Wire.decode (finishBatch (events.map (fun e => toVec e.toJson)) more bound) = some (.batch (events.map readEvent) more bound) := by
  have hint : Integral (batchValue events more bound) := by
    rw [batchValue]
    simp only [IntegralFields, Integral, true_and, and_true]
    exact ⟨integral_events hshaped, integral_untilJson hb⟩
  have hnest : nesting (batchValue events more bound) < maxDepth := by
    have := nesting_events events
    simp only [batchValue, nesting, nestingFields, nesting_untilJson, maxDepth]
    omega
  have hmesh : looksLikeMesh (finishBatch (events.map (fun e => toVec e.toJson)) more bound) = true := by
    rw [looksLikeMesh, Bool.and_eq_true, decide_eq_true_eq, decide_eq_true_eq]
    refine ⟨hlen, utf8 "\x7b\"t\":\"".toList, utf8 "\",\"op\":\"batch\",\"evs\":[".toList ++
      (joined (events.map (fun e => toVec e.toJson)) ++ batchSuffix more bound), ?_⟩
    rfl
  have hof : valueOf (finishBatch (events.map (fun e => toVec e.toJson)) more bound) =
      some (.obj [("evs", .arr (events.map readEvent)), ("more", .bool more), ("op", .str "batch"), ("t", .str tag),
        ("until", untilJson bound)]) := by
    have hevs : valueItems (events.map Event.toJson) = events.map readEvent := by
      rw [valueItems_eq_map, List.map_map]
      exact map_congr_left (fun e _ => value_toJson e)
    rw [valueOf, ← toVec_batchValue, fromSlice_toVec _ hint.repr hnest, map_some, batchValue]
    simp +decide only [valueFields, Json.value, setField, if_false, if_true, value_untilJson, hevs]
  rw [Wire.decode_obj hmesh hof rfl rfl rfl rfl rfl]
  show (do
    let events' ← some (events.map readEvent)
    if events'.length = 0 ∨ maxPageEvents < events'.length then none
    else
      let more' ← some more
      some (Wire.batch events' more' (← Wire.readUntil _))) = _
  rw [readUntil_untilJson hb rfl]
  have hlength : ¬((events.map readEvent).length = 0 ∨ maxPageEvents < (events.map readEvent).length) := by
    rw [length_map, length_eq_zero_iff]
    rintro (h | h)
    · exact hne h
    · omega
  simp only [bind_eq_bind, bind_some, if_neg hlength]

end Mistl.Nostr
