import Mistl.AiStreams
/-!
# AiSse — an upstream's answer, line after line

The body of a streamed answer comes in chunks that may end anywhere.  Its lines are decoded once they are complete; what
the stream comes to is what it comes to byte by byte, and what its lines say.
-/
open List Mistl.Json Option

namespace Mistl.Ai
namespace Sse

open Api (fromUtf8Lossy)
open Folder (trim)

/-- What `serde_json` makes of a text, and the text it prints of a value. -/
structure Serde where
  fromStr : List Char → Option Json
  toString : Json → String

def maxToolArgsBytes : Nat := 4 * 1024 * 1024

def maxSseLineBytes : Nat := 8 * 1024 * 1024

inductive Error where
  | message (text : String)
  | http (label : String) (status : Nat) (detail : String)

structure PartialToolCall where
  id : String
  name : String
  arguments : String

structure ToolCallAccumulator where
  calls : Table Nat PartialToolCall
  argsBytes : Nat

def indexOf (pos : Nat) (item : Json) : Nat := ((item.get? "index").bind (asUnsigned (2 ^ 64))).getD pos

def functionMember (item : Json) (key : String) : Option String := ((item.get? "function").bind (fun f => f.get? key)).bind asStr

namespace ToolCallAccumulator

def default : ToolCallAccumulator := ⟨∅, 0⟩

/-- The call of an index, with the id and the name of a fragment where it has none yet. -/
def entryOf (acc : ToolCallAccumulator) (pos : Nat) (item : Json) : PartialToolCall :=
  let entry := (acc.calls.get (indexOf pos item)).getD ⟨"", "", ""⟩
  let entry := match (item.get? "id").bind asStr with
    | some id => if entry.id = "" then { entry with id := id } else entry
    | none => entry
  match functionMember item "name" with
  | some name => if entry.name = "" then { entry with name := name } else entry
  | none => entry

/-- One turn of the loop of `apply`. -/
def applyItem (acc : ToolCallAccumulator) (pos : Nat) (item : Json) : Except Error ToolCallAccumulator :=
  if maxToolCalls ≤ indexOf pos item then .error (.message "ai: upstream returned too many tool calls")
  else
    let entry := acc.entryOf pos item
    match functionMember item "arguments" with
    | some args =>
      if maxToolArgsBytes < acc.argsBytes + args.utf8ByteSize then
        .error (.message "ai: upstream tool call arguments are too large")
      else .ok ⟨acc.calls.insert (indexOf pos item) { entry with arguments := entry.arguments ++ args },
        acc.argsBytes + args.utf8ByteSize⟩
    | none => .ok ⟨acc.calls.insert (indexOf pos item) entry, acc.argsBytes⟩

def applyItems (acc : ToolCallAccumulator) (pos : Nat) : List Json → Except Error ToolCallAccumulator
  | [] => .ok acc
  | item :: items => (acc.applyItem pos item).bind (fun acc => acc.applyItems (pos + 1) items)

def apply (acc : ToolCallAccumulator) (delta : Json) : Except Error ToolCallAccumulator :=
  match delta.asArr with
  | none => .ok acc
  | some items => acc.applyItems 0 items

def callJson (i : Nat) (c : PartialToolCall) : Json :=
  .obj [("function", .obj [("arguments", .str c.arguments), ("name", .str c.name)]),
    ("id", .str (if c.id = "" then "call_" ++ toString i else c.id)), ("type", .str "function")]

/-- `finish`; an index is below `MAX_TOOL_CALLS`. -/
def finish (acc : ToolCallAccumulator) : Option Json := let calls := (List.range maxToolCalls).filterMap (fun i =>
    ((acc.calls.get i).filter (fun c => c.name ≠ "")).map (callJson i))
  if calls.isEmpty then none else some (.arr calls)

end ToolCallAccumulator

/-- The content and the calls so far, and what was sent to `delta_tx`. -/
structure Progress where
  full : String
  acc : ToolCallAccumulator
  sent : List String

/-- The value of a `data:` line, if it has one. -/
def lineData (S : Serde) (line : List UInt8) : Option Json := ((trim (fromUtf8Lossy line)).dropPrefix? "data:".toList).bind (fun data =>
    if trim data = "[DONE]".toList then none else S.fromStr (trim data))

def isNull : Json → Bool
  | .null => true
  | _ => false

def truncate500 (body : List Char) : String := String.ofList (body.take 500)

def errorDetail (S : Serde) (error : Json) : String :=
  match ((error.get? "message").bind asStr).or error.asStr with
  | some text => truncate500 text.toList
  | none => truncate500 (S.toString error).toList

def deltaOf (parsed : Json) : Option Json :=
  ((parsed.get? "choices").bind (fun c => c.asArr.bind List.head?)).bind fun c => c.get? "delta"

def applyDelta (tx : Bool) (delta : Option Json) (s : Progress) : Except Error Progress :=
  (match delta.bind (fun d => d.get? "tool_calls") with
    | some calls => s.acc.apply calls
    | none => .ok s.acc).bind (fun acc =>
  match ((delta.bind (fun d => d.get? "content")).bind asStr).filter (fun text => text ≠ "") with
  | some text => .ok ⟨s.full ++ text, acc, if tx then s.sent ++ [text] else s.sent⟩
  | none => .ok { s with acc := acc })

def applySseLine (S : Serde) (tx : Bool) (line : List UInt8) (s : Progress) : Except Error Progress :=
  match lineData S line with
  | none => .ok s
  | some parsed =>
    match (parsed.get? "error").filter (fun e => !isNull e) with
    | some error => .error (.http "LLM API" 502 (errorDetail S error))
    | none => applyDelta tx (deltaOf parsed) s

/-- `stream_sse` between two parts; a subtraction below zero panics. -/
inductive Reader where
  | reading (buffer : List UInt8) (s : Progress)
  | stopped (error : Error) (s : Progress)
  | panicked

/-- `slice::split_inclusive` at line breaks -/
def splitInclusive : List UInt8 → List (List UInt8)
  | [] => []
  | b :: bytes =>
    if b = 10 then [b] :: splitInclusive bytes
    else match splitInclusive bytes with
      | [] => [[b]]
      | part :: parts => (b :: part) :: parts

namespace Reader

def part (S : Serde) (tx : Bool) (r : Reader) (part : List UInt8) : Reader :=
  match r with
  | .reading buffer s =>
    if maxSseLineBytes < buffer.length then .panicked
    else if maxSseLineBytes - buffer.length < part.length then .stopped (.message "ai: upstream SSE line is too large") s
    else if part.getLast? = some 10 then
      match applySseLine S tx (buffer ++ part) s with
      | .ok s' => .reading [] s'
      | .error e => .stopped e s
    else .reading (buffer ++ part) s
  | r => r

def chunk (S : Serde) (tx : Bool) (r : Reader) (chunk : List UInt8) : Reader := (splitInclusive chunk).foldl (part S tx) r

def start : Reader := .reading [] ⟨"", .default, []⟩

end Reader

structure ChatOutput where
  content : String
  toolCalls : Option Json

structure Outcome where
  sent : List String
  result : Except Error ChatOutput

/-- `stream_sse`, where no read fails; none is a panic. -/
def streamSse (S : Serde) (tx : Bool) (chunks : List (List UInt8)) : Option Outcome :=
  match chunks.foldl (Reader.chunk S tx) Reader.start with
  | .reading _ s => some ⟨s.sent, .ok ⟨s.full, s.acc.finish⟩⟩
  | .stopped e s => some ⟨s.sent, .error e⟩
  | .panicked => none

/-! ## Byte by byte -/

theorem foldl_stopped (S : Serde) (tx : Bool) (e : Error) (s : Progress) (parts : List (List UInt8)) :
    parts.foldl (Reader.part S tx) (.stopped e s) = .stopped e s := by
  induction parts with
  | nil => rfl
  | cons p parts ih => exact ih

theorem part_reading (S : Serde) (tx : Bool) (buffer : List UInt8) (s : Progress) (p : List UInt8) :
    Reader.part S tx (.reading buffer s) p =
    if maxSseLineBytes < buffer.length then .panicked
    else if maxSseLineBytes - buffer.length < p.length then .stopped (.message "ai: upstream SSE line is too large") s
    else if p.getLast? = some 10 then
      match applySseLine S tx (buffer ++ p) s with
      | .ok s' => .reading [] s'
      | .error e => .stopped e s
    else .reading (buffer ++ p) s := rfl

theorem part_fresh (S : Serde) (tx : Bool) (s : Progress) (p : List UInt8) : Reader.part S tx (.reading [] s) p =
    if maxSseLineBytes < p.length then .stopped (.message "ai: upstream SSE line is too large") s
    else if p.getLast? = some 10 then
      match applySseLine S tx p s with
      | .ok s' => .reading [] s'
      | .error e => .stopped e s
    else .reading p s := by
  have hempty : ¬ maxSseLineBytes < ([] : List UInt8).length := Nat.not_lt_zero _
  rfl

theorem part_eq (S : Serde) (tx : Bool) {p : List UInt8} (hne : p ≠ []) (hbreak : 10 ∉ p.dropLast) (r : Reader) :
    r.part S tx p = (p.map (fun b => [b])).foldl (Reader.part S tx) r := by
  induction p generalizing r with
  | nil => exact absurd rfl hne
  | cons b p ih =>
    cases p with
    | nil => rfl
    | cons c p =>
      rw [dropLast_cons_of_ne_nil (cons_ne_nil _ _), mem_cons, not_or] at hbreak
      rw [map_cons, foldl_cons, ← ih (cons_ne_nil _ _) hbreak.2]
      cases r with
      | stopped e s => rfl
      | panicked => rfl
      | reading buffer s =>
        have hlast : ([b] : List UInt8).getLast? ≠ some 10 := fun h => hbreak.1 (Option.some.inj h).symm
        by_cases hpanic : maxSseLineBytes < buffer.length
        · rw [part_reading, part_reading, if_pos hpanic, if_pos hpanic]
          rfl
        by_cases hone : maxSseLineBytes - buffer.length < 1
        · rw [part_reading, part_reading, if_neg hpanic, if_neg hpanic, if_pos (by rw [length_cons]; omega), if_pos (by exact hone)]
          rfl
        · have hstep : Reader.part S tx (.reading buffer s) [b] = .reading (buffer ++ [b]) s := by
            rw [part_reading, if_neg hpanic, if_neg (by exact hone), if_neg hlast]
          have hnext : ¬ maxSseLineBytes < (buffer ++ [b]).length := by
            rw [length_append, length_singleton]
            omega
          rw [hstep, part_reading, part_reading, if_neg hpanic, if_neg hnext, append_assoc, singleton_append, getLast?_cons_cons]
          have hlen : maxSseLineBytes - buffer.length < (b :: c :: p).length ↔
              maxSseLineBytes - (buffer ++ [b]).length < (c :: p).length := by
            rw [length_append, length_singleton, length_cons]
            omega
          by_cases hlong : maxSseLineBytes - buffer.length < (b :: c :: p).length
          · rw [if_pos hlong, if_pos (hlen.1 hlong)]
          · rw [if_neg hlong, if_neg (fun h => hlong (hlen.2 h))]

theorem splitInclusive_spec (bytes : List UInt8) :
    (∀ p ∈ splitInclusive bytes, p ≠ [] ∧ 10 ∉ p.dropLast) ∧ (splitInclusive bytes).flatten = bytes := by
  induction bytes with
  | nil => exact ⟨nofun, rfl⟩
  | cons b bytes ih =>
    obtain ⟨hparts, hflat⟩ := ih
    unfold splitInclusive
    split
    · refine ⟨fun p hp => ?_, by rw [flatten_cons, hflat]; rfl⟩
      rcases mem_cons.1 hp with rfl | hp
      · exact ⟨cons_ne_nil _ _, not_mem_nil⟩
      · exact hparts p hp
    · rename_i hb
      split
      · rename_i hnil
        rw [hnil] at hflat
        refine ⟨fun p hp => ?_, by rw [← hflat]; rfl⟩
        rw [mem_singleton.1 hp]
        exact ⟨cons_ne_nil _ _, not_mem_nil⟩
      · rename_i q parts hcons
        rw [hcons] at hflat hparts
        refine ⟨fun p hp => ?_, by rw [← hflat]; rfl⟩
        rcases mem_cons.1 hp with rfl | hp
        · obtain ⟨hq, hbreak⟩ := hparts q mem_cons_self
          refine ⟨cons_ne_nil _ _, ?_⟩
          rw [dropLast_cons_of_ne_nil hq, mem_cons, not_or]
          exact ⟨fun h => hb h.symm, hbreak⟩
        · exact hparts p (mem_cons_of_mem _ hp)

theorem chunk_eq (S : Serde) (tx : Bool) (r : Reader) (bytes : List UInt8) :
    r.chunk S tx bytes = (bytes.map (fun b => [b])).foldl (Reader.part S tx) r := by
  obtain ⟨hparts, hflat⟩ := splitInclusive_spec bytes
  have hrun : ∀ (parts : List (List UInt8)) (r : Reader), (∀ p ∈ parts, p ≠ [] ∧ 10 ∉ p.dropLast) →
      parts.foldl (Reader.part S tx) r = (parts.flatten.map (fun b => [b])).foldl (Reader.part S tx) r := by
    intro parts
    induction parts with
    | nil => exact fun _ _ => rfl
    | cons p parts ih =>
      intro r h
      obtain ⟨hne, hbreak⟩ := h p mem_cons_self
      rw [foldl_cons, ih _ (fun q hq => h q (mem_cons_of_mem _ hq)), part_eq S tx hne hbreak, flatten_cons, map_append, foldl_append]
  rw [Reader.chunk, hrun _ r hparts, hflat]

theorem chunks_eq (S : Serde) (tx : Bool) (r : Reader) (chunks : List (List UInt8)) :
    chunks.foldl (Reader.chunk S tx) r = r.chunk S tx chunks.flatten := by
  induction chunks generalizing r with
  | nil => rfl
  | cons c chunks ih => rw [foldl_cons, ih, chunk_eq, chunk_eq S tx r c, chunk_eq S tx r, flatten_cons, map_append, foldl_append]

/-! ## What the lines say -/

/-- The complete lines, each with its line break. -/
def lines (bytes : List UInt8) : List (List UInt8) := (bytes.splitOn 10).dropLast.map fun l => l ++ [10]

/-- What follows the last line break. -/
def rest (bytes : List UInt8) : List UInt8 := (bytes.splitOn 10).getLast?.getD []

def lineError (S : Serde) (line : List UInt8) : Option Json :=
  ((lineData S line).bind (fun parsed => parsed.get? "error")).filter fun e => !isNull e

def lineText (S : Serde) (line : List UInt8) : Option String :=
  ((((lineData S line).bind deltaOf).bind (fun d => d.get? "content")).bind asStr).filter fun text => text ≠ ""

/-- The items of an array of tool calls, each with its index. -/
def indexed (pos : Nat) (items : List Json) : List (Nat × Json) := (items.zipIdx pos).map (fun p => (indexOf p.2 p.1, p.1))

def fragmentsOf (calls : Option Json) : List (Nat × Json) := ((calls.bind asArr).map (indexed 0)).getD []

def lineFragments (S : Serde) (line : List UInt8) : List (Nat × Json) :=
  fragmentsOf (((lineData S line).bind deltaOf).bind (fun d => d.get? "tool_calls"))

/-- The fragments of one index, in order. -/
def own (i : Nat) (l : List (Nat × Json)) : List Json := (l.filter (fun f => f.1 = i)).map Prod.snd

def argumentsOf (i : Nat) (l : List (Nat × Json)) : String :=
  String.join ((own i l).filterMap (fun item => functionMember item "arguments"))

/-- The first text that is not empty. -/
def firstText (l : List String) : String := (l.find? (fun text => text ≠ "")).getD ""

def nameOf (i : Nat) (l : List (Nat × Json)) : String := firstText ((own i l).filterMap (fun item => functionMember item "name"))

def idOf (i : Nat) (l : List (Nat × Json)) : String := firstText ((own i l).filterMap (fun item => (item.get? "id").bind asStr))

def toolCall (l : List (Nat × Json)) (i : Nat) : Json :=
  .obj [("function", .obj [("arguments", .str (argumentsOf i l)), ("name", .str (nameOf i l))]),
    ("id", .str (if idOf i l = "" then "call_" ++ toString i else idOf i l)), ("type", .str "function")]

def argBytes (item : Json) : Nat := ((functionMember item "arguments").map String.utf8ByteSize).getD 0

/-- The fragments keep to the bounds. -/
structure Accepts (l : List (Nat × Json)) : Prop where
  index : ∀ f ∈ l, f.1 < maxToolCalls
  size : (l.map (fun f => argBytes f.2)).sum ≤ maxToolArgsBytes

/-! ## The calls -/

@[simp] theorem own_nil (i : Nat) : own i [] = [] := rfl

theorem own_append (i : Nat) (l : List (Nat × Json)) (f : Nat × Json) :
    own i (l ++ [f]) = if f.1 = i then own i l ++ [f.2] else own i l := by
  unfold own
  rw [filter_append, map_append]
  by_cases h : f.1 = i
  · rw [if_pos h, filter_cons, if_pos (decide_eq_true h)]
    rfl
  · rw [if_neg h, filter_cons, if_neg (by rw [decide_eq_true_eq]; exact h)]
    exact append_nil _

theorem filterMap_own (g : Json → Option String) (i : Nat) (l : List (Nat × Json)) (item : Json) :
    (own i (l ++ [(i, item)])).filterMap g = (own i l).filterMap g ++ (g item).toList := by
  rw [own_append, if_pos rfl]
  cases h : g item <;> simp [h]

theorem join_toList (l : List String) (o : Option String) : String.join (l ++ o.toList) = String.join l ++ o.getD "" := by
  cases o with
  | none => simp
  | some s =>
    rw [String.join, foldl_append]
    rfl

theorem firstText_toList (l : List String) (o : Option String) :
    firstText (l ++ o.toList) = if firstText l = "" then o.getD "" else firstText l := by
  unfold firstText
  rw [find?_append]
  cases hl : l.find? (fun text => text ≠ "") with
  | some text =>
    have htext : text ≠ "" := by simpa using find?_some hl
    rw [some_or, getD_some, if_neg htext]
  | none =>
    cases o with
    | none => rfl
    | some s => by_cases hs : s = "" <;> simp [hs]

def callOf (i : Nat) (l : List (Nat × Json)) : PartialToolCall := ⟨idOf i l, nameOf i l, argumentsOf i l⟩

/-- The accumulator after the fragments `l`. -/
structure Merged (l : List (Nat × Json)) (acc : ToolCallAccumulator) : Prop where
  calls : ∀ i, acc.calls.get i = if own i l = [] then none else some (callOf i l)
  size : acc.argsBytes = (l.map (fun f => argBytes f.2)).sum
  accepts : Accepts l

theorem Merged.default : Merged [] .default := ⟨fun _ => rfl, rfl, ⟨nofun, Nat.zero_le _⟩⟩

variable {l : List (Nat × Json)}

variable {acc : ToolCallAccumulator}

theorem Merged.getD (h : Merged l acc) (i : Nat) : (acc.calls.get i).getD ⟨"", "", ""⟩ = callOf i l := by
  rw [h.calls]
  split
  · rename_i hown
    unfold callOf idOf nameOf argumentsOf
    rw [hown]
    rfl
  · rfl

theorem Merged.entryOf (h : Merged l acc) (pos : Nat) (item : Json) : acc.entryOf pos item =
    { callOf (indexOf pos item) (l ++ [(indexOf pos item, item)]) with arguments := argumentsOf (indexOf pos item) l } := by
  unfold ToolCallAccumulator.entryOf
  rw [h.getD]
  unfold callOf idOf nameOf
  rw [filterMap_own, filterMap_own, firstText_toList, firstText_toList]
  cases (item.get? "id").bind asStr <;> cases functionMember item "name" <;> dsimp only [Option.getD] <;> grind

theorem Accepts.left {l' : List (Nat × Json)} (h : Accepts (l ++ l')) : Accepts l := by
  refine ⟨fun f hf => h.index f (mem_append_left _ hf), ?_⟩
  have hsize := h.size
  rw [map_append, sum_append] at hsize
  exact le_of_add_le_left hsize

theorem sum_concat (l : List (Nat × Json)) (f : Nat × Json) :
    ((l ++ [f]).map (fun f => argBytes f.2)).sum = (l.map (fun f => argBytes f.2)).sum + argBytes f.2 := by
  rw [map_append, sum_append, map_singleton, sum_singleton]

/-- A fragment within the bounds, put to its index. -/
theorem Merged.insert (h : Merged l acc) (item : Json) {i : Nat} (hi : i < maxToolCalls)
    (hsize : acc.argsBytes + argBytes item ≤ maxToolArgsBytes) :
    Merged (l ++ [(i, item)]) ⟨acc.calls.insert i (callOf i (l ++ [(i, item)])), acc.argsBytes + argBytes item⟩ := by
  refine ⟨fun j => ?_, by rw [sum_concat, h.size], fun f hf => ?_, by rw [sum_concat, ← h.size]; exact hsize⟩
  · rw [Table.get_insert]
    by_cases hj : j = i
    · subst hj
      rw [if_pos rfl, own_append, if_pos rfl, if_neg (append_ne_nil_of_right_ne_nil _ (cons_ne_nil _ _))]
    · have hown : own j (l ++ [(i, item)]) = own j l := by rw [own_append, if_neg (Ne.symm hj)]
      have hcall : callOf j (l ++ [(i, item)]) = callOf j l := by
        unfold callOf idOf nameOf argumentsOf
        rw [hown]
      rw [if_neg hj, hown, hcall]
      exact h.calls j
  · rcases mem_append.1 hf with hf | hf
    · exact h.accepts.index f hf
    · rw [mem_singleton.1 hf]
      exact hi

/-- **One turn of the loop of `apply`**: it goes on where the fragments still keep to the bounds, and only there. -/
theorem Merged.item (h : Merged l acc) (pos : Nat) (item : Json) :
    (∃ acc', acc.applyItem pos item = .ok acc' ∧ Merged (l ++ [(indexOf pos item, item)]) acc') ∨
      (∃ e, acc.applyItem pos item = .error e) ∧ ¬ Accepts (l ++ [(indexOf pos item, item)]) := by
  unfold ToolCallAccumulator.applyItem
  by_cases hi : maxToolCalls ≤ indexOf pos item
  · rw [if_pos hi]
    exact .inr ⟨⟨_, rfl⟩, fun ha => Nat.not_lt.2 hi (ha.index _ (mem_append_right _ mem_cons_self))⟩
  rw [if_neg hi, h.entryOf]
  have hargs : argumentsOf (indexOf pos item) (l ++ [(indexOf pos item, item)]) =
      argumentsOf (indexOf pos item) l ++ (functionMember item "arguments").getD "" := by
    unfold argumentsOf
    rw [filterMap_own, join_toList]
  have hbytes : acc.argsBytes + argBytes item = ((l ++ [(indexOf pos item, item)]).map (fun f => argBytes f.2)).sum := by
    rw [sum_concat, h.size]
  cases hmember : functionMember item "arguments" with
  | some args =>
    have harg : argBytes item = args.utf8ByteSize := by rw [argBytes, hmember]; rfl
    dsimp only
    rw [← harg]
    split
    · rename_i hlong
      exact .inr ⟨⟨_, rfl⟩, fun ha => Nat.not_lt.2 ha.size (hbytes ▸ hlong)⟩
    · rename_i hlong
      refine .inl ⟨_, rfl, ?_⟩
      have hcall : callOf (indexOf pos item) (l ++ [(indexOf pos item, item)]) =
          { callOf (indexOf pos item) (l ++ [(indexOf pos item, item)]) with
            arguments := argumentsOf (indexOf pos item) l ++ args } := by
        rw [hmember] at hargs
        exact congrArg (PartialToolCall.mk _ _) hargs
      rw [← hcall]
      exact h.insert item (Nat.lt_of_not_le hi) (Nat.le_of_not_lt hlong)
  | none =>
    have harg : argBytes item = 0 := by rw [argBytes, hmember]; rfl
    have hcall : callOf (indexOf pos item) (l ++ [(indexOf pos item, item)]) =
        { callOf (indexOf pos item) (l ++ [(indexOf pos item, item)]) with arguments := argumentsOf (indexOf pos item) l } := by
      rw [hmember] at hargs
      exact congrArg (PartialToolCall.mk _ _) (hargs.trans String.append_empty)
    have hinsert := h.insert item (Nat.lt_of_not_le hi) (by rw [harg, h.size]; exact h.accepts.size)
    rw [harg] at hinsert
    exact .inl ⟨_, rfl, hcall ▸ hinsert⟩

theorem Merged.items (h : Merged l acc) (pos : Nat) (items : List Json) :
    (∃ acc', acc.applyItems pos items = .ok acc' ∧ Merged (l ++ indexed pos items) acc') ∨
      (∃ e, acc.applyItems pos items = .error e) ∧ ¬ Accepts (l ++ indexed pos items) := by
  induction items generalizing l acc pos with
  | nil => exact .inl ⟨acc, rfl, (append_nil l).symm ▸ h⟩
  | cons item items ih =>
    have hindexed : l ++ indexed pos (item :: items) = l ++ [(indexOf pos item, item)] ++ indexed (pos + 1) items := by
      rw [append_assoc]
      rfl
    rw [hindexed, ToolCallAccumulator.applyItems]
    rcases h.item pos item with ⟨acc', happly, hmerged⟩ | ⟨⟨e, happly⟩, hbad⟩
    · rw [happly]
      exact ih hmerged (pos + 1)
    · rw [happly]
      exact .inr ⟨⟨e, rfl⟩, fun ha => hbad ha.left⟩

theorem Merged.apply (h : Merged l acc) (calls : Option Json) :
    (∃ acc', (match calls with | some calls => acc.apply calls | none => Except.ok acc) = .ok acc' ∧
        Merged (l ++ fragmentsOf calls) acc') ∨
      (∃ e : Error, (match calls with | some calls => acc.apply calls | none => .ok acc) = .error e) ∧
        ¬ Accepts (l ++ fragmentsOf calls) := by
  cases calls with
  | none => exact .inl ⟨acc, rfl, (append_nil l).symm ▸ h⟩
  | some calls =>
    dsimp only
    unfold ToolCallAccumulator.apply fragmentsOf
    rw [bind_some]
    cases calls.asArr with
    | none => exact .inl ⟨acc, rfl, (append_nil l).symm ▸ h⟩
    | some items => exact h.items 0 items

/-- `finish` has the named calls, in the order of their indexes. -/
theorem Merged.finish (h : Merged l acc) : ∃ indexes : List Nat, indexes.Pairwise (· < ·) ∧ (∀ i, i ∈ indexes ↔ nameOf i l ≠ "") ∧
    acc.finish = if indexes = [] then none else some (.arr (indexes.map (toolCall l))) := by
  have hnamed : ∀ i, nameOf i l ≠ "" → own i l ≠ [] := fun i hname hown => hname (by rw [nameOf, hown]; rfl)
  have hcall : ∀ i, ((acc.calls.get i).filter (fun c => c.name ≠ "")).map (ToolCallAccumulator.callJson i) =
      if nameOf i l ≠ "" then some (toolCall l i) else none := by
    intro i
    rw [h.calls]
    by_cases hname : nameOf i l = ""
    · rw [if_neg (not_not_intro hname)]
      split
      · rfl
      · rw [filter_some, if_neg (by rw [decide_eq_true_eq]; exact not_not_intro hname)]
        rfl
    · rw [if_pos hname, if_neg (hnamed i hname), filter_some, if_pos (decide_eq_true (show (callOf i l).name ≠ "" from hname))]
      rfl
  refine ⟨(List.range maxToolCalls).filter (fun i => nameOf i l ≠ ""), pairwise_lt_range.filter _, fun i => ?_, ?_⟩
  · rw [mem_filter, List.mem_range, decide_eq_true_eq]
    refine ⟨And.right, fun hname => ⟨?_, hname⟩⟩
    obtain ⟨item, hitem⟩ := exists_mem_of_ne_nil _ (hnamed i hname)
    obtain ⟨f, hf, -⟩ := List.mem_map.1 hitem
    obtain ⟨hf, hfi⟩ := mem_filter.1 hf
    exact of_decide_eq_true hfi ▸ h.accepts.index f hf
  · have hlist : (List.range maxToolCalls).filterMap (fun i =>
        ((acc.calls.get i).filter (fun c => c.name ≠ "")).map (ToolCallAccumulator.callJson i)) =
        ((List.range maxToolCalls).filter (fun i => nameOf i l ≠ "")).map (toolCall l) := by
      rw [funext hcall, ← filterMap_eq_map, filterMap_filter]
      simp
    unfold ToolCallAccumulator.finish
    rw [hlist]
    dsimp only
    split <;> simp_all

/-! ## The lines -/

theorem splitOn_cons (b : UInt8) (bytes : List UInt8) : (b :: bytes).splitOn 10 =
    if b = 10 then [] :: bytes.splitOn 10 else (bytes.splitOn 10).modifyHead (List.cons b) := by
  unfold List.splitOn
  rw [splitOnP_cons_eq_if_modifyHead]
  by_cases hb : b = 10 <;> simp [hb]

theorem break_not_mem_splitOn (bytes : List UInt8) : ∀ part ∈ bytes.splitOn 10, 10 ∉ part := by
  induction bytes with
  | nil => simp [splitOn_nil]
  | cons b bytes ih =>
    rw [splitOn_cons]
    split
    · exact fun part hpart => (mem_cons.1 hpart).elim (fun h => h ▸ not_mem_nil) (ih part)
    · rename_i hb
      cases hparts : bytes.splitOn 10 with
      | nil => exact nofun
      | cons p parts =>
        rw [hparts] at ih
        intro part hpart
        rcases mem_cons.1 hpart with rfl | hpart
        · exact fun h => (mem_cons.1 h).elim (fun h => hb h.symm) (ih p mem_cons_self)
        · exact ih part (mem_cons_of_mem _ hpart)

/-- The parts of a whole body are its lines and what follows them. -/
theorem splitInclusive_eq (bytes : List UInt8) :
    splitInclusive bytes = lines bytes ++ if rest bytes = [] then [] else [rest bytes] := by
  induction bytes with
  | nil => rfl
  | cons b bytes ih =>
    unfold lines rest at ih ⊢
    unfold splitInclusive
    rw [splitOn_cons, ih]
    cases hparts : bytes.splitOn 10 with
    | nil => exact absurd hparts (splitOn_ne_nil 10 bytes)
    | cons p parts =>
      by_cases hb : b = 10
      · rw [if_pos hb, if_pos hb, hb]
        rfl
      · rw [if_neg hb, if_neg hb]
        cases parts with
        | nil => by_cases hp : p = [] <;> simp [hp]
        | cons q parts => simp

theorem getLast?_line {bytes line : List UInt8} (h : line ∈ lines bytes) : line.getLast? = some 10 := by
  obtain ⟨part, -, rfl⟩ := List.mem_map.1 h
  exact getLast?_concat

theorem getLast?_rest (bytes : List UInt8) : (rest bytes).getLast? ≠ some 10 := by
  intro h
  unfold rest at h
  rw [getLast?_eq_getLast_of_ne_nil (splitOn_ne_nil 10 bytes)] at h
  exact break_not_mem_splitOn bytes _ (getLast_mem _) (mem_of_getLast? h)

/-! ## A whole answer -/

def texts (S : Serde) (ls : List (List UInt8)) : List String := ls.filterMap (lineText S)

def fragments (S : Serde) (ls : List (List UInt8)) : List (Nat × Json) := ls.flatMap (lineFragments S)

/-- The texts forwarded, where there is somebody to forward them to. -/
def forwarded (S : Serde) (tx : Bool) (ls : List (List UInt8)) : List String := if tx then texts S ls else []

/-- No line is too long or tells of an error, and the calls keep to their bounds. -/
structure Passes (S : Serde) (ls : List (List UInt8)) : Prop where
  short : ∀ line ∈ ls, line.length ≤ maxSseLineBytes
  errors : ∀ line ∈ ls, lineError S line = none
  calls : Accepts (fragments S ls)

/-- The content and the calls after the lines `ls`. -/
structure Follows (S : Serde) (tx : Bool) (ls : List (List UInt8)) (s : Progress) : Prop where
  full : s.full = String.join (texts S ls)
  sent : s.sent = forwarded S tx ls
  merged : Merged (fragments S ls) s.acc

variable {S : Serde} {tx : Bool}

variable {ls : List (List UInt8)} {s : Progress}

theorem fragments_append (ls ls' : List (List UInt8)) : fragments S (ls ++ ls') = fragments S ls ++ fragments S ls' := flatMap_append

theorem texts_concat (ls : List (List UInt8)) (line : List UInt8) :
    texts S (ls ++ [line]) = texts S ls ++ (lineText S line).toList := by
  unfold texts
  cases h : lineText S line <;> simp [h]

theorem forwarded_prefix (ls ls' : List (List UInt8)) : forwarded S tx ls <+: forwarded S tx (ls ++ ls') := by
  unfold forwarded texts
  split
  · rw [filterMap_append]
    exact prefix_append _ _
  · exact prefix_rfl

theorem Passes.left {ls' : List (List UInt8)} (h : Passes S (ls ++ ls')) : Passes S ls :=
  ⟨fun line hline => h.short line (mem_append_left _ hline), fun line hline => h.errors line (mem_append_left _ hline),
    (fragments_append ls ls' ▸ h.calls).left⟩

theorem Follows.start (S : Serde) (tx : Bool) : Follows S tx [] ⟨"", .default, []⟩ := ⟨rfl, by cases tx <;> rfl, .default⟩

/-- What a line says is added, where the calls are merged. -/
theorem Follows.add (h : Follows S tx ls s) {line : List UInt8} {acc : ToolCallAccumulator}
    (hmerged : Merged (fragments S (ls ++ [line])) acc) :
    Follows S tx (ls ++ [line]) (match lineText S line with
      | some text => ⟨s.full ++ text, acc, if tx then s.sent ++ [text] else s.sent⟩
      | none => { s with acc := acc }) := by
  cases hline : lineText S line with
  | none =>
    refine ⟨?_, ?_, hmerged⟩
    · rw [texts_concat, hline, toList_none, append_nil]
      exact h.full
    · rw [forwarded, texts_concat, hline, toList_none, append_nil]
      exact h.sent
  | some text =>
    refine ⟨?_, ?_, hmerged⟩
    · rw [texts_concat, hline, join_toList, ← h.full]
      rfl
    · rw [forwarded, texts_concat, hline, h.sent]
      cases tx <;> rfl

/-- **One line**: an error where it tells of one, and where the calls leave their bounds; else what it says is added. -/
theorem Follows.line (h : Follows S tx ls s) (line : List UInt8) :
    (∃ s', applySseLine S tx line s = .ok s' ∧ lineError S line = none ∧ Follows S tx (ls ++ [line]) s') ∨
      (∃ e, applySseLine S tx line s = .error e) ∧ (lineError S line = none → ¬ Accepts (fragments S (ls ++ [line]))) := by
  have hfragments : fragments S (ls ++ [line]) = fragments S ls ++ lineFragments S line := by
    rw [fragments_append]
    exact congrArg _ (append_nil _)
  unfold applySseLine
  cases hdata : lineData S line with
  | none =>
    have htext : lineText S line = none := by rw [lineText, hdata]; rfl
    have hnone : lineFragments S line = [] := by rw [lineFragments, hdata]; rfl
    have hmerged : Merged (fragments S (ls ++ [line])) s.acc := by
      rw [hfragments, hnone, append_nil]
      exact h.merged
    have hadd := h.add hmerged
    rw [htext] at hadd
    exact .inl ⟨s, rfl, by rw [lineError, hdata]; rfl, hadd⟩
  | some parsed =>
    dsimp only
    have herror : lineError S line = (parsed.get? "error").filter (fun e => !isNull e) := by rw [lineError, hdata]; rfl
    have hcalls : lineFragments S line = fragmentsOf ((deltaOf parsed).bind (fun d => d.get? "tool_calls")) := by
      rw [lineFragments, hdata]
      rfl
    have htext : lineText S line = (((deltaOf parsed).bind (fun d => d.get? "content")).bind asStr).filter (fun text => text ≠ "") := by
      rw [lineText, hdata]
      rfl
    rw [herror, hfragments, hcalls]
    cases (parsed.get? "error").filter (fun e => !isNull e) with
    | some error => exact .inr ⟨⟨_, rfl⟩, fun hnone => nomatch hnone⟩
    | none =>
      unfold applyDelta
      rcases h.merged.apply ((deltaOf parsed).bind (fun d => d.get? "tool_calls")) with
        ⟨acc', happly, hmerged⟩ | ⟨⟨e, happly⟩, hbad⟩
      · rw [← hcalls, ← hfragments] at hmerged
        have hadd := h.add hmerged
        rw [happly, ← htext]
        cases hline : lineText S line <;> rw [hline] at hadd <;> exact .inl ⟨_, rfl, rfl, hadd⟩
      · rw [happly]
        exact .inr ⟨⟨e, rfl⟩, fun _ => hbad⟩

/-- **All lines**: they pass, and what they say is what is kept, or one of them stops the reader. -/
theorem Follows.lines (h : Follows S tx ls s) (hpasses : Passes S ls) {ls' : List (List UInt8)}
    (hbreaks : ∀ line ∈ ls', line.getLast? = some 10) :
    (∃ s', ls'.foldl (Reader.part S tx) (.reading [] s) = .reading [] s' ∧ Passes S (ls ++ ls') ∧ Follows S tx (ls ++ ls') s') ∨
      ∃ e s', ls'.foldl (Reader.part S tx) (.reading [] s) = .stopped e s' ∧ ¬ Passes S (ls ++ ls') ∧
        s'.sent <+: forwarded S tx (ls ++ ls') := by
  induction ls' generalizing ls s with
  | nil =>
    rw [append_nil]
    exact .inl ⟨s, rfl, hpasses, h⟩
  | cons line ls' ih =>
    have hlast : line ∈ ls ++ [line] := mem_append_right _ mem_cons_self
    rw [foldl_cons, ← singleton_append, ← append_assoc, part_fresh, if_pos (hbreaks line mem_cons_self)]
    have hstop : ∀ e, ¬ Passes S (ls ++ [line]) → ∃ e' s', ls'.foldl (Reader.part S tx) (.stopped e s) = .stopped e' s' ∧
        ¬ Passes S (ls ++ [line] ++ ls') ∧ s'.sent <+: forwarded S tx (ls ++ [line] ++ ls') := fun e hbad =>
      ⟨e, s, foldl_stopped S tx e s ls', fun h => hbad h.left, by
        rw [h.sent, append_assoc]
        exact forwarded_prefix ls ([line] ++ ls')⟩
    split
    · rename_i hlong
      exact .inr (hstop _ (fun h => absurd (h.short line hlast) (Nat.not_le.2 hlong)))
    · rename_i hshort
      rcases h.line line with ⟨s', happly, herror, hadd⟩ | ⟨⟨e, happly⟩, hbad⟩
      · rw [happly]
        have hline : Passes S (ls ++ [line]) := by
          refine ⟨fun x hx => ?_, fun x hx => ?_, hadd.merged.accepts⟩
          · rcases mem_append.1 hx with hx | hx
            · exact hpasses.short x hx
            · rw [mem_singleton.1 hx]
              exact Nat.le_of_not_lt hshort
          · rcases mem_append.1 hx with hx | hx
            · exact hpasses.errors x hx
            · rw [mem_singleton.1 hx]
              exact herror
        exact ih hadd hline (fun x hx => hbreaks x (mem_cons_of_mem _ hx))
      · rw [happly]
        exact .inr (hstop e (fun h => hbad (h.errors line hlast) h.calls))

/-- What an answer of these lines is: its texts joined, and the named calls in the order of their indexes, each with its
first id and the arguments of its fragments joined. -/
structure Answers (S : Serde) (ls : List (List UInt8)) (answer : ChatOutput) : Prop where
  content : answer.content = String.join (texts S ls)
  calls : ∃ indexes : List Nat, indexes.Pairwise (· < ·) ∧ (∀ i, i ∈ indexes ↔ nameOf i (fragments S ls) ≠ "") ∧
    answer.toolCalls = if indexes = [] then none else some (.arr (indexes.map (toolCall (fragments S ls))))

/-- **What an answer comes to depends on its bytes alone**, and never on a subtraction that fails: it succeeds where its
lines pass, and is then what they say, with the content all that was sent; where it fails a part of it was sent. -/
theorem streamSse_exact (S : Serde) (tx : Bool) (chunks : List (List UInt8)) : streamSse S tx chunks = streamSse S tx [chunks.flatten] ∧
    ∃ out, streamSse S tx chunks = some out ∧ out.sent <+: forwarded S tx (lines chunks.flatten) ∧
      ((∃ answer, out.result = .ok answer) ↔ Passes S (lines chunks.flatten) ∧ (rest chunks.flatten).length ≤ maxSseLineBytes) ∧
      ∀ answer, out.result = .ok answer → Answers S (lines chunks.flatten) answer ∧
        out.sent = forwarded S tx (lines chunks.flatten) ∧ (tx = true → answer.content = String.join out.sent) := by
  refine ⟨by rw [streamSse, streamSse, chunks_eq, chunks_eq, flatten_cons, flatten_nil, append_nil], ?_⟩
  unfold streamSse
  rw [chunks_eq, Reader.chunk, splitInclusive_eq, foldl_append, Reader.start]
  have hempty : Passes S [] := ⟨nofun, nofun, Merged.default.accepts⟩
  rcases (Follows.start S tx).lines hempty (fun line hline => getLast?_line hline) with
    ⟨s, hrun, hpasses, hfollows⟩ | ⟨e, s, hrun, hbad, hsent⟩
  · have hanswer : ∀ answer, (Except.ok ⟨s.full, s.acc.finish⟩ : Except Error ChatOutput) = .ok answer →
        Answers S (lines chunks.flatten) answer ∧ s.sent = forwarded S tx (lines chunks.flatten) ∧
          (tx = true → answer.content = String.join s.sent) := by
      intro answer h
      cases h
      refine ⟨⟨hfollows.full, hfollows.merged.finish⟩, hfollows.sent, fun htx => ?_⟩
      rw [hfollows.sent, forwarded, if_pos htx]
      exact hfollows.full
    have hprefix : s.sent <+: forwarded S tx (lines chunks.flatten) := hfollows.sent ▸ prefix_rfl
    rw [hrun]
    by_cases hrest : rest chunks.flatten = []
    · rw [hrest]
      exact ⟨_, rfl, hprefix, ⟨fun _ => ⟨hpasses, Nat.zero_le _⟩, fun _ => ⟨_, rfl⟩⟩, hanswer⟩
    · rw [if_neg hrest, foldl_cons, part_fresh]
      by_cases hlong : maxSseLineBytes < (rest chunks.flatten).length
      · rw [if_pos hlong]
        have hbad : ¬ (rest chunks.flatten).length ≤ maxSseLineBytes := Nat.not_le.2 hlong
        exact ⟨_, rfl, hprefix, ⟨(fun ⟨_, h⟩ => nomatch h), fun h => absurd h.2 hbad⟩, fun _ h => nomatch h⟩
      · rw [if_neg hlong, if_neg (getLast?_rest _)]
        exact ⟨_, rfl, hprefix, ⟨fun _ => ⟨hpasses, Nat.le_of_not_lt hlong⟩, fun _ => ⟨_, rfl⟩⟩, hanswer⟩
  · rw [hrun]
    have hstopped : (if rest chunks.flatten = [] then [] else [rest chunks.flatten]).foldl (Reader.part S tx) (.stopped e s) =
        .stopped e s := foldl_stopped S tx e s _
    rw [hstopped]
    exact ⟨_, rfl, hsent, ⟨(fun ⟨_, h⟩ => nomatch h), fun h => absurd h.1 hbad⟩, fun _ h => nomatch h⟩

/-- A letter of two bytes that a chunk ends in the middle of. -/
example : ((fun line : List UInt8 => (streamSse ⟨Json.parse, fun j => String.ofList j.write⟩ true
      [line.take 40, line.drop 40]).map Outcome.sent)
    "data: \x7b\"choices\":[\x7b\"delta\":\x7b\"content\":\"é\"\x7d\x7d]\x7d\n".toUTF8.toList) = some ["é"] := by
  decide +kernel

end Sse
end Mistl.Ai
