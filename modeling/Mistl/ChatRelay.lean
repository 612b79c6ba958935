import Mistl.Lib.JsonLine
import Mistl.Lib.JsonPrefix
import Mistl.Lib.LogLines
import Mistl.Lib.Runs
import Mistl.Lib.Serde
import Mistl.Lib.Table
import Mistl.Wiresign
/-!
# ChatRelay — the log of a room's signed wires

`chat_relay/mod.rs`.  A wire whose id is not in the log yet and that verifies is appended, within the limits of who
sent and who signed it; a full log is cut to its newest lines by an atomic rewrite, an append is not atomic.
-/
open List Option

namespace Mistl.ChatRelay

open LogLines (terminated pieces cutLast whole)

def wirelogCap : Nat := 600

def wirelogCompactSlack : Nat := 64

def maxWireBytes : Nat := 64 * 1024

/-- `WIRE_POST`, `WIRE_REACTION`, `WIRE_POST_EDIT`, `WIRE_POST_DELETE` -/
def wireTypes : List String := ["tc-chat:post", "tc-chat:reaction", "tc-chat:post-edit", "tc-chat:post-delete"]

/-! ## The index of a room's log -/

structure RoomIds where
  order : List String
  set : Finset String
  nodup : order.Nodup
  synced : ∀ id, id ∈ set ↔ id ∈ order

variable {id : String}

namespace RoomIds

def empty : RoomIds := ⟨[], ∅, nodup_nil, fun _ => by simp⟩

def contains (ids : RoomIds) (id : String) : Bool := decide (id ∈ ids.set)

def push (ids : RoomIds) (id : String) : RoomIds :=
  if h : id ∈ ids.set then ids
  else ⟨ids.order ++ [id], insert id ids.set, by
    rw [nodup_append]
    refine ⟨ids.nodup, nodup_singleton id, fun a ha b hb heq => h ((ids.synced id).2 ?_)⟩
    rw [← mem_singleton.1 hb, ← heq]
    exact ha, fun x => by
    rw [Finset.mem_insert, ids.synced, mem_append, mem_singleton, or_comm]⟩

theorem contains_iff {ids : RoomIds} : ids.contains id = true ↔ id ∈ ids.order := by
  rw [contains, decide_eq_true_eq, ids.synced]

theorem push_order {ids : RoomIds} (h : id ∉ ids.order) : (ids.push id).order = ids.order ++ [id] := by
  rw [push, dif_neg (fun hmem => h ((ids.synced id).1 hmem))]

end RoomIds

def lineId (line : List UInt8) : Option String := ((Json.valueOf line).bind (fun v => v.get? "id")).bind Json.asStr

def newest (lines : List (List UInt8)) : List (List UInt8) := lines.drop (lines.length - wirelogCap)

def logIds (file : List UInt8) : List String := (pieces Json.newline file).filterMap lineId

def RoomIds.fromLines (lines : List (List UInt8)) : RoomIds := (lines.filterMap lineId).foldl RoomIds.push RoomIds.empty

theorem RoomIds.foldl_push : ∀ {ids : List String} {start : RoomIds}, (start.order ++ ids).Nodup →
    (ids.foldl RoomIds.push start).order = start.order ++ ids
  | [], start, _ => (append_nil _).symm
  | id :: ids, start, h => by
    have hid : id ∉ start.order := fun hmem => (nodup_append.1 h).2.2 id hmem id mem_cons_self rfl
    have hpush := push_order hid
    rw [foldl_cons, RoomIds.foldl_push (by rw [hpush, append_assoc]; exact h), hpush, append_assoc]
    rfl

theorem RoomIds.fromLines_order {lines : List (List UInt8)} (h : (lines.filterMap lineId).Nodup) :
    (RoomIds.fromLines lines).order = lines.filterMap lineId := RoomIds.foldl_push h

/-! ## Wires -/

/-- What `register_handler` and the first checks of `handle_wire` let through, with its id: history requests and what is not of
a stored type are left out. -/
def accept (raw : List UInt8) : Option (String × List (String × Json)) :=
  if maxWireBytes < raw.length then none
  else match Json.valueOf raw with
    | some (.obj obj) =>
      match ((Json.obj obj).get? "type").bind Json.asStr with
      | some wireType => if wireType ∈ wireTypes then (((Json.obj obj).get? "id").bind Json.asStr).map (fun id => (id, obj)) else none
      | none => none
    | _ => none

/-- `verify_wire` of `chat_relay/mod.rs` -/
def verifyWire (C : Crates) (obj : List (String × Json)) : Bool :=
  match ((Json.obj obj).get? "fromId").bind Json.asStr, ((Json.obj obj).get? "signature").bind Json.asStr with
  | some fromId, some signature =>
    match C.b64Decode signature with
    | some sig => verifyDid C fromId (Json.utf8 (Wiresign.signingPayload obj)) sig
    | none => false
  | _, _ => false

structure Wire where
  raw : List UInt8
  id : String
  obj : List (String × Json)
  accepted : accept raw = some (id, obj)

/-- Where a call of `handle_wire` stands: before it looks for the id, before the limit of the node, before the limits of the
signer and of all, and before `persist_wire`. -/
inductive Stage where
  | arrived
  | unknown
  | verified
  | allowed
  deriving DecidableEq

/-- How many sections a call still has before it. -/
def Stage.sections : Stage → Nat
  | .arrived => 4
  | .unknown => 3
  | .verified => 2
  | .allowed => 1

structure Call where
  wire : Wire
  stage : Stage

/-- A room: its log, the index once it is loaded, and the calls under way.  `kept` are the wires that were appended since the
start, and `crashes` counts the starts before it. -/
structure Room where
  file : List UInt8
  index : Option RoomIds
  calls : Table Nat Call
  next : Nat
  kept : List (List UInt8)
  crashes : Nat

/-- A message arrives, a call does its next section (a limiter it asks may refuse), or the process dies, perhaps in an append: some
bytes of the last line are left. -/
inductive Act where
  | receive (raw : List UInt8)
  | go (call : Nat) (allow : Bool)
  | crash (during : Option Nat) (n : Nat)

def Act.goes (c : Nat) : Act → Bool
  | .go d _ => decide (d = c)
  | _ => false

namespace Room

def start : Room := ⟨[], none, ∅, 0, [], 0⟩

def roomIds (x : Room) : RoomIds := x.index.getD (.fromLines (pieces Json.newline x.file))

def put (x : Room) (c : Nat) (call : Call) : Room := { x with calls := x.calls.insert c call }

def finish (x : Room) (c : Nat) : Room := { x with calls := x.calls.erase c }

/-- `persist_wire` appends the wire. -/
def appends (x : Room) (wire : Wire) : Bool := decide (Json.newline ∉ wire.raw) && !x.roomIds.contains wire.id

def appended (x : Room) (wire : Wire) : List UInt8 := x.file ++ (wire.raw ++ [Json.newline])

def persistWire (x : Room) (wire : Wire) : Room :=
  if Json.newline ∈ wire.raw then x
  else
    let ids := x.roomIds
    if ids.contains wire.id then { x with index := some ids }
    else
      let file := x.appended wire
      let ids := ids.push wire.id
      let kept := x.kept ++ [wire.raw]
      if wirelogCap + wirelogCompactSlack < ids.order.length then
        let lines := newest (pieces Json.newline file)
        { x with file := terminated Json.newline lines, index := some (.fromLines lines), kept }
      else { x with file, index := some ids, kept }

/-- One section of `handle_wire`. -/
def handleWire (C : Crates) (x : Room) (c : Nat) (allow : Bool) (call : Call) : Room :=
  match call.stage with
  | .arrived =>
    let ids := x.roomIds
    let x := { x with index := some ids }
    if ids.contains call.wire.id then x.finish c else x.put c { call with stage := .unknown }
  | .unknown =>
    if allow = false then x.finish c
    else if verifyWire C call.wire.obj = false then x.finish c
    else x.put c { call with stage := .verified }
  | .verified => if allow = false then x.finish c else x.put c { call with stage := .allowed }
  | .allowed => (x.persistWire call.wire).finish c

def written (x : Room) : Option Nat → Option (List UInt8)
  | none => some x.file
  | some c => (x.calls.get c).bind (fun call =>
      if call.stage = .allowed ∧ x.appends call.wire = true then some (x.appended call.wire) else none)

def step (C : Crates) (x : Room) : Act → Option Room
  | .receive raw =>
    match h : accept raw with
    | none => some x
    | some (id, obj) => some { x.put x.next ⟨⟨raw, id, obj, h⟩, .arrived⟩ with next := x.next + 1 }
  | .go c allow => (x.calls.get c).map (x.handleWire C c allow)
  | .crash during n => (x.written during).map (fun file => ⟨cutLast Json.newline n file, none, ∅, x.next, [], x.crashes + 1⟩)

def run (C : Crates) (acts : List Act) : Option Room := Runs.run (step C) start acts

def steady (x : Room) : Act → Bool
  | .go c _ => (x.calls.get c).all (fun call => !(decide (call.stage = .allowed) && x.appends call.wire) || whole Json.newline x.file)
  | .crash (some _) _ => whole Json.newline x.file
  | _ => true

end Room
/-! ## What a log is made of -/

def Verified (C : Crates) (raw : List UInt8) : Prop := Json.newline ∉ raw ∧ ∃ wire : Wire, wire.raw = raw ∧ verifyWire C wire.obj = true

variable {raw : List UInt8} {obj : List (String × Json)}

theorem accept_eq_some (h : accept raw = some (id, obj)) :
    Json.valueOf raw = some (.obj obj) ∧ ((Json.obj obj).get? "id").bind Json.asStr = some id := by
  unfold accept at h
  split at h
  · cases h
  split at h
  · rename_i obj' hvalue
    split at h
    · split at h
      · obtain ⟨id', hid, heq⟩ := map_eq_some_iff.1 h
        cases heq
        exact ⟨hvalue, hid⟩
      · cases h
    · cases h
  · cases h

theorem lineId_of_accept (h : accept raw = some (id, obj)) : lineId raw = some id := by
  obtain ⟨hvalue, hid⟩ := accept_eq_some h
  rw [lineId, hvalue, bind_some, hid]

theorem valueOf_cut {raw cut : List UInt8} {v : Json} (hraw : Json.valueOf raw = some (.obj obj))
    (hcut : cut <+: raw) (h : Json.valueOf cut = some v) : v = .obj obj := by
  obtain ⟨j, hj, hvalue⟩ := map_eq_some_iff.1 hraw
  obtain ⟨k, hk, rfl⟩ := map_eq_some_iff.1 h
  cases j with
  | obj fields =>
    rw [Json.fromSlice_cut hj hcut hk]
    exact hvalue
  | _ => cases hvalue

theorem lineId_cut {raw cut : List UInt8} {id id' : String} (hraw : accept raw = some (id, obj))
    (hcut : cut <+: raw) (h : lineId cut = some id') : id' = id := by
  obtain ⟨hvalue, hid⟩ := accept_eq_some hraw
  obtain ⟨i, hi, hstr⟩ := bind_eq_some_iff.1 h
  obtain ⟨v, hv, hget⟩ := bind_eq_some_iff.1 hi
  rw [valueOf_cut hvalue hcut hv] at hget
  rw [hget, bind_some, hstr] at hid
  exact Option.some.inj hid

theorem Verified.lineId {C : Crates} (h : Verified C raw) : ∃ id, lineId raw = some id := by
  obtain ⟨-, wire, rfl, -⟩ := h
  exact ⟨wire.id, lineId_of_accept wire.accepted⟩

theorem Verified.ne_nil {C : Crates} (h : Verified C raw) : raw ≠ [] := by
  rintro rfl
  obtain ⟨id, hid⟩ := h.lineId
  have : ChatRelay.lineId [] = none := by decide
  cases hid

/-- A log: the lines of wires that verified, of ids of their own, and of one more wire what a crash has left. -/
structure Shape (C : Crates) (file : List UInt8) (wires : List (List UInt8)) (tail : List UInt8) : Prop where
  file_eq : file = terminated Json.newline wires ++ tail
  verified : ∀ raw ∈ wires, Verified C raw
  nodup : (wires.filterMap lineId).Nodup
  torn : tail = [] ∨ ∃ last id, Verified C last ∧ lineId last = some id ∧ tail <+: last ∧ id ∉ wires.filterMap lineId

namespace Shape

variable {C : Crates} {file : List UInt8} {wires : List (List UInt8)} {tail : List UInt8}

section

variable (h : Shape C file wires tail)

include h

theorem newline_notMem : Json.newline ∉ tail := by
  rcases h.torn with rfl | ⟨last, id, hlast, -, hstarts, -⟩
  · exact not_mem_nil
  · exact fun hmem => hlast.1 (hstarts.subset hmem)

theorem pieces_eq : pieces Json.newline file = wires ++ [tail].filter (· ≠ []) := by
  rw [h.file_eq]
  exact LogLines.pieces_terminated (fun raw hraw => ⟨(h.verified raw hraw).1, (h.verified raw hraw).ne_nil⟩) h.newline_notMem

theorem logIds_eq : logIds file = wires.filterMap lineId ++ ([tail].filter (· ≠ [])).filterMap lineId := by
  rw [logIds, h.pieces_eq, filterMap_append]

theorem tail_eq_nil (hwhole : whole Json.newline file = true) : tail = [] := by
  rw [h.file_eq] at hwhole
  exact LogLines.eq_nil_of_whole h.newline_notMem hwhole

theorem length_ids : (wires.filterMap lineId).length = wires.length := by
  refine filterMap_length_eq_length.2 (fun raw hraw => ?_)
  obtain ⟨id, hid⟩ := (h.verified raw hraw).lineId
  rw [hid]
  rfl

theorem nodup_logIds : (logIds file).Nodup := by
  rw [h.logIds_eq, nodup_append]
  refine ⟨h.nodup, ?_, fun a ha b hb heq => ?_⟩
  · have hsub := (filter_sublist (l := [tail]) (p := (· ≠ []))).filterMap lineId
    refine Nodup.sublist hsub ?_
    cases hid : lineId tail with
    | none => rw [filterMap_cons_none hid]; exact nodup_nil
    | some id => rw [filterMap_cons_some hid]; exact nodup_singleton id
  · obtain ⟨piece, hpiece, hid⟩ := mem_filterMap.1 hb
    obtain ⟨htail, hne⟩ := mem_filter.1 hpiece
    rw [mem_singleton.1 htail] at hid hne
    rcases h.torn with rfl | ⟨last, id, ⟨-, wire, rfl, -⟩, hlast, hstarts, hnew⟩
    · cases hne
    · rw [lineId_of_accept wire.accepted] at hlast
      cases hlast
      rw [lineId_cut wire.accepted hstarts hid] at heq
      exact hnew (heq ▸ ha)

end

theorem of_whole (h : Shape C file wires []) : pieces Json.newline file = wires ∧ logIds file = wires.filterMap lineId := by
  have hp := h.pieces_eq
  have hl := h.logIds_eq
  rw [filter_cons_of_neg (by simp), filter_nil, append_nil] at hp
  rw [filter_cons_of_neg (by simp), filter_nil, filterMap_nil, append_nil] at hl
  exact ⟨hp, hl⟩

theorem append (h : Shape C file wires []) (hraw : Verified C raw) (hid : lineId raw = some id)
    (hnew : id ∉ logIds file) : Shape C (file ++ (raw ++ [Json.newline])) (wires ++ [raw]) [] := by
  rw [h.of_whole.2] at hnew
  refine ⟨?_, fun w hw => ?_, ?_, .inl rfl⟩
  · rw [h.file_eq, append_nil, append_nil, LogLines.terminated_append, LogLines.terminated_singleton]
  · rcases mem_append.1 hw with hw | hw
    · exact h.verified w hw
    · rw [mem_singleton.1 hw]
      exact hraw
  · rw [filterMap_append, filterMap_cons_some hid, nodup_append]
    refine ⟨h.nodup, nodup_singleton _, fun a ha b hb heq => hnew ?_⟩
    rw [← mem_singleton.1 hb, ← heq]
    exact ha

theorem compact (h : Shape C file wires []) : Shape C (terminated Json.newline (newest wires)) (newest wires) [] := by
  refine ⟨(append_nil _).symm, fun raw hraw => h.verified raw (mem_of_mem_drop hraw), ?_, .inl rfl⟩
  exact h.nodup.sublist ((drop_sublist _ wires).filterMap lineId)

theorem cut (h : Shape C file wires tail) (n : Nat) : ∃ wires' tail', Shape C (cutLast Json.newline n file) wires' tail' ∧
    (pieces Json.newline (cutLast Json.newline n file)).length ≤ (pieces Json.newline file).length := by
  by_cases htail : tail = []
  · subst htail
    rcases eq_nil_or_concat' wires with rfl | ⟨before, line, rfl⟩
    · have hcut : cutLast Json.newline n file = [] := by
        rw [h.file_eq]
        simp [cutLast, LogLines.stem, terminated]
      rw [hcut]
      exact ⟨[], [], ⟨rfl, h.verified, h.nodup, .inl rfl⟩, Nat.zero_le _⟩
    · have hline := h.verified line (mem_append_right _ (mem_singleton_self _))
      have hbefore : ∀ raw ∈ before, Verified C raw := fun raw hraw => h.verified raw (mem_append_left _ hraw)
      obtain ⟨id, hid⟩ := hline.lineId
      have hnodup := h.nodup
      rw [filterMap_append, filterMap_cons_some hid, nodup_append] at hnodup
      have hcut := LogLines.cutLast_terminated before hline.1 n
      have hfile := h.file_eq
      rw [append_nil] at hfile
      by_cases hn : n ≤ line.length
      · rw [take_append_of_le_length hn, ← hfile] at hcut
        have hshape : Shape C (cutLast Json.newline n file) before (line.take n) := by
          refine ⟨hcut, hbefore, hnodup.1, .inr ⟨line, id, hline, hid, take_prefix _ _, fun hmem => ?_⟩⟩
          exact hnodup.2.2 id hmem id (mem_singleton_self _) rfl
        refine ⟨before, line.take n, hshape, ?_⟩
        rw [hshape.pieces_eq, h.of_whole.1, length_append, length_append]
        exact Nat.add_le_add_left (length_filter_le _ _) _
      · rw [take_of_length_le (by rw [length_append, length_singleton]; omega)] at hcut
        rw [hfile, hcut, ← LogLines.terminated_singleton, ← LogLines.terminated_append, ← hfile]
        exact ⟨_, [], h, Nat.le_refl _⟩
  · have hcut := LogLines.cutLast_torn wires h.newline_notMem htail n
    rw [← h.file_eq] at hcut
    have hshape : Shape C (cutLast Json.newline n file) wires (tail.take n) := by
      refine ⟨hcut, h.verified, h.nodup, .inr ?_⟩
      obtain ⟨last, id, hlast, hid, hstarts, hnew⟩ := h.torn.resolve_left htail
      exact ⟨last, id, hlast, hid, ( take_prefix _ _).trans hstarts, hnew⟩
    refine ⟨wires, tail.take n, hshape, ?_⟩
    have hone : [tail].filter (· ≠ []) = [tail] := filter_cons_of_pos (by simpa using htail)
    rw [hshape.pieces_eq, h.pieces_eq, length_append, length_append, hone]
    exact Nat.add_le_add_left (length_filter_le _ _) _

end Shape

/-! ## Over a run -/

namespace Room

def Keeps (wires kept : List (List UInt8)) : Prop := ∃ old m, wires = old ++ kept.drop m ∧ (m = 0 ∨ wirelogCap + m ≤ kept.length)

section

variable {wires kept : List (List UInt8)} (h : Keeps wires kept)

include h

theorem Keeps.append (raw : List UInt8) : Keeps (wires ++ [raw]) (kept ++ [raw]) := by
  obtain ⟨old, m, rfl, hm⟩ := h
  have hle : m ≤ kept.length := by
    rcases hm with rfl | hm
    · exact Nat.zero_le _
    · omega
  refine ⟨old, m, by rw [append_assoc, drop_append_of_le_length hle], ?_⟩
  rw [length_append]
  omega

theorem Keeps.compact : Keeps (newest wires) kept := by
  obtain ⟨old, m, rfl, hm⟩ := h
  rw [newest]
  by_cases hlen : (kept.drop m).length ≤ wirelogCap
  · refine ⟨old.drop ((old ++ kept.drop m).length - wirelogCap), m, ?_, hm⟩
    rw [drop_append_of_le_length]
    rw [length_append]
    omega
  · rw [length_drop] at hlen
    refine ⟨[], kept.length - wirelogCap, ?_, .inr (by omega)⟩
    rw [nil_append, drop_append, drop_eq_nil_of_le, drop_drop]
    · refine congrArg (fun n => List.drop n kept) ?_
      rw [length_append, length_drop]
      omega
    · rw [length_append, length_drop]
      omega

theorem Keeps.mem {i : Nat} (hi : kept[i]? = some raw) : raw ∈ wires ∨ wirelogCap + i + 1 ≤ kept.length := by
  obtain ⟨old, m, rfl, hm⟩ := h
  by_cases hmi : m ≤ i
  · refine .inl (mem_append_right _ (mem_of_getElem? (i := i - m) ?_))
    rw [getElem?_drop, Nat.add_sub_cancel' hmi]
    exact hi
  · exact .inr (by omega)

end

structure Sound (C : Crates) (x : Room) : Prop where
  shape : ∃ wires tail, Shape C x.file wires tail ∧ Keeps wires x.kept
  index : ∀ ids, x.index = some ids → ids.order = logIds x.file
  bounded : (pieces Json.newline x.file).length ≤ wirelogCap + wirelogCompactSlack + x.crashes
  numbered : ∀ c call, x.calls.get c = some call → c < x.next
  verified : ∀ c call, x.calls.get c = some call → call.stage = .verified ∨ call.stage = .allowed → verifyWire C call.wire.obj = true

variable {C : Crates}

theorem sound_start (C : Crates) : start.Sound C := by
  refine ⟨⟨[], [], ⟨rfl, fun _ h => (by cases h), nodup_nil, .inl rfl⟩, [], 0, rfl, .inl rfl⟩, fun _ h => (by cases h), ?_,
    fun _ _ h => (by cases h), fun _ _ h => (by cases h)⟩
  exact Nat.zero_le _

variable {c : Nat}

variable {call : Call}

variable {n : Nat}

namespace Sound

variable {x : Room}

section

variable (h : x.Sound C)

include h

theorem roomIds_order : x.roomIds.order = logIds x.file := by
  obtain ⟨wires, tail, hshape, -⟩ := h.shape
  rw [roomIds]
  cases hindex : x.index with
  | none => exact RoomIds.fromLines_order hshape.nodup_logIds
  | some ids => exact h.index ids hindex

theorem contains_iff : x.roomIds.contains id = true ↔ id ∈ logIds x.file := by
  rw [RoomIds.contains_iff, h.roomIds_order]

theorem load : Sound C { x with index := some x.roomIds } :=
  ⟨h.shape, fun ids hids => by cases hids; exact h.roomIds_order, h.bounded, h.numbered, h.verified⟩

theorem finish (c : Nat) : (x.finish c).Sound C := by
  have hget : ∀ {d call}, (x.finish c).calls.get d = some call → x.calls.get d = some call := by
    intro d call hd
    exact (Table.of_get_erase hd).2
  exact ⟨h.shape, h.index, h.bounded, fun d call hd => h.numbered d call (hget hd), fun d call hd => h.verified d call (hget hd)⟩

theorem put (hc : c < x.next)
    (hcall : call.stage = .verified ∨ call.stage = .allowed → verifyWire C call.wire.obj = true) : (x.put c call).Sound C := by
  have hget : ∀ {d call'}, (x.put c call).calls.get d = some call' → (d = c ∧ call' = call) ∨ x.calls.get d = some call' := by
    intro d call' hd
    exact (Table.of_get_insert hd).imp (fun h => ⟨h.1, h.2.symm⟩) And.right
  refine ⟨h.shape, h.index, h.bounded, fun d call' hd => ?_, fun d call' hd hstage => ?_⟩
  · rcases hget hd with ⟨rfl, -⟩ | hd
    · exact hc
    · exact h.numbered d call' hd
  · rcases hget hd with ⟨-, rfl⟩ | hd
    · exact hcall hstage
    · exact h.verified d call' hd hstage

theorem shape_appended {wire : Wire} (hverify : verifyWire C wire.obj = true) (happends : x.appends wire = true)
    (hwhole : whole Json.newline x.file = true) :
    ∃ wires, Shape C x.file wires [] ∧ Keeps wires x.kept ∧ Shape C (x.appended wire) (wires ++ [wire.raw]) [] := by
  obtain ⟨wires, tail, hshape, hkeeps⟩ := h.shape
  obtain rfl := hshape.tail_eq_nil hwhole
  rw [appends, Bool.and_eq_true, decide_eq_true_eq] at happends
  obtain ⟨hnewline, hnew⟩ := happends
  refine ⟨wires, hshape, hkeeps, hshape.append ⟨hnewline, wire, rfl, hverify⟩ (lineId_of_accept wire.accepted) (fun hmem => ?_)⟩
  rw [h.contains_iff.2 hmem] at hnew
  cases hnew

/-- **`persist_wire` leaves the log as it is, or appends the wire** and may drop the oldest lines. -/
theorem persistWire {wire : Wire} (hverify : verifyWire C wire.obj = true)
    (hwhole : x.appends wire = true → whole Json.newline x.file = true) : (x.persistWire wire).Sound C := by
  rw [Room.persistWire]
  split
  · exact h
  rename_i hnewline
  simp only
  split
  · exact h.load
  · rename_i hnew
    have happends : x.appends wire = true := by
      rw [appends, decide_eq_true hnewline, Bool.eq_false_iff.2 hnew]
      rfl
    obtain ⟨wires, hshape, hkeeps, hgrown⟩ := h.shape_appended hverify happends (hwhole happends)
    have hpush : (x.roomIds.push wire.id).order = logIds (x.appended wire) := by
      rw [RoomIds.push_order (fun hmem => hnew (RoomIds.contains_iff.2 hmem)), h.roomIds_order, hshape.of_whole.2,
        hgrown.of_whole.2, filterMap_append, filterMap_cons_some (lineId_of_accept wire.accepted), filterMap_nil]
    have hlength : (pieces Json.newline (x.appended wire)).length = (x.roomIds.push wire.id).order.length := by
      rw [hpush, hgrown.of_whole.2, hgrown.length_ids, hgrown.of_whole.1]
    split
    · have hcompact := hgrown.compact
      have hnewest := (hkeeps.append wire.raw).compact
      rw [hgrown.of_whole.1]
      refine ⟨⟨newest (wires ++ [wire.raw]), [], ?_, ?_⟩, fun ids hids => ?_, ?_, h.numbered, h.verified⟩
      · dsimp only
        exact hcompact
      · exact hnewest
      · rw [← Option.some.inj hids]
        dsimp only
        exact (RoomIds.fromLines_order hcompact.nodup).trans hcompact.of_whole.2.symm
      · rw [hcompact.of_whole.1, newest, length_drop]
        omega
    · rename_i hroom
      refine ⟨⟨_, [], hgrown, hkeeps.append wire.raw⟩, fun ids hids => ?_, ?_, h.numbered, h.verified⟩
      · cases hids
        exact hpush
      · rw [hlength]
        exact Nat.le_trans (Nat.not_lt.1 hroom) (Nat.le_add_right _ _)

theorem handleWire (hget : x.calls.get c = some call) (allow : Bool)
    (hok : x.steady (.go c allow) = true) : (x.handleWire C c allow call).Sound C := by
  have hc := h.numbered c call hget
  obtain ⟨wire, stage⟩ := call
  cases stage with
  | arrived =>
    simp only [Room.handleWire]
    split
    · exact h.load.finish c
    · exact h.load.put hc (fun hstage => by rcases hstage with hstage | hstage <;> cases hstage)
  | unknown =>
    simp only [Room.handleWire]
    split
    · exact h.finish c
    split
    · exact h.finish c
    · rename_i hverify
      exact h.put hc (fun _ => Bool.not_eq_false _ ▸ hverify)
  | verified =>
    have hverify := h.verified c _ hget (.inl rfl)
    simp only [Room.handleWire]
    split
    · exact h.finish c
    · exact h.put hc (fun _ => hverify)
  | allowed =>
    rw [steady, hget] at hok
    refine (h.persistWire (h.verified c _ hget (.inr rfl)) (fun happends => ?_)).finish c
    simpa [happends] using hok

theorem crash {during : Option Nat} {file : List UInt8} (hok : x.steady (.crash during n) = true)
    (hfile : x.written during = some file) :
    Sound C ⟨cutLast Json.newline n file, none, ∅, x.next, [], x.crashes + 1⟩ := by
  have hgrown : ∃ wires tail, Shape C file wires tail ∧
      (pieces Json.newline file).length ≤ (pieces Json.newline x.file).length + 1 := by
    cases during with
    | none =>
      cases hfile
      obtain ⟨wires, tail, hshape, -⟩ := h.shape
      exact ⟨wires, tail, hshape, Nat.le_succ _⟩
    | some c =>
      obtain ⟨call, hget, hcall⟩ := bind_eq_some_iff.1 hfile
      split at hcall
      · rename_i happends
        cases hcall
        obtain ⟨wires, hshape, -, hshape'⟩ := h.shape_appended (h.verified c call hget (.inr happends.1)) happends.2 hok
        refine ⟨_, [], hshape', ?_⟩
        rw [hshape'.of_whole.1, hshape.of_whole.1, length_append, length_singleton]
      · cases hcall
  obtain ⟨wires, tail, hshape, hlen⟩ := hgrown
  obtain ⟨wires', tail', hcut, hle⟩ := hshape.cut n
  refine ⟨⟨wires', tail', hcut, wires', 0, (append_nil _).symm, .inl rfl⟩, fun _ hids => (by cases hids), ?_,
    fun _ _ hget => (by cases hget), fun _ _ hget => (by cases hget)⟩
  exact Nat.le_trans hle (Nat.le_trans hlen (Nat.add_le_add_right h.bounded 1))

theorem step {x' : Room} {act : Act} (hok : x.steady act = true) (hstep : Room.step C x act = some x') : x'.Sound C := by
  cases act with
  | receive raw =>
    simp only [Room.step] at hstep
    split at hstep
    · cases hstep
      exact h
    · cases hstep
      have hlater : Sound C { x with next := x.next + 1 } :=
        ⟨h.shape, h.index, h.bounded, fun c call hget => Nat.lt_succ_of_lt (h.numbered c call hget), h.verified⟩
      exact hlater.put (Nat.lt_succ_self x.next) (fun hstage => by rcases hstage with hstage | hstage <;> cases hstage)
  | go c allow =>
    obtain ⟨call, hget, rfl⟩ := map_eq_some_iff.1 hstep
    exact h.handleWire hget allow hok
  | crash during n =>
    obtain ⟨file, hfile, rfl⟩ := map_eq_some_iff.1 hstep
    exact h.crash hok hfile

end

end Sound

theorem sound_run {acts : List Act} {x : Room} (hrun : run C acts = some x)
    (hsteady : Runs.along (step C) steady start acts = true) : x.Sound C :=
  @Runs.invariant Room Act (step C) steady (Sound C) (fun _ _ _ h hok hstep => h.step hok hstep) acts _ _ (sound_start C) hsteady
    hrun

/-! ## What keeps a wire out -/

/-- No limiter refuses the call, the process does not die, and no wire of that id is in the log. -/
def undisturbed (c : Nat) (id : String) (x : Room) : Act → Bool
  | .go d allow => steady x (.go d allow) && (decide (d ≠ c) || allow) && decide (id ∉ logIds x.file)
  | .receive _ => true
  | .crash .. => false

/-- The call has some sections before it, or its wire was appended. -/
def Pursues (c : Nat) (wire : Wire) (sections : Nat) (x : Room) : Prop :=
  (∃ stage : Stage, stage.sections = sections ∧ x.calls.get c = some ⟨wire, stage⟩) ∨ wire.raw ∈ x.kept

theorem Pursues.kept {x : Room} {wire : Wire} (h : x.Pursues c wire 0) : wire.raw ∈ x.kept := by
  refine h.resolve_left ?_
  rintro ⟨stage, hnone, -⟩
  cases stage <;> cases hnone

theorem get_put (x : Room) (c d : Nat) (call : Call) : (x.put c call).calls.get d = if d = c then some call else x.calls.get d :=
  Table.get_insert ..

theorem get_finish (x : Room) (c d : Nat) : (x.finish c).calls.get d = if d = c then none else x.calls.get d := Table.get_erase ..

theorem persistWire_calls (x : Room) (wire : Wire) : (x.persistWire wire).calls = x.calls := by
  rw [persistWire]
  split
  · rfl
  simp only
  split
  · rfl
  split <;> rfl

theorem persistWire_kept (x : Room) (wire : Wire) :
    (x.persistWire wire).kept = x.kept ++ if x.appends wire then [wire.raw] else [] := by
  rw [persistWire, appends]
  split
  · rename_i hnewline
    rw [decide_eq_false (not_not.2 hnewline), Bool.false_and, if_neg Bool.false_ne_true, append_nil]
  rename_i hnewline
  rw [decide_eq_true hnewline, Bool.true_and]
  simp only
  split
  · rename_i hknown
    rw [hknown, Bool.not_true, if_neg Bool.false_ne_true, append_nil]
  rename_i hnew
  rw [Bool.eq_false_iff.2 hnew, Bool.not_false]
  split <;> rfl

theorem handleWire_get {x : Room} {c d : Nat} (h : c ≠ d) (allow : Bool) (call : Call) :
    (x.handleWire C d allow call).calls.get c = x.calls.get c := by
  rw [handleWire]
  split
  · simp only
    split
    · rw [get_finish, if_neg h]
    · rw [get_put, if_neg h]
  · split
    · rw [get_finish, if_neg h]
    split
    · rw [get_finish, if_neg h]
    · rw [get_put, if_neg h]
  · split
    · rw [get_finish, if_neg h]
    · rw [get_put, if_neg h]
  · rw [get_finish, if_neg h, persistWire_calls]

theorem mem_kept_handleWire {x : Room} (h : raw ∈ x.kept) (c : Nat) (allow : Bool) (call : Call) :
    raw ∈ (x.handleWire C c allow call).kept := by
  rw [handleWire]
  split
  · simp only
    split <;> exact h
  · split
    · exact h
    split <;> exact h
  · split <;> exact h
  · show raw ∈ (x.persistWire call.wire).kept
    rw [persistWire_kept]
    exact mem_append_left _ h

theorem pursues_step {x x' : Room} (hsound : x.Sound C) {wire : Wire} {sections : Nat} (h : x.Pursues c wire sections)
    (hverify : verifyWire C wire.obj = true) (hnewline : Json.newline ∉ wire.raw) {act : Act}
    (hok : undisturbed c wire.id x act = true) (hstep : step C x act = some x') :
    x'.Pursues c wire (sections - if act.goes c then 1 else 0) := by
  cases act with
  | receive raw =>
    simp only [step] at hstep
    split at hstep
    · cases hstep
      exact h
    · cases hstep
      rcases h with ⟨stage, hleft, hget⟩ | hkept
      · refine .inl ⟨stage, hleft, (get_put x x.next c _).trans ?_⟩
        rw [if_neg (Nat.ne_of_lt (hsound.numbered c _ hget)), hget]
      · exact .inr hkept
  | go d allow =>
    obtain ⟨call, hd, rfl⟩ := map_eq_some_iff.1 hstep
    rw [undisturbed, Bool.and_eq_true, Bool.and_eq_true, decide_eq_true_eq] at hok
    obtain ⟨⟨-, hallow⟩, hnew⟩ := hok
    rcases h with ⟨stage, rfl, hget⟩ | hkept
    · by_cases hdc : d = c
      · subst hdc
        cases hget.symm.trans hd
        rw [decide_eq_false (not_not.2 rfl)] at hallow
        subst hallow
        rw [Act.goes, decide_eq_true rfl]
        have hunknown : x.roomIds.contains wire.id = false :=
          Bool.eq_false_iff.2 (fun hcontains => hnew (hsound.contains_iff.1 hcontains))
        cases stage with
        | arrived =>
          refine .inl ⟨.unknown, rfl, ?_⟩
          simp only [handleWire]
          rw [hunknown, if_neg Bool.false_ne_true, get_put, if_pos rfl]
        | unknown =>
          refine .inl ⟨.verified, rfl, ?_⟩
          simp only [handleWire]
          rw [if_neg Bool.noConfusion, hverify, if_neg Bool.noConfusion, get_put, if_pos rfl]
        | verified =>
          refine .inl ⟨.allowed, rfl, ?_⟩
          simp only [handleWire]
          rw [if_neg Bool.noConfusion, get_put, if_pos rfl]
        | allowed =>
          refine .inr ?_
          show wire.raw ∈ (x.persistWire wire).kept
          rw [persistWire_kept, appends, decide_eq_true hnewline, hunknown, Bool.not_false, Bool.and_true]
          exact mem_append_right _ (mem_singleton_self _)
      · rw [Act.goes, decide_eq_false hdc, if_neg Bool.false_ne_true]
        exact .inl ⟨stage, rfl, (handleWire_get (Ne.symm hdc) allow call).trans hget⟩
    · exact .inr (mem_kept_handleWire hkept d allow call)
  | crash during n => cases hok

theorem steady_of_undisturbed {x : Room} {id : String} {act : Act} (hok : undisturbed c id x act = true) : x.steady act = true := by
  cases act with
  | receive raw => rfl
  | go d allow =>
    rw [undisturbed, Bool.and_eq_true, Bool.and_eq_true] at hok
    exact hok.1.1
  | crash during n => cases hok

theorem pursues_run {wire : Wire} (hverify : verifyWire C wire.obj = true) (hnewline : Json.newline ∉ wire.raw) :
    ∀ {acts : List Act} {x x' : Room} {sections : Nat}, x.Sound C → x.Pursues c wire sections →
    Runs.run (step C) x acts = some x' → Runs.along (step C) (undisturbed c wire.id) x acts = true →
    x'.Pursues c wire (sections - acts.countP (Act.goes c))
  | [], _, _, _, _, h, hrun, _ => by
    cases hrun
    exact h
  | act :: acts, x, x', sections, hsound, h, hrun, halong => by
    obtain ⟨x₁, hstep, hrun⟩ := Runs.run_cons.1 hrun
    obtain ⟨hok, halong⟩ := (Runs.along_cons hstep).1 halong
    have hrest := pursues_run hverify hnewline (hsound.step (steady_of_undisturbed hok) hstep)
      (pursues_step hsound h hverify hnewline hok hstep) hrun halong
    rwa [Nat.sub_sub, Nat.add_comm, ← countP_cons] at hrest

/-- **In a steady run the log is sound**: its ids are distinct and indexed in order, its lines are wires that
verified, but for what a crash has left of the last one; a wire stays until as many newer ones have come as the log
keeps; and a call whose wire verifies has appended it after its sections, unless a limiter refuses it. -/
theorem log_sound (C : Crates) (acts : List Act) (x : Room) (hrun : run C acts = some x)
    (hsteady : Runs.along (step C) steady start acts = true) :
    (logIds x.file).Nodup ∧ (∀ ids, x.index = some ids → ids.order = logIds x.file) ∧
    (∃ wires tail, pieces Json.newline x.file = wires ++ tail ∧ (∀ raw ∈ wires, Verified C raw) ∧ tail.length ≤ 1 ∧
      (whole Json.newline x.file = true → tail = []) ∧ ∀ piece ∈ tail, ∃ last, Verified C last ∧ piece <+: last) ∧
    (pieces Json.newline x.file).length ≤ wirelogCap + wirelogCompactSlack + x.crashes ∧
    (∀ i raw, x.kept[i]? = some raw → raw ∈ pieces Json.newline x.file ∨ wirelogCap + i + 1 ≤ x.kept.length) ∧
    ∀ c call, x.calls.get c = some call → verifyWire C call.wire.obj = true → Json.newline ∉ call.wire.raw →
      ∀ more x', Runs.run (step C) x more = some x' → Runs.along (step C) (undisturbed c call.wire.id) x more = true →
        ((∃ stage, x'.calls.get c = some ⟨call.wire, stage⟩) ∨ call.wire.raw ∈ x'.kept) ∧
        (call.stage.sections ≤ more.countP (Act.goes c) → call.wire.raw ∈ x'.kept) := by
  have hsound := sound_run hrun hsteady
  obtain ⟨wires, tail, hshape, hkeeps⟩ := hsound.shape
  have hpieces := hshape.pieces_eq
  refine ⟨hshape.nodup_logIds, hsound.index, ⟨wires, _, hpieces, hshape.verified, length_filter_le _ _, fun hwhole => ?_,
    fun piece hpiece => ?_⟩, hsound.bounded, fun i raw hi => ?_, fun c call hget hverify hnewline more x' hmore hok => ?_⟩
  · rw [hshape.tail_eq_nil hwhole]
    rfl
  · obtain ⟨htail, hne⟩ := mem_filter.1 hpiece
    cases mem_singleton.1 htail
    obtain ⟨last, id, hlast, -, hstarts, -⟩ := hshape.torn.resolve_left (of_decide_eq_true hne)
    exact ⟨last, hlast, hstarts⟩
  · rw [hpieces]
    exact (hkeeps.mem hi).imp_left (mem_append_left _)
  · have hpursues := pursues_run hverify hnewline hsound (.inl ⟨call.stage, rfl, hget⟩) hmore hok
    refine ⟨hpursues.imp_left (fun ⟨stage, _, hget'⟩ => ⟨stage, hget'⟩), fun hdone => ?_⟩
    rw [Nat.sub_eq_zero_of_le hdone] at hpursues
    exact hpursues.kept

/-! ## A wire that is handled alone -/

/-- A wire is received as the call of that number, and the call does some sections. -/
def handled (raw : List UInt8) (c n : Nat) : List Act := .receive raw :: List.replicate n (.go c true)

/-- A room where the next call is before `persist_wire`. -/
def ready (x : Room) (wire : Wire) : Room :=
  (({ x.put x.next ⟨wire, .arrived⟩ with next := x.next + 1, index := some x.roomIds }.put x.next ⟨wire, .unknown⟩).put
    x.next ⟨wire, .verified⟩).put x.next ⟨wire, .allowed⟩

theorem step_receive (x : Room) (wire : Wire) :
    step C x (.receive wire.raw) = some { x.put x.next ⟨wire, .arrived⟩ with next := x.next + 1 } := by
  rw [step]
  split
  · rename_i h
    rw [wire.accepted] at h
    cases h
  · rename_i id obj h
    have heq := h.symm.trans wire.accepted
    cases heq
    rfl

theorem step_go {x : Room} (h : x.calls.get c = some call) : step C x (.go c true) = some (x.handleWire C c true call) := by
  rw [step, h, map_some]

theorem get_put_self (x : Room) (c : Nat) (call : Call) : (x.put c call).calls.get c = some call := by
  rw [get_put, if_pos rfl]

variable {x : Room} {wire : Wire}

theorem run_ready (hnew : wire.id ∉ x.roomIds.order) (hverify : verifyWire C wire.obj = true) :
    Runs.run (step C) x (handled wire.raw x.next 3) = some (x.ready wire) := by
  have hcontains : x.roomIds.contains wire.id = false := Bool.eq_false_iff.2 (fun h => hnew (RoomIds.contains_iff.1 h))
  have hknown : handleWire C { x.put x.next ⟨wire, .arrived⟩ with next := x.next + 1 } x.next true ⟨wire, .arrived⟩ =
      { x.put x.next ⟨wire, .arrived⟩ with next := x.next + 1, index := some x.roomIds }.put x.next ⟨wire, .unknown⟩ :=
    if_neg (Bool.eq_false_iff.1 hcontains)
  have hlimits : ∀ y : Room, handleWire C y x.next true ⟨wire, .unknown⟩ = y.put x.next ⟨wire, .verified⟩ := by
    intro y
    simp only [handleWire]
    rw [if_neg Bool.noConfusion, hverify, if_neg Bool.noConfusion]
  have hallowed : ∀ y : Room, handleWire C y x.next true ⟨wire, .verified⟩ = y.put x.next ⟨wire, .allowed⟩ := by
    intro y
    simp only [handleWire]
    rw [if_neg Bool.noConfusion]
  refine Runs.run_cons.2 ⟨_, step_receive x wire, Runs.run_cons.2 ⟨_, step_go (get_put_self x x.next _), ?_⟩⟩
  rw [hknown]
  refine Runs.run_cons.2 ⟨_, step_go (get_put_self _ x.next _), ?_⟩
  rw [hlimits]
  refine Runs.run_cons.2 ⟨_, step_go (get_put_self _ x.next _), ?_⟩
  rfl

theorem run_kept (hnew : wire.id ∉ x.roomIds.order) (hverify : verifyWire C wire.obj = true) :
    Runs.run (step C) x (handled wire.raw x.next 4) = some (((x.ready wire).persistWire wire).finish x.next) := by
  have hsplit : handled wire.raw x.next 4 = handled wire.raw x.next 3 ++ [.go x.next true] := rfl
  rw [hsplit, Runs.run_append, run_ready hnew hverify]
  exact Runs.run_cons.2 ⟨_, step_go (get_put_self _ x.next _), rfl⟩

theorem step_crash (hnewline : Json.newline ∉ wire.raw) (hnew : wire.id ∉ x.roomIds.order) (n : Nat) :
    step C (x.ready wire) (.crash (some x.next) n) =
      some ⟨cutLast Json.newline n (x.appended wire), none, ∅, x.next + 1, [], x.crashes + 1⟩ := by
  have happends : (x.ready wire).appends wire = true := by
    rw [appends, decide_eq_true hnewline, Bool.true_and, Bool.not_eq_true']
    exact Bool.eq_false_iff.2 (fun h => hnew (RoomIds.contains_iff.1 h))
  rw [step, written, show (x.ready wire).calls.get x.next = some ⟨wire, .allowed⟩ from get_put_self _ _ _, bind_some,
    if_pos ⟨rfl, happends⟩]
  rfl

theorem persistWire_appends (hnewline : Json.newline ∉ wire.raw) (hnew : wire.id ∉ x.roomIds.order)
    (hroom : x.roomIds.order.length < wirelogCap + wirelogCompactSlack) :
    x.persistWire wire = { x with file := x.appended wire, index := some (x.roomIds.push wire.id), kept := x.kept ++ [wire.raw] } := by
  have hcontains : ¬x.roomIds.contains wire.id = true := fun h => hnew (RoomIds.contains_iff.1 h)
  rw [persistWire, if_neg hnewline]
  rw [if_neg hcontains, if_neg]
  rw [RoomIds.push_order hnew, length_append, length_singleton]
  omega

/-! ## Posts -/

def postFields (did id text : String) : List (String × Json) :=
  [("fromId", .str did), ("id", .str id), ("signature", .str ""), ("text", .str text), ("type", .str "tc-chat:post")]

def post (did id text : String) : List UInt8 := Json.toVec (.obj (postFields did id text))

theorem newline_notMem_post (did id text : String) : Json.newline ∉ post did id text := by
  refine Json.newline_notMem_toVec ?_
  simp [postFields, Json.Integral, Json.IntegralFields]

theorem accept_post {did id text : String} (hlen : (post did id text).length ≤ maxWireBytes) :
    accept (post did id text) = some (id, postFields did id text) := by
  have hread : Json.valueOf (post did id text) = some (.obj (postFields did id text)) := by
    rw [Json.valueOf, post, Json.fromSlice_toVec _ (by simp [postFields, Json.Repr, Json.ReprFields])
      (by simp only [postFields, Json.nesting, Json.nestingFields]; decide)]
    rfl
  rw [accept, if_neg (Nat.not_lt.2 hlen), hread]
  rfl

theorem verifyWire_post {did : String} (hdid : (pubkeyFromDid (sampleCrates []) did).isSome = true) (id text : String) :
    verifyWire (sampleCrates []) (postFields did id text) = true := by
  obtain ⟨key, hkey⟩ := isSome_iff_exists.1 hdid
  show verifyDid (sampleCrates []) did _ [] = true
  rw [verifyDid, hkey]
  rfl

def didOf (name : Char) : String := "did:key:z" ++ String.ofList (List.replicate 47 name)

def letters (n : Nat) : String := String.ofList (List.replicate n 'x')

theorem toList_letters (n : Nat) : (letters n).toList = List.replicate n 'x' := String.toList_ofList

def postWire (did id text : String) (hlen : (post did id text).length ≤ maxWireBytes) : Wire :=
  ⟨post did id text, id, postFields did id text, accept_post hlen⟩

theorem length_letters_le (h : n ≤ wirelogCap + wirelogCompactSlack) : (post (didOf 'a') (letters n) "").length ≤ maxWireBytes := by
  have hid := Json.stringSize_le_length (letters n)
  have hrest : Json.fieldsSize (postFields (didOf 'a') "" "") ≤ 1000 := by decide +kernel
  have hcap : (wirelogCap + wirelogCompactSlack) * 6 + 1100 ≤ maxWireBytes := by decide
  refine (Json.size_obj_le _).trans ?_
  rw [toList_letters, length_replicate] at hid
  simp only [postFields, Json.fieldsSize, Json.size_str] at hrest ⊢
  omega

theorem letters_inj {m n : Nat} (h : letters m = letters n) : m = n := by
  have := congrArg (fun s => s.toList.length) h
  simpa only [toList_letters, length_replicate] using this

def posts (n : Nat) : List (List UInt8) := (List.range n).map (fun i => post (didOf 'a') (letters i) "")

theorem letters_new (hids : x.roomIds.order = (List.range n).map letters) : letters n ∉ x.roomIds.order := by
  rw [hids]
  intro hmem
  obtain ⟨i, hi, heq⟩ := List.mem_map.1 hmem
  exact absurd (letters_inj heq) (Nat.ne_of_lt (List.mem_range.1 hi))

theorem fill : ∀ n ≤ wirelogCap + wirelogCompactSlack, ∃ acts x, run (sampleCrates []) acts = some x ∧ x.next = n ∧
    x.file = terminated Json.newline (posts n) ∧ x.roomIds.order = (List.range n).map letters
  | 0, _ => ⟨[], start, rfl, rfl, rfl, rfl⟩
  | n + 1, h => by
    obtain ⟨acts, x, hrun, hnext, hfile, hids⟩ := fill n (by omega)
    have hlen := @length_letters_le n (by omega)
    have hnew := letters_new hids
    have hroom : x.roomIds.order.length < wirelogCap + wirelogCompactSlack := by
      rw [hids, length_map, length_range]
      omega
    have hverify := @verifyWire_post (didOf 'a') (by decide) (letters n) ""
    have hpersist := @persistWire_appends (x.ready (postWire _ _ _ hlen)) (postWire _ _ _ hlen)
      (newline_notMem_post _ _ _) hnew hroom
    refine ⟨acts ++ handled (post (didOf 'a') (letters n) "") x.next 4,
      ((x.ready (postWire _ _ _ hlen)).persistWire (postWire _ _ _ hlen)).finish x.next, ?_, ?_, ?_, ?_⟩
    · rw [run, Runs.run_append, show Runs.run (step (sampleCrates [])) start acts = some x from hrun, bind_some]
      exact @run_kept _ x (postWire _ _ _ hlen) hnew hverify
    · rw [hpersist]
      show x.next + 1 = n + 1
      rw [hnext]
    · rw [hpersist]
      show x.file ++ (post (didOf 'a') (letters n) "" ++ [Json.newline]) = _
      rw [hfile, posts, posts, range_succ, map_append, LogLines.terminated_append]
      exact congrArg _ (LogLines.terminated_singleton _).symm
    · rw [hpersist]
      show (x.roomIds.push (letters n)).order = _
      rw [RoomIds.push_order hnew, hids, range_succ, map_append]
      rfl

/-! ## A line too many, a torn line, and an id that another took -/

def alice : Wire := postWire (didOf 'a') "1" "hello" (by decide +kernel)

def mallory : Wire := postWire (didOf 'm') "1" "mine" (by decide +kernel)

def bob : Wire := postWire (didOf 'b') "2" "hi" (by decide +kernel)

/-- alice's wire is appended; the process dies as it appends bob's, of which nothing is left, and bob's comes in again. -/
def interrupted : List Act := handled alice.raw 0 4 ++ handled bob.raw 1 3 ++ [.crash (some 1) 0, .receive bob.raw]

def finishes : List Act := List.replicate 4 (.go 2 true)

theorem log_sound_alice : ∃ x x', run (sampleCrates []) interrupted = some x ∧
    Runs.run (step (sampleCrates [])) x finishes = some x' ∧ x.crashes = 1 ∧ (logIds x.file).Nodup ∧
    (pieces Json.newline x.file).length ≤ wirelogCap + wirelogCompactSlack + 1 ∧
    pieces Json.newline x'.file = [alice.raw, bob.raw] ∧ bob.raw ∈ x'.kept := by
  have hruns : (run (sampleCrates []) interrupted).any (fun x => decide (x.crashes = 1) &&
      (x.calls.get 2).any (fun call => decide (call.wire.raw = bob.raw ∧ call.stage.sections = 4) &&
        verifyWire (sampleCrates []) call.wire.obj &&
        Runs.along (step (sampleCrates [])) (undisturbed 2 call.wire.id) x finishes) &&
      (Runs.run (step (sampleCrates [])) x finishes).any (fun x' =>
        decide (pieces Json.newline x'.file = [alice.raw, bob.raw]))) = true := by decide +kernel
  obtain ⟨x, hrun, hx⟩ := (Option.any_eq_true _ _).1 hruns
  obtain ⟨hx, hmore⟩ := Bool.and_eq_true_iff.1 hx
  obtain ⟨hcrashes, hcall⟩ := Bool.and_eq_true_iff.1 hx
  obtain ⟨call, hget, hcall⟩ := (Option.any_eq_true _ _).1 hcall
  obtain ⟨hcall, hok⟩ := Bool.and_eq_true_iff.1 hcall
  obtain ⟨hwire, hverify⟩ := Bool.and_eq_true_iff.1 hcall
  obtain ⟨hraw, hsections⟩ := of_decide_eq_true hwire
  obtain ⟨x', hmore, hpieces⟩ := (Option.any_eq_true _ _).1 hmore
  obtain ⟨hnodup, -, -, hlength, -, hfinished⟩ := log_sound (sampleCrates []) _ x hrun (by decide +kernel)
  have hnewline : Json.newline ∉ call.wire.raw := by
    rw [hraw]
    exact newline_notMem_post _ _ _
  have hkept := (hfinished 2 call hget hverify hnewline finishes x' hmore hok).2 (by rw [hsections]; decide)
  rw [of_decide_eq_true hcrashes] at hlength
  exact ⟨x, x', hrun, hmore, of_decide_eq_true hcrashes, hnodup, hlength, of_decide_eq_true hpieces, hraw ▸ hkept⟩

theorem pieces_posts (n : Nat) : pieces Json.newline (terminated Json.newline (posts n)) = posts n := by
  have := @LogLines.pieces_terminated _ _ Json.newline (posts n) [] (fun line hline => ?_) not_mem_nil
  · rw [append_nil] at this
    exact this.trans (append_nil _)
  · obtain ⟨i, -, rfl⟩ := List.mem_map.1 hline
    exact ⟨newline_notMem_post _ _ _, cons_ne_nil _ _⟩

/-- **A crash between an append and the rewrite that would follow** leaves a line more than the log may have. -/
theorem line_too_many (n : Nat) (hn : n = wirelogCap + wirelogCompactSlack) : ∃ acts x, run (sampleCrates []) acts = some x ∧
    pieces Json.newline x.file = posts (n + 1) := by
  obtain ⟨acts, x, hrun, -, hfile, hids⟩ := fill n (Nat.le_of_eq hn)
  have hlen := @length_letters_le n (Nat.le_of_eq hn)
  have hnew := letters_new hids
  have hready := @run_ready (sampleCrates []) x (postWire _ _ _ hlen) hnew
    (@verifyWire_post (didOf 'a') (by decide) (letters n) "")
  have hcrash := @step_crash (sampleCrates []) x (postWire _ _ _ hlen) (newline_notMem_post _ _ _) hnew
    ((post (didOf 'a') (letters n) "").length + 1)
  have hfile' : x.appended (postWire _ _ _ hlen) = terminated Json.newline (posts n ++ [post (didOf 'a') (letters n) ""]) := by
    rw [appended, hfile, LogLines.terminated_append, LogLines.terminated_singleton]
    rfl
  have hcut := LogLines.cutLast_terminated (posts n) (newline_notMem_post (didOf 'a') (letters n) "")
    ((post (didOf 'a') (letters n) "").length + 1)
  rw [take_of_length_le (by rw [length_append, length_singleton]), ← @LogLines.terminated_singleton UInt8 Json.newline,
    ← LogLines.terminated_append, ← hfile'] at hcut
  rw [hcut] at hcrash
  have hposts : posts (n + 1) = posts n ++ [post (didOf 'a') (letters n) ""] := by
    rw [posts, range_succ, map_append]
    rfl
  have hlast : Runs.run (step (sampleCrates [])) x (handled (post (didOf 'a') (letters n) "") x.next 3 ++ [.crash (some x.next)
      ((post (didOf 'a') (letters n) "").length + 1)]) =
      some ⟨x.appended (postWire _ _ _ hlen), none, ∅, x.next + 1, [], x.crashes + 1⟩ := by
    rw [Runs.run_append]
    exact bind_eq_some_iff.2 ⟨_, hready, Runs.run_cons.2 ⟨_, hcrash, rfl⟩⟩
  refine ⟨_, _, Runs.run_append.trans (bind_eq_some_iff.2 ⟨x, hrun, hlast⟩), ?_⟩
  rw [← pieces_posts (n + 1), hposts, ← hfile']

/-- alice's line is torn after its first byte, and bob's goes onto that line. -/
theorem torn_lost : ∃ acts x, run (sampleCrates []) acts = some x ∧ x.kept = [bob.raw] ∧ bob.raw ∉ pieces Json.newline x.file := by
  have hruns : (run (sampleCrates []) (handled alice.raw 0 3 ++ .crash (some 0) 1 :: handled bob.raw 1 4)).any
      (fun x => decide (x.kept = [bob.raw] ∧ bob.raw ∉ pieces Json.newline x.file)) = true := by decide +kernel
  obtain ⟨x, hrun, hx⟩ := (Option.any_eq_true _ _).1 hruns
  exact ⟨_, x, hrun, of_decide_eq_true hx⟩

theorem alice_kept : (run (sampleCrates []) (handled alice.raw 0 4)).any
    (fun x => decide ((x.calls.get 0).isNone ∧ alice.raw ∈ x.kept)) = true := by decide +kernel

theorem alice_dropped : (run (sampleCrates []) (handled mallory.raw 0 4 ++ handled alice.raw 1 1)).any
    (fun y => decide ((y.calls.get 1).isNone ∧ alice.raw ∉ y.kept)) = true := by decide +kernel

/-- A crash can leave a line too many, a wire can be lost to a torn line, and another signer's wire can take the id of one. -/
theorem log_unsound : (¬ ∀ (C : Crates) (acts : List Act) (x : Room), run C acts = some x →
      (pieces Json.newline x.file).length ≤ wirelogCap + wirelogCompactSlack) ∧
    (¬ ∀ (C : Crates) (acts : List Act) (x : Room), run C acts = some x → ∀ i raw, x.kept[i]? = some raw →
      raw ∈ pieces Json.newline x.file ∨ wirelogCap + i + 1 ≤ x.kept.length) ∧
    (Json.obj alice.obj).get? "fromId" ≠ (Json.obj mallory.obj).get? "fromId" ∧
    ∃ x y, run (sampleCrates []) (handled alice.raw 0 4) = some x ∧
      run (sampleCrates []) (handled mallory.raw 0 4 ++ handled alice.raw 1 1) = some y ∧
      x.calls.get 0 = none ∧ alice.raw ∈ x.kept ∧ y.calls.get 1 = none ∧ alice.raw ∉ y.kept := by
  refine ⟨fun hall => ?_, fun hall => ?_, by decide, ?_⟩
  · obtain ⟨acts, x, hrun, hpieces⟩ := line_too_many _ rfl
    have hle := hall _ acts x hrun
    rw [hpieces, posts, length_map, length_range] at hle
    exact Nat.not_succ_le_self _ hle
  · obtain ⟨acts, x, hrun, hkept, hlost⟩ := torn_lost
    rcases hall _ acts x hrun 0 bob.raw (by rw [hkept]; rfl) with hmem | hlen
    · exact hlost hmem
    · rw [hkept] at hlen
      exact absurd hlen (by decide)
  · obtain ⟨x, hx, hkept⟩ := (Option.any_eq_true _ _).1 alice_kept
    obtain ⟨y, hy, hdropped⟩ := (Option.any_eq_true _ _).1 alice_dropped
    have hkept := of_decide_eq_true hkept
    have hdropped := of_decide_eq_true hdropped
    exact ⟨x, y, hx, hy, isNone_iff_eq_none.1 hkept.1, hkept.2, isNone_iff_eq_none.1 hdropped.1, hdropped.2⟩

end Room

end Mistl.ChatRelay
