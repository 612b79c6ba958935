import Mistl.TunnelConns
/-!
# TunnelStream — what a tunnelled stream carries

`forward_tcp_to_dc` numbers what it reads; the network loses, repeats and reorders; the other side buffers what comes before
its connection is open, writes the rest, and closes at a gap.  `Sunk`: a stream that refused a write takes nothing more.
-/
open List Mistl.Table Option

namespace Mistl.Tunnel

/-! ## The sender -/

def TunnelMessage.bytes (tm : TunnelMessage) : Bytes := tm.payload.getD []

/-- A `forward_tcp_to_dc`: its next number, and the messages it made, which it may send any number of times. -/
structure Sender where
  nextSeq : Nat
  sent : List TunnelMessage

def Sender.new : Sender := ⟨1, []⟩

/-- A read of the local socket, while `next_seq` does not leave its 64 bits. -/
def Sender.read (σ : Sender) (connId : String) (chunk : Bytes) : Option Sender :=
  if σ.nextSeq + 1 < 2 ^ 64 then some ⟨σ.nextSeq + 1, σ.sent ++ [⟨"data", connId, some chunk, some σ.nextSeq⟩]⟩ else none

/-- The first `n` chunks it read. -/
def Sender.chunks (σ : Sender) (n : Nat) : Bytes := ((σ.sent.take n).map TunnelMessage.bytes).flatten

def Sender.bytes (σ : Sender) : Bytes := (σ.sent.map TunnelMessage.bytes).flatten

structure Sender.Numbered (σ : Sender) : Prop where
  next : σ.nextSeq = σ.sent.length + 1
  room : σ.nextSeq < 2 ^ 64
  seq : ∀ (k : Nat) tm, σ.sent[k]? = some tm → tm.seq = some (k + 1)

theorem Sender.numbered_new : Sender.new.Numbered := ⟨rfl, by decide, nofun⟩

variable {chunk : Bytes}

theorem Sender.read_eq_some {σ σ' : Sender} {connId : String} (h : σ.read connId chunk = some σ') :
    σ.nextSeq + 1 < 2 ^ 64 ∧ σ' = ⟨σ.nextSeq + 1, σ.sent ++ [⟨"data", connId, some chunk, some σ.nextSeq⟩]⟩ := by
  unfold Sender.read at h
  split at h
  · cases h
    exact ⟨by assumption, rfl⟩
  · cases h

theorem Sender.Numbered.read {σ σ' : Sender} {connId : String} (hn : σ.Numbered)
    (h : σ.read connId chunk = some σ') : σ'.Numbered := by
  obtain ⟨hroom, rfl⟩ := Sender.read_eq_some h
  refine ⟨?_, hroom, fun k tm hk => ?_⟩
  · rw [length_append, length_singleton, hn.next]
  · by_cases hlt : k < σ.sent.length
    · rw [getElem?_append_left hlt] at hk
      exact hn.seq k tm hk
    · rw [getElem?_append_right (not_lt.1 hlt)] at hk
      obtain ⟨hk', htm⟩ := List.getElem?_eq_some_iff.1 hk
      rw [length_singleton] at hk'
      rw [← htm]
      simp only [getElem_singleton, hn.next]
      congr 1
      omega

variable {n : Nat}

theorem Sender.chunks_read {σ σ' : Sender} {connId : String} (h : σ.read connId chunk = some σ')
    (hle : n ≤ σ.sent.length) : σ'.chunks n = σ.chunks n := by
  obtain ⟨-, rfl⟩ := Sender.read_eq_some h
  unfold Sender.chunks
  rw [take_append_of_le_length hle]

variable {tm : TunnelMessage}

theorem Sender.chunks_succ {σ : Sender} (h : σ.sent[n]? = some tm) : σ.chunks (n + 1) = σ.chunks n ++ tm.bytes := by
  unfold Sender.chunks
  rw [take_add_one, h, toList_some, map_append, flatten_append, map_singleton, flatten_singleton]

theorem Sender.chunks_prefix {σ : Sender} {m n : Nat} (h : m ≤ n) : σ.chunks m <+: σ.chunks n := by
  obtain ⟨k, rfl⟩ := Nat.exists_eq_add_of_le h
  unfold Sender.chunks
  rw [take_add, map_append, flatten_append]
  exact prefix_append _ _

theorem Sender.chunks_prefix_bytes (σ : Sender) (n : Nat) : σ.chunks n <+: σ.bytes := by
  unfold Sender.bytes
  conv => rhs; rw [← take_append_drop n σ.sent, map_append, flatten_append]
  exact prefix_append _ _

/-- **A stream that refused a write takes nothing more.** -/
def Sunk (s : State) : Act → Prop
  | .writes arc => ∀ cell writer, s.heap[arc]? = some cell → cell.conn.state = .active writer → writer.failed = false
  | _ => True

/-- The data that `peerId` sends for `connId` is the sender's. -/
def Delivers (σ : Sender) (peerId connId : String) : Act → Prop
  | .receives peer tm => peer = peerId → tm.msgType = "data" → tm.connId = connId → tm ∈ σ.sent
  | _ => True

/-- The runs of a sender and of the manager that its messages go to: the sender reads on, or the manager makes a step,
which meets a condition and in which nothing but the sender's messages comes in for the connection. -/
inductive Carried (target remoteAddr peerId connId : String) (ok : State → Act → Prop) : Sender → State → Prop where
  | refl : Carried target remoteAddr peerId connId ok .new .initial
  | read {σ σ' : Sender} {s : State} {chunk : Bytes} : Carried target remoteAddr peerId connId ok σ s →
      σ.read connId chunk = some σ' → Carried target remoteAddr peerId connId ok σ' s
  | step {σ : Sender} {s s' : State} {act : Act} : Carried target remoteAddr peerId connId ok σ s → ok s act →
      Delivers σ peerId connId act → Step target remoteAddr s act s' → Carried target remoteAddr peerId connId ok σ s'

/-! ## A connection -/

variable {target remoteAddr : String} {s s' : State} {act : Act} {σ : Sender}

def Task.replays : Task → Option (Nat × Bytes)
  | .authorize _ _ _ (.replaying arc current rest) => some (arc, current ++ rest.flatten)
  | _ => none

def Loop.Holds (arc : Nat) : Loop → Prop
  | .data a _ _ => a = arc
  | .owned a _ => a = arc
  | _ => False

def Loop.writes : Loop → Option (Nat × Bytes)
  | .writing arc _ rest => some (arc, rest)
  | _ => none

def TunnelConn.Bounded (c : TunnelConn) : Prop := ∀ buffered k, c.state = .pending buffered k →
  k = (buffered.map List.length).sum ∧ buffered.length ≤ pendingDataBufferMaxMsgs ∧ k ≤ pendingDataBufferMaxBytes

namespace State

def Cut (s : State) (arc : Nat) (connId : String) : Prop :=
  s.loop = .closing connId ∨ s.conns.get connId ≠ some arc ∧ ¬ s.loop.Holds arc

/-- The bytes are those of the first `n` chunks; of fewer only where no message gets to the connection any more. -/
def Whole (s : State) (σ : Sender) (arc : Nat) (connId : String) (n : Nat) (bytes : Bytes) : Prop :=
  ∃ m ≤ n, bytes = σ.chunks m ∧ (m < n → s.Cut arc connId)

/-- **What a connection did with the chunks it accepted**: they wait in the buffer, or the backend took them, or whoever
writes to it has them in hand. -/
structure Flow (s : State) (σ : Sender) (arc : Nat) (cell : Cell) : Prop where
  low : 1 ≤ cell.conn.recvSeq.nextExpected
  high : cell.conn.recvSeq.nextExpected ≤ σ.sent.length + 1
  pending : ∀ buffered k, cell.conn.state = .pending buffered k →
    cell.held = false ∧ s.Whole σ arc cell.id (cell.conn.recvSeq.nextExpected - 1) buffered.flatten
  replaying : ∀ (i : Nat) t rest, s.tasks[i]? = some t → t.replays = some (arc, rest) →
    cell.held = true ∧ ∃ writer, cell.conn.state = .active writer ∧ writer.failed = false ∧
      s.Whole σ arc cell.id (cell.conn.recvSeq.nextExpected - 1) (writer.written ++ rest)
  single : ∀ (i j : Nat) t t' rest rest', s.tasks[i]? = some t → s.tasks[j]? = some t' → t.replays = some (arc, rest) →
    t'.replays = some (arc, rest') → i = j
  writing : ∀ rest, s.loop.writes = some (arc, rest) → cell.held = false ∧ ∃ writer, cell.conn.state = .active writer ∧
    (writer.failed = false → writer.written ++ rest = σ.chunks (cell.conn.recvSeq.nextExpected - 1))
  written : ∀ writer, cell.conn.state = .active writer → cell.held = false → (∀ rest, s.loop.writes ≠ some (arc, rest)) →
    writer.failed = false → s.Whole σ arc cell.id (cell.conn.recvSeq.nextExpected - 1) writer.written
  sunk : ∀ writer, cell.conn.state = .active writer → writer.written <+: σ.chunks (cell.conn.recvSeq.nextExpected - 1)

structure Aside (s s' : State) (arc : Nat) (connId : String) : Prop where
  cut : s.Cut arc connId → s'.Cut arc connId
  writes : ∀ rest, s'.loop.writes = some (arc, rest) ↔ s.loop.writes = some (arc, rest)
  tasks : ∀ (i : Nat) t rest, s'.tasks[i]? = some t → t.replays = some (arc, rest) →
    ∃ t', s.tasks[i]? = some t' ∧ t'.replays = some (arc, rest)

variable {arc : Nat}

variable {bytes : Bytes}

theorem Whole.aside {connId : String} (h : s.Whole σ arc connId n bytes)
    (hcut : s.Cut arc connId → s'.Cut arc connId) : s'.Whole σ arc connId n bytes := by
  obtain ⟨m, hm, hbytes, hc⟩ := h
  exact ⟨m, hm, hbytes, fun hlt => hcut (hc hlt)⟩

variable {cell : Cell}

theorem Flow.aside (hf : s.Flow σ arc cell) (ha : Aside s s' arc cell.id) : s'.Flow σ arc cell where
  low := hf.low
  high := hf.high
  pending := fun buffered k h => ⟨(hf.pending buffered k h).1, (hf.pending buffered k h).2.aside ha.cut⟩
  replaying := fun i t rest ht hr => by
    obtain ⟨t', ht', hr'⟩ := ha.tasks i t rest ht hr
    obtain ⟨hheld, writer, hstate, hfailed, hwhole⟩ := hf.replaying i t' rest ht' hr'
    exact ⟨hheld, writer, hstate, hfailed, hwhole.aside ha.cut⟩
  single := fun i j t t' rest rest' ht ht' hr hr' => by
    obtain ⟨u, hu, hur⟩ := ha.tasks i t rest ht hr
    obtain ⟨u', hu', hur'⟩ := ha.tasks j t' rest' ht' hr'
    exact hf.single i j u u' rest rest' hu hu' hur hur'
  writing := fun rest h => hf.writing rest ((ha.writes rest).1 h)
  written := fun writer hstate hheld hw hfailed =>
    (hf.written writer hstate hheld (fun rest h => hw rest ((ha.writes rest).2 h)) hfailed).aside ha.cut
  sunk := hf.sunk

theorem flow_free (hlow : 1 ≤ cell.conn.recvSeq.nextExpected)
    (hhigh : cell.conn.recvSeq.nextExpected ≤ σ.sent.length + 1) (hheld : cell.held = false)
    (htasks : ∀ (i : Nat) t rest, s.tasks[i]? = some t → t.replays ≠ some (arc, rest))
    (hloop : ∀ rest, s.loop.writes = some (arc, rest) → cell.conn.state.isActive = true)
    (hpending : ∀ buffered k, cell.conn.state = .pending buffered k →
      s.Whole σ arc cell.id (cell.conn.recvSeq.nextExpected - 1) buffered.flatten)
    (hactive : ∀ writer, cell.conn.state = .active writer →
      writer.written <+: σ.chunks (cell.conn.recvSeq.nextExpected - 1) ∧ (writer.failed = false →
        (∀ rest, s.loop.writes = some (arc, rest) → writer.written ++ rest = σ.chunks (cell.conn.recvSeq.nextExpected - 1)) ∧
        ((∀ rest, s.loop.writes ≠ some (arc, rest)) →
          s.Whole σ arc cell.id (cell.conn.recvSeq.nextExpected - 1) writer.written))) : s.Flow σ arc cell where
  low := hlow
  high := hhigh
  pending := fun buffered k h => ⟨hheld, hpending buffered k h⟩
  replaying := fun i t rest ht hr => absurd hr (htasks i t rest ht)
  single := fun i j t t' rest rest' ht ht' hr hr' => absurd hr (htasks i t rest ht)
  writing := fun rest h => by
    refine ⟨hheld, ?_⟩
    have ha := hloop rest h
    cases hstate : cell.conn.state with
    | pending buffered k =>
      rw [hstate] at ha
      cases ha
    | active writer => exact ⟨writer, rfl, fun hfailed => ((hactive writer hstate).2 hfailed).1 rest h⟩
  written := fun writer hstate _ hw hfailed => ((hactive writer hstate).2 hfailed).2 hw
  sunk := fun writer hstate => (hactive writer hstate).1

theorem flow_new (hseq : cell.conn.recvSeq = .new) (hheld : cell.held = false)
    (hpending : ∀ buffered k, cell.conn.state = .pending buffered k → buffered = [])
    (hactive : ∀ writer, cell.conn.state = .active writer → writer.written = [])
    (htasks : ∀ (i : Nat) t rest, s.tasks[i]? = some t → t.replays ≠ some (arc, rest))
    (hloop : ∀ rest, s.loop.writes ≠ some (arc, rest)) : s.Flow σ arc cell := by
  have hnone : ∀ bytes, bytes = [] → s.Whole σ arc cell.id (cell.conn.recvSeq.nextExpected - 1) bytes := by
    rintro bytes rfl
    exact ⟨0, Nat.zero_le _, rfl, fun h => by rw [hseq] at h; cases h⟩
  refine flow_free (by rw [hseq]; decide) (by rw [hseq]; exact Nat.succ_le_succ (Nat.zero_le _)) hheld htasks
    (fun rest h => absurd h (hloop rest)) (fun buffered k h => hnone _ (by rw [hpending buffered k h]; rfl))
    (fun writer h => ⟨?_, fun _ => ⟨fun rest h => absurd h (hloop rest), fun _ => hnone _ (hactive writer h)⟩⟩)
  rw [hactive writer h]
  exact nil_prefix

theorem Flow.read {σ' : Sender} {connId : String} (hf : s.Flow σ arc cell)
    (h : σ.read connId chunk = some σ') : s.Flow σ' arc cell := by
  have hlen : σ.sent.length ≤ σ'.sent.length := by
    obtain ⟨-, rfl⟩ := Sender.read_eq_some h
    rw [length_append]
    omega
  have hchunks : ∀ m ≤ cell.conn.recvSeq.nextExpected - 1, σ'.chunks m = σ.chunks m := fun m hm =>
    Sender.chunks_read h (by have := hf.high; omega)
  have hwhole : ∀ bytes, s.Whole σ arc cell.id (cell.conn.recvSeq.nextExpected - 1) bytes →
      s.Whole σ' arc cell.id (cell.conn.recvSeq.nextExpected - 1) bytes := by
    rintro bytes ⟨m, hm, hbytes, hcut⟩
    exact ⟨m, hm, by rw [hchunks m hm]; exact hbytes, hcut⟩
  refine ⟨hf.low, by have := hf.high; omega, fun buffered k hp => ?_, fun i t rest ht hr => ?_, hf.single,
    fun rest hw => ?_, fun writer hstate hheld hw hfailed => ?_, fun writer hstate => ?_⟩
  · exact ⟨(hf.pending buffered k hp).1, hwhole _ (hf.pending buffered k hp).2⟩
  · obtain ⟨hheld, writer, hstate, hfailed, hall⟩ := hf.replaying i t rest ht hr
    exact ⟨hheld, writer, hstate, hfailed, hwhole _ hall⟩
  · obtain ⟨hheld, writer, hstate, hall⟩ := hf.writing rest hw
    exact ⟨hheld, writer, hstate, fun hfailed => by rw [hchunks _ le_rfl]; exact hall hfailed⟩
  · exact hwhole _ (hf.written writer hstate hheld hw hfailed)
  · rw [hchunks _ le_rfl]
    exact hf.sunk writer hstate

/-- What the loop has in hand: the connection under the id of its message, and a message of the sender. -/
def LoopOk (s : State) (σ : Sender) (peerId connId : String) : Loop → Prop
  | .data arc peer tm => (∃ cell, s.heap[arc]? = some cell ∧ cell.id = tm.connId) ∧ (peer = peerId → tm.connId = connId → tm ∈ σ.sent)
  | .owned arc tm => ∃ cell, s.heap[arc]? = some cell ∧ cell.id = tm.connId ∧
      (cell.conn.peerId = peerId → tm.connId = connId → tm ∈ σ.sent)
  | _ => True

/-- **The invariant of the connections of `peerId` under the id `connId`.** -/
structure Carries (σ : Sender) (peerId connId : String) (s : State) : Prop where
  numbered : σ.Numbered
  tracked : ∀ connId arc, s.conns.get connId = some arc → ∃ cell, s.heap[arc]? = some cell ∧ cell.id = connId
  loop : s.LoopOk σ peerId connId s.loop
  bounded : ∀ cell ∈ s.heap, cell.conn.Bounded
  replays : ∀ (i : Nat) t rest arc, s.tasks[i]? = some t → t.replays = some (arc, rest) → arc < s.heap.length
  writes : ∀ arc rest, s.loop.writes = some (arc, rest) → arc < s.heap.length
  flow : ∀ (arc : Nat) cell, s.heap[arc]? = some cell → cell.id = connId → cell.conn.peerId = peerId → s.Flow σ arc cell

variable {peerId connId : String}

theorem LoopOk.mono {loop : Loop} (h : s.LoopOk σ peerId connId loop)
    (hcells : ∀ (arc : Nat) cell, s.heap[arc]? = some cell →
      ∃ cell', s'.heap[arc]? = some cell' ∧ cell'.id = cell.id ∧ cell'.conn.peerId = cell.conn.peerId) :
    s'.LoopOk σ peerId connId loop := by
  cases loop with
  | data arc peer tm =>
    obtain ⟨⟨cell, hcell, hid⟩, hsent⟩ := h
    obtain ⟨cell', hcell', hid', -⟩ := hcells arc cell hcell
    exact ⟨⟨cell', hcell', hid'.trans hid⟩, hsent⟩
  | owned arc tm =>
    obtain ⟨cell, hcell, hid, hsent⟩ := h
    obtain ⟨cell', hcell', hid', hpeer⟩ := hcells arc cell hcell
    exact ⟨cell', hcell', hid'.trans hid, fun hp => hsent (hpeer ▸ hp)⟩
  | _ => trivial

theorem Carries.frame (hc : s.Carries σ peerId connId) (hheap : s'.heap = s.heap)
    (hconns : ∀ x arc, s'.conns.get x = some arc → s.conns.get x = some arc)
    (hloop : s.LoopOk σ peerId connId s'.loop) (hwrites : s'.loop.writes = s.loop.writes)
    (htasks : ∀ (i : Nat) t r, s'.tasks[i]? = some t → t.replays = some r → ∃ t', s.tasks[i]? = some t' ∧ t'.replays = some r)
    (hcut : ∀ (arc : Nat) cell, s.heap[arc]? = some cell → s.Cut arc cell.id → s'.Cut arc cell.id) :
    s'.Carries σ peerId connId where
  numbered := hc.numbered
  tracked := fun x arc h => by rw [hheap]; exact hc.tracked x arc (hconns x arc h)
  loop := hloop.mono (fun arc cell h => ⟨cell, by rw [hheap]; exact h, rfl, rfl⟩)
  bounded := by rw [hheap]; exact hc.bounded
  replays := fun i t rest arc ht hr => by
    obtain ⟨t', ht', hr'⟩ := htasks i t _ ht hr
    rw [hheap]
    exact hc.replays i t' rest arc ht' hr'
  writes := by rw [hheap, hwrites]; exact hc.writes
  flow := fun arc cell h hid hpeer => by
    rw [hheap] at h
    exact (hc.flow arc cell h hid hpeer).aside ⟨hcut arc cell h, fun rest => by rw [hwrites], fun i t rest ht hr => htasks i t _ ht hr⟩

theorem Carries.set (hc : s.Carries σ peerId connId) {cell cell' : Cell} (hcell : s.heap[arc]? = some cell)
    (hheap : s'.heap = s.heap.set arc cell') (hid : cell'.id = cell.id) (hpeer : cell'.conn.peerId = cell.conn.peerId)
    (hconns : s'.conns = s.conns) (hloop : s.LoopOk σ peerId connId s'.loop) (hbounded : cell'.conn.Bounded)
    (haside : ∀ a x, a ≠ arc → Aside s s' a x)
    (hflow : cell.id = connId → cell.conn.peerId = peerId → s.Flow σ arc cell → s'.Flow σ arc cell') :
    s'.Carries σ peerId connId := by
  have hlt : arc < s.heap.length := (List.getElem?_eq_some_iff.1 hcell).1
  have hcells : ∀ (a : Nat) c, s.heap[a]? = some c → ∃ c', s'.heap[a]? = some c' ∧ c'.id = c.id ∧ c'.conn.peerId = c.conn.peerId := by
    intro a c h
    rw [hheap, getElem?_set]
    by_cases ha : arc = a
    · subst ha
      rw [hcell] at h
      cases h
      exact ⟨cell', by rw [if_pos rfl, if_pos hlt], hid, hpeer⟩
    · exact ⟨c, by rw [if_neg ha]; exact h, rfl, rfl⟩
  have hlen : s'.heap.length = s.heap.length := by rw [hheap, length_set]
  refine ⟨hc.numbered, fun x a h => ?_, hloop.mono hcells, fun c h => ?_, fun i t rest a ht hr => ?_, fun a rest h => ?_,
    fun a c h hcid hcpeer => ?_⟩
  · rw [hconns] at h
    obtain ⟨c, hc', hcid⟩ := hc.tracked x a h
    obtain ⟨c', hc'', hcid', -⟩ := hcells a c hc'
    exact ⟨c', hc'', hcid'.trans hcid⟩
  · rw [hheap] at h
    rcases mem_or_eq_of_mem_set h with h | rfl
    · exact hc.bounded c h
    · exact hbounded
  · rw [hlen]
    by_cases ha : a = arc
    · rwa [ha]
    · obtain ⟨t', ht', hr'⟩ := (haside a "" ha).tasks i t rest ht hr
      exact hc.replays i t' rest a ht' hr'
  · rw [hlen]
    by_cases ha : a = arc
    · rwa [ha]
    · exact hc.writes a rest (((haside a "" ha).writes rest).1 h)
  · rw [hheap, getElem?_set] at h
    by_cases ha : arc = a
    · subst ha
      rw [if_pos rfl, if_pos hlt] at h
      cases h
      exact hflow (hid.symm.trans hcid) (hpeer.symm.trans hcpeer) (hc.flow arc cell hcell (hid.symm.trans hcid)
        (hpeer.symm.trans hcpeer))
    · rw [if_neg ha] at h
      exact (hc.flow a c h hcid hcpeer).aside (haside a _ (Ne.symm ha))

variable {x : String}

theorem Carries.track (hc : s.Carries σ peerId connId) {t : Task}
    (hheap : s'.heap = s.heap ++ [cell]) (hid : cell.id = x) (hconns : s'.conns = s.conns.insert x s.heap.length)
    (hloop : s.LoopOk σ peerId connId s'.loop) (hclosing : ∀ y, s.loop = .closing y → s'.loop = .closing y)
    (hholds : ∀ arc, s'.loop.Holds arc → s.loop.Holds arc) (hwrites : s'.loop.writes = s.loop.writes)
    (htasks : s'.tasks = s.tasks ++ [t]) (ht : t.replays = none) (hbounded : cell.conn.Bounded)
    (hseq : cell.conn.recvSeq = .new) (hheld : cell.held = false)
    (hpending : ∀ buffered k, cell.conn.state = .pending buffered k → buffered = [])
    (hactive : ∀ writer, cell.conn.state = .active writer → writer.written = []) : s'.Carries σ peerId connId := by
  have hold : ∀ (a : Nat) c, s.heap[a]? = some c → s'.heap[a]? = some c := fun a c h => by
    rw [hheap, getElem?_append_left (List.getElem?_eq_some_iff.1 h).1]
    exact h
  have hreplays : ∀ (i : Nat) u rest arc, s'.tasks[i]? = some u → u.replays = some (arc, rest) → s.tasks[i]? = some u := by
    intro i u rest arc hu hr
    rw [htasks] at hu
    by_cases hi : i < s.tasks.length
    · rwa [getElem?_append_left hi] at hu
    · rw [getElem?_append_right (not_lt.1 hi)] at hu
      have hm := mem_of_getElem? hu
      rw [mem_singleton.1 hm, ht] at hr
      cases hr
  have hget : ∀ y a, s'.conns.get y = some a → s.conns.get y = some a ∨ y = x ∧ a = s.heap.length := by
    intro y a h
    rw [hconns] at h
    rcases of_get_insert h with ⟨hy, rfl⟩ | ⟨-, h⟩
    · exact .inr ⟨hy, rfl⟩
    · exact .inl h
  have hlen : s'.heap.length = s.heap.length + 1 := by rw [hheap, length_append, length_singleton]
  refine ⟨hc.numbered, fun y a h => ?_, hloop.mono (fun a c h => ⟨c, hold a c h, rfl, rfl⟩), fun c h => ?_,
    fun i u rest a hu hr => ?_, fun a rest h => ?_, fun a c h hcid hcpeer => ?_⟩
  · rcases hget y a h with h | ⟨rfl, rfl⟩
    · obtain ⟨c, hc', hcid⟩ := hc.tracked y a h
      exact ⟨c, hold a c hc', hcid⟩
    · exact ⟨cell, by rw [hheap]; exact getElem?_concat_length, hid⟩
  · rw [hheap] at h
    rcases mem_append.1 h with h | h
    · exact hc.bounded c h
    · rw [mem_singleton.1 h]
      exact hbounded
  · have := hc.replays i u rest a (hreplays i u rest a hu hr) hr
    omega
  · rw [hwrites] at h
    have := hc.writes a rest h
    omega
  · rw [hheap] at h
    by_cases ha : a < s.heap.length
    · rw [getElem?_append_left ha] at h
      refine (hc.flow a c h hcid hcpeer).aside ⟨fun hcut => ?_, fun rest => by rw [hwrites], fun i u rest hu hr =>
        ⟨u, hreplays i u rest a hu hr, hr⟩⟩
      rcases hcut with hcut | ⟨hne, hnot⟩
      · exact .inl (hclosing _ hcut)
      · refine .inr ⟨fun hg => ?_, fun hh => hnot (hholds a hh)⟩
        rcases hget _ _ hg with hg | ⟨-, rfl⟩
        · exact hne hg
        · exact absurd ha (lt_irrefl _)
    · rw [getElem?_append_right (not_lt.1 ha)] at h
      obtain ⟨hlt, hcell⟩ := List.getElem?_eq_some_iff.1 h
      rw [length_singleton] at hlt
      have hceq : cell = c := by rw [← hcell]; simp
      subst hceq
      refine flow_new hseq hheld hpending hactive (fun i u rest hu hr => ?_) (fun rest hw => ?_)
      · exact absurd (hc.replays i u rest a (hreplays i u rest a hu hr) hr) (by omega)
      · rw [hwrites] at hw
        exact absurd (hc.writes a rest hw) (by omega)

/-! ## What the steps do to a connection -/

theorem Whole.exact (h : s.Whole σ arc x n bytes) (hcut : ¬ s.Cut arc x) : bytes = σ.chunks n := by
  obtain ⟨m, hm, hbytes, hc⟩ := h
  rcases hm.lt_or_eq with hlt | rfl
  · exact absurd (hc hlt) hcut
  · exact hbytes

theorem Whole.all (h : bytes = σ.chunks n) : s.Whole σ arc x n bytes := ⟨n, le_rfl, h, fun hlt => absurd hlt (lt_irrefl n)⟩

theorem Flow.not_replayed (hf : s.Flow σ arc cell) (hheld : cell.held = false) (i : Nat)
    (t : Task) (rest : Bytes) (ht : s.tasks[i]? = some t) : t.replays ≠ some (arc, rest) := fun hr => by
  rw [(hf.replaying i t rest ht hr).1] at hheld
  cases hheld

/-- **A message of the sender**: it was seen before, or it comes too early, or it is the next one. -/
theorem receive_cases (hn : σ.Numbered) {c : TunnelConn} (hsent : tm ∈ σ.sent) :
    (∃ o, c.receive tm = ({ c with recvSeq := { c.recvSeq with seqSeen := true } }, o) ∧
      (∀ arc, o.next arc tm = .idle ∨ o.next arc tm = .closing tm.connId)) ∨
    σ.sent[c.recvSeq.nextExpected - 1]? = some tm ∧ c.recvSeq.observe tm.seq = (⟨c.recvSeq.nextExpected + 1, true⟩, .accept) ∧
      c.recvSeq.nextExpected ≤ σ.sent.length := by
  obtain ⟨k, hk⟩ := mem_iff_getElem?.1 hsent
  have hseq := hn.seq k tm hk
  have hlt := (List.getElem?_eq_some_iff.1 hk).1
  rcases lt_trichotomy (k + 1) c.recvSeq.nextExpected with h | h | h
  · refine .inl ⟨.duplicate (k + 1), ?_, fun _ => .inl rfl⟩
    unfold TunnelConn.receive SeqState.observe
    rw [hseq]
    simp only [if_pos h]
  · refine .inr ⟨by rw [← h]; exact hk, ?_, by omega⟩
    have hroom := hn.room
    rw [hn.next] at hroom
    rw [hseq, SeqState.observe, if_neg (by omega), if_pos h, Nat.mod_eq_of_lt (by omega)]
  · refine .inl ⟨.gap c.recvSeq.nextExpected (k + 1), ?_, fun _ => .inr rfl⟩
    unfold TunnelConn.receive SeqState.observe
    rw [hseq]
    simp only [if_neg (show ¬ k + 1 < c.recvSeq.nextExpected by omega), if_neg (show ¬ k + 1 = c.recvSeq.nextExpected by omega)]

theorem Flow.observe (hf : s.Flow σ arc cell) (hn : σ.Numbered)
    (hsent : tm ∈ σ.sent) (hloop : s.loop = .owned arc tm) (hid : cell.id = tm.connId) (hheld : cell.held = false) :
    State.Flow { s.setConn arc { cell with conn := (cell.conn.receive tm).1 } with
      loop := (cell.conn.receive tm).2.next arc tm } σ arc { cell with conn := (cell.conn.receive tm).1 } := by
  have hcut : ¬ s.Cut arc cell.id := by
    rw [Cut, hloop]
    rintro (h | ⟨-, h⟩)
    · cases h
    · exact h rfl
  have htasks := hf.not_replayed hheld
  have hwrites : ∀ rest, s.loop.writes ≠ some (arc, rest) := by
    rw [hloop]
    exact nofun
  rcases receive_cases hn hsent with ⟨o, ho, hnext⟩ | ⟨hk, hobs, hle⟩
  · rw [ho]
    have hquiet : ∀ rest, (o.next arc tm).writes ≠ some (arc, rest) := by
      rcases hnext arc with h | h <;> rw [h] <;> exact nofun
    refine flow_free hf.low hf.high hheld htasks (fun rest h => absurd h (hquiet rest)) (fun buffered k h => ?_)
      (fun writer h => ⟨hf.sunk writer h, fun hfailed => ⟨fun rest h => absurd h (hquiet rest), fun _ => ?_⟩⟩)
    · exact .all ((hf.pending buffered k h).2.exact hcut)
    · exact .all ((hf.written writer h hheld hwrites hfailed).exact hcut)
  · have hnext := Sender.chunks_succ hk
    rw [Nat.sub_add_cancel hf.low] at hnext
    unfold TunnelConn.receive
    rw [hobs]
    cases hstate : cell.conn.state with
    | active writer =>
      have hwritten : writer.failed = false → writer.written = σ.chunks (cell.conn.recvSeq.nextExpected - 1) :=
        fun hfailed => (hf.written writer hstate hheld hwrites hfailed).exact hcut
      refine flow_free (Nat.le_add_left 1 _) (Nat.succ_le_succ hle) hheld htasks (fun _ _ => rfl) nofun (fun w hw => ?_)
      cases hw
      rw [Nat.add_sub_cancel, hnext]
      refine ⟨(hf.sunk writer hstate).trans (prefix_append _ _), fun hfailed => ⟨fun rest h => ?_, fun h => ?_⟩⟩
      · rw [hwritten hfailed]
        rw [DataOutcome.next] at h
        cases hp : tm.payload with
        | none =>
          rw [hp] at h
          cases h
        | some payload =>
          rw [hp] at h
          dsimp only at h
          split at h
          · cases h
          · cases h
            rw [TunnelMessage.bytes, hp, getD_some]
      · refine .all ?_
        rw [hnext, hwritten hfailed]
        have hempty : tm.bytes = [] := by
          rw [TunnelMessage.bytes]
          cases hp : tm.payload with
          | none => rfl
          | some payload =>
            rw [getD_some]
            by_contra hne
            refine h payload ?_
            rw [DataOutcome.next, hp]
            dsimp only
            rw [if_neg hne]
            rfl
        rw [hempty, append_nil]
    | pending buffered k =>
      have hbuffered := (hf.pending buffered k hstate).2.exact hcut
      dsimp only
      split
      · -- the buffer is full: the chunk is skipped, and the loop closes the connection
        refine flow_free (Nat.le_add_left 1 _) (Nat.succ_le_succ hle) hheld htasks nofun (fun b j h => ?_) nofun
        cases h
        exact ⟨cell.conn.recvSeq.nextExpected - 1, Nat.sub_le _ _, hbuffered, fun _ => .inl (by rw [hid]; rfl)⟩
      · refine flow_free (Nat.le_add_left 1 _) (Nat.succ_le_succ hle) hheld htasks nofun (fun b j h => ?_) nofun
        cases h
        refine .all ?_
        show (buffered ++ [tm.bytes]).flatten = σ.chunks (cell.conn.recvSeq.nextExpected + 1 - 1)
        rw [Nat.add_sub_cancel, hnext, flatten_append, flatten_singleton, hbuffered]

variable {writer : Socket}

theorem Flow.write {arc n : Nat} {rest : Bytes} (hf : s.Flow σ arc cell)
    (hloop : s.loop = .writing arc x rest) (hstate : cell.conn.state = .active writer) (hopen : writer.failed = false) :
    State.Flow { s.setConn arc (cell.withWriter (writer.take (rest.take n)) cell.held) with
      loop := if n = rest.length then .idle else .writing arc x (rest.drop n) } σ arc
      (cell.withWriter (writer.take (rest.take n)) cell.held) := by
  obtain ⟨hheld, w, hw, hall⟩ := hf.writing rest (by rw [hloop]; rfl)
  rw [hstate] at hw
  cases hw
  have hsplit : writer.written ++ rest.take n ++ rest.drop n = σ.chunks (cell.conn.recvSeq.nextExpected - 1) := by
    rw [append_assoc, take_append_drop]
    exact hall hopen
  refine flow_free hf.low hf.high hheld (hf.not_replayed hheld) (fun _ _ => rfl) nofun (fun w hw => ?_)
  cases hw
  refine ⟨⟨rest.drop n, hsplit⟩, fun _ => ⟨fun r h => ?_, fun h => .all ?_⟩⟩
  · split at h
    · cases h
    · cases h
      exact hsplit
  · have hn : n = rest.length := by
      by_contra hne
      refine h (rest.drop n) ?_
      rw [if_neg hne]
      rfl
    rw [hn, drop_length, append_nil] at hsplit
    rw [hn]
    exact hsplit

theorem Flow.writeFails {x y : String} {rest : Bytes} (hf : s.Flow σ arc cell)
    (hloop : s.loop = .writing arc x rest) (hstate : cell.conn.state = .active writer) :
    State.Flow { s.setConn arc (cell.withWriter { writer with failed := true } cell.held) with loop := .closing y } σ arc
      (cell.withWriter { writer with failed := true } cell.held) := by
  obtain ⟨hheld, -⟩ := hf.writing rest (by rw [hloop]; rfl)
  refine flow_free hf.low hf.high hheld (hf.not_replayed hheld) nofun nofun (fun w hw => ?_)
  cases hw
  exact ⟨hf.sunk writer hstate, nofun⟩

variable {t t' : Task}

theorem get_set {i j : Nat} (h : (s.tasks.set i t')[j]? = some t) : (j = i ∧ t = t') ∨ j ≠ i ∧ s.tasks[j]? = some t := by
  rw [getElem?_set] at h
  by_cases hij : i = j
  · subst hij
    rw [if_pos rfl] at h
    split at h
    · cases h
      exact .inl ⟨rfl, rfl⟩
    · cases h
  · rw [if_neg hij] at h
    exact .inr ⟨Ne.symm hij, h⟩

variable {req : AuthRequest}

theorem Flow.promote {arc i own : Nat} {buffered : List Bytes} {k : Nat}
    {more : List Event} (hf : s.Flow σ arc cell) (hstate : cell.conn.state = .pending buffered k) :
    State.Flow { (s.setConn arc (cell.withWriter ⟨[], false⟩ true)).become i
        (.authorize own req x (.replaying arc [] buffered)) with
      activeConns := s.activeConns + 1
      log := s.log ++ more } σ arc (cell.withWriter ⟨[], false⟩ true) := by
  obtain ⟨hheld, hwhole⟩ := hf.pending buffered k hstate
  have hquiet : ∀ rest, s.loop.writes ≠ some (arc, rest) := fun rest h => by
    obtain ⟨-, w, hw, -⟩ := hf.writing rest h
    rw [hstate] at hw
    cases hw
  refine ⟨hf.low, hf.high, nofun, fun j t rest ht hr => ?_, fun j j' t t' rest rest' ht ht' hr hr' => ?_,
    fun rest h => absurd h (hquiet rest), nofun, fun w hw => ?_⟩
  · rcases get_set ht with ⟨-, rfl⟩ | ⟨-, ht⟩
    · cases hr
      exact ⟨rfl, _, rfl, rfl, hwhole.aside id⟩
    · exact absurd hr (hf.not_replayed hheld j t rest ht)
  · rcases get_set ht with ⟨rfl, -⟩ | ⟨-, ht⟩
    · rcases get_set ht' with ⟨rfl, -⟩ | ⟨-, ht'⟩
      · rfl
      · exact absurd hr' (hf.not_replayed hheld j' t' rest' ht')
    · exact absurd hr (hf.not_replayed hheld j t rest ht)
  · cases hw
    exact nil_prefix

theorem Flow.replayWrite {arc i own n : Nat} {current : Bytes} {rest : List Bytes} (hf : s.Flow σ arc cell)
    (ht : s.tasks[i]? = some (.authorize own req x (.replaying arc current rest)))
    (hstate : cell.conn.state = .active writer) :
    State.Flow ((s.setConn arc (cell.withWriter (writer.take (current.take n)) cell.held)).become i
      (.authorize own req x (.replaying arc (current.drop n) rest))) σ arc
      (cell.withWriter (writer.take (current.take n)) cell.held) := by
  obtain ⟨hheld, w, hw, hopen, hwhole⟩ := hf.replaying i _ _ ht rfl
  rw [hstate] at hw
  cases hw
  have hsplit : writer.written ++ current.take n ++ (current.drop n ++ rest.flatten) = writer.written ++ (current ++ rest.flatten) := by
    rw [append_assoc, ← append_assoc (current.take n), take_append_drop]
  refine ⟨hf.low, hf.high, nofun, fun j t r htj hr => ?_, fun j j' t t' r r' htj htj' hr hr' => ?_, fun r h => ?_,
    fun w _ h => ?_, fun w hw => ?_⟩
  · rcases get_set htj with ⟨-, rfl⟩ | ⟨hne, htj⟩
    · cases hr
      refine ⟨hheld, _, rfl, hopen, ?_⟩
      show Whole _ _ _ _ _ (writer.written ++ current.take n ++ (current.drop n ++ rest.flatten))
      rw [hsplit]
      exact hwhole.aside id
    · exact absurd (hf.single j i _ _ _ _ htj ht hr rfl) hne
  · rcases get_set htj with ⟨rfl, -⟩ | ⟨hne, htj⟩
    · rcases get_set htj' with ⟨rfl, -⟩ | ⟨hne, htj'⟩
      · rfl
      · exact absurd (hf.single j' j _ _ _ _ htj' ht hr' rfl) hne
    · exact absurd (hf.single j i _ _ _ _ htj ht hr rfl) hne
  · obtain ⟨h, -⟩ := hf.writing r h
    rw [hheld] at h
    cases h
  · rw [hheld] at h
    cases h
  · cases hw
    obtain ⟨m, hm, hbytes, -⟩ := hwhole
    refine IsPrefix.trans ⟨current.drop n ++ rest.flatten, ?_⟩ (Sender.chunks_prefix hm)
    rw [← hbytes]
    exact hsplit

theorem Flow.last_replay {arc i : Nat} {r : Bytes} (hf : s.Flow σ arc cell)
    (ht : s.tasks[i]? = some t) (hr : t.replays = some (arc, r)) (hnone : t'.replays = none) (j : Nat) (u : Task) (rest : Bytes)
    (hu : (s.tasks.set i t')[j]? = some u) : u.replays ≠ some (arc, rest) := fun hur => by
  rcases get_set hu with ⟨-, rfl⟩ | ⟨hne, hu⟩
  · rw [hnone] at hur
    cases hur
  · exact hne (hf.single j i _ _ _ _ hu ht hur hr)

theorem Flow.not_writing {arc i : Nat} {t : Task} {r : Bytes} (hf : s.Flow σ arc cell)
    (ht : s.tasks[i]? = some t) (hr : t.replays = some (arc, r)) (rest : Bytes) : s.loop.writes ≠ some (arc, rest) := by
  intro h
  have := (hf.writing rest h).1
  rw [(hf.replaying i t r ht hr).1] at this
  cases this

theorem Flow.replayFails {arc i own : Nat} {current : Bytes} {rest : List Bytes} (hf : s.Flow σ arc cell)
    (ht : s.tasks[i]? = some (.authorize own req x (.replaying arc current rest)))
    (hstate : cell.conn.state = .active writer) :
    State.Flow ((s.setConn arc (cell.withWriter { writer with failed := true } false)).become i
      (.authorize own req x (.closing .unwritable))) σ arc (cell.withWriter { writer with failed := true } false) := by
  refine flow_free hf.low hf.high rfl (hf.last_replay ht rfl rfl) (fun r h => absurd h (hf.not_writing ht rfl r)) nofun
    (fun w hw => ?_)
  cases hw
  exact ⟨hf.sunk writer hstate, nofun⟩

theorem Flow.replayDone {arc i own : Nat} {x y : String} (hf : s.Flow σ arc cell)
    (ht : s.tasks[i]? = some (.authorize own req x (.replaying arc [] []))) :
    State.Flow ((s.setConn arc { cell with held := false }).resume i (.forward y)) σ arc { cell with held := false } := by
  obtain ⟨-, w, hstate, hopen, hwhole⟩ := hf.replaying i _ _ ht rfl
  rw [show ([] : Bytes) ++ ([] : List Bytes).flatten = [] from rfl, append_nil] at hwhole
  refine flow_free hf.low hf.high rfl (hf.last_replay ht rfl rfl) (fun r h => absurd h (hf.not_writing ht rfl r))
    (fun b k h => ?_) (fun v hv => ?_)
  · rw [hstate] at h
    cases h
  · rw [hstate] at hv
    cases hv
    exact ⟨hf.sunk w hstate, fun _ => ⟨fun r h => absurd h (hf.not_writing ht rfl r), fun _ => hwhole.aside id⟩⟩

theorem bounded_receive {c : TunnelConn} (h : c.Bounded) (tm : TunnelMessage) : (c.receive tm).1.Bounded := by
  unfold TunnelConn.receive
  dsimp only
  split
  · exact h
  · exact h
  · exact h
  · split
    · exact h
    · rename_i buffered k hstate
      obtain ⟨hsum, hlen, hk⟩ := h buffered k hstate
      split
      · exact h
      · rename_i hroom
        intro b j hb
        cases hb
        rw [map_append, sum_append, length_append, ← hsum]
        refine ⟨by simp, ?_, ?_⟩
        · rw [length_singleton]
          omega
        · omega

theorem Carries.task (hc : s.Carries σ peerId connId) {i : Nat} (ht : s.tasks[i]? = some t)
    (hheap : s'.heap = s.heap) (hconns : s'.conns = s.conns) (hloop : s'.loop = s.loop)
    (htasks : s'.tasks = s.tasks.set i t') (hreplays : ∀ r, t'.replays = some r → t.replays = some r) :
    s'.Carries σ peerId connId := by
  refine hc.frame hheap (fun x a h => by rwa [hconns] at h) (by rw [hloop]; exact hc.loop) (by rw [hloop])
    (fun j u r hu hr => ?_) (fun a c _ h => ?_)
  · rw [htasks] at hu
    rcases get_set hu with ⟨rfl, rfl⟩ | ⟨-, hu⟩
    · exact ⟨t, ht, hreplays r hr⟩
    · exact ⟨u, hu, hr⟩
  · unfold Cut at h ⊢
    rwa [hconns, hloop]

theorem Carries.goes (hc : s.Carries σ peerId connId) (loop : Loop) (hok : s.LoopOk σ peerId connId loop)
    (hclosing : ∀ x, s.loop ≠ .closing x) (hwrites : s.loop.writes = none) (hwrites' : loop.writes = none)
    (hholds : ∀ (arc : Nat) cell, s.heap[arc]? = some cell → loop.Holds arc → s.loop.Holds arc ∨ s.conns.get cell.id = some arc) :
    Carries σ peerId connId { s with loop := loop } := by
  refine hc.frame rfl (fun _ _ h => h) hok (hwrites'.trans hwrites.symm) (fun j u r hu hr => ⟨u, hu, hr⟩)
    (fun a c hcell h => ?_)
  rcases h with h | ⟨hne, hnot⟩
  · exact absurd h (hclosing _)
  · exact .inr ⟨hne, fun hh => (hholds a c hcell hh).elim hnot hne⟩

theorem Cut.erase {x y : String} (h : s.Cut arc x) (hconns : s'.conns = s.conns.erase y)
    (hloop : s'.loop = s.loop) : s'.Cut arc x := by
  rcases h with h | ⟨hne, hnot⟩
  · exact .inl (hloop.trans h)
  · refine .inr ⟨fun hg => hne ?_, by rwa [hloop]⟩
    rw [hconns] at hg
    exact (of_get_erase hg).2

theorem Carries.closeConn (hc : s.Carries σ peerId connId) {i : Nat} {t : Task} (ht : s.tasks[i]? = some t) (x : String)
    (refused : Option Nat) (after : After) : (s.closeConn i x refused after).Carries σ peerId connId := by
  cases hget : s.conns.get x with
  | none =>
    rw [closeConn_of_none hget]
    exact hc.task ht rfl rfl rfl rfl (by cases after <;> exact nofun)
  | some arc =>
    rw [closeConn_of_some hget]
    refine hc.frame rfl (fun y a h => ?_) hc.loop rfl (fun j u r hu hr => ?_) (fun a c _ h => h.erase rfl rfl)
    · exact (of_get_erase h).2
    · rcases get_set hu with ⟨rfl, rfl⟩ | ⟨-, hu⟩
      · cases hr
      · exact ⟨u, hu, hr⟩

theorem Carries.loopCloseConn (hc : s.Carries σ peerId connId) (hloop : s.loop = .closing x) :
    (s.loopCloseConn x).Carries σ peerId connId := by
  have hcut : ∀ {s' : State} {arc : Nat} {y : String}, (s'.conns = s.conns ∨ s'.conns = s.conns.erase x) →
      s'.conns.get x = none → (¬ s'.loop.Holds arc) → s.Cut arc y → s'.Cut arc y := by
    intro s' arc y hconns hx hnot h
    refine .inr ⟨fun hg => ?_, hnot⟩
    rcases h with h | ⟨hne, -⟩
    · rw [hloop] at h
      cases h
      rw [hx] at hg
      cases hg
    · rcases hconns with hconns | hconns
      · exact hne (hconns ▸ hg)
      · rw [hconns] at hg
        obtain ⟨-, hg⟩ := of_get_erase hg
        exact hne hg
  cases hget : s.conns.get x with
  | none =>
    rw [loopCloseConn_of_none hget]
    exact hc.frame rfl (fun _ _ h => h) trivial (by rw [hloop]; rfl) (fun j u r hu hr => ⟨u, hu, hr⟩)
      (fun a c _ h => hcut (.inl rfl) hget nofun h)
  | some arc =>
    rw [loopCloseConn_of_some hget]
    refine hc.frame rfl (fun y a h => ?_) trivial (by rw [hloop]; rfl) (fun j u r hu hr => ⟨u, hu, hr⟩)
      (fun a c _ h => hcut (.inr rfl) (get_erase_self _ _) nofun h)
    exact (of_get_erase h).2

theorem aside_loop {arc a : Nat} (hne : a ≠ arc) (hconns : s'.conns = s.conns) (htasks : s'.tasks = s.tasks)
    (hclosing : ∀ y, s.loop ≠ .closing y) (hholds : ¬ s'.loop.Holds a)
    (hwrites : ∀ r, s.loop.writes = some r → r.1 = arc) (hwrites' : ∀ r, s'.loop.writes = some r → r.1 = arc) :
    Aside s s' a x where
  cut := fun h => by
    rcases h with h | ⟨hget, -⟩
    · exact absurd h (hclosing _)
    · exact .inr ⟨by rwa [hconns], hholds⟩
  writes := fun rest => ⟨fun h => absurd (hwrites' _ h) hne, fun h => absurd (hwrites _ h) hne⟩
  tasks := fun i t rest ht hr => ⟨t, by rwa [htasks] at ht, hr⟩

theorem aside_task {arc a i : Nat} {t' : Task} (hne : a ≠ arc) (hconns : s'.conns = s.conns)
    (hloop : s'.loop = s.loop) (htasks : s'.tasks = s.tasks.set i t') (hreplays : ∀ r, t'.replays = some r → r.1 = arc) :
    Aside s s' a x where
  cut := fun h => by
    unfold Cut at h ⊢
    rwa [hconns, hloop]
  writes := fun rest => by rw [hloop]
  tasks := fun j u rest hu hr => by
    rw [htasks] at hu
    rcases get_set hu with ⟨-, rfl⟩ | ⟨-, hu⟩
    · exact absurd (hreplays _ hr) hne
    · exact ⟨u, hu, hr⟩

theorem onTunnelMessage_cases (s : State) (peer : String) (tm : TunnelMessage) (did : Option String) :
    (∃ arc, s.onTunnelMessage peer tm did = .data arc peer tm ∧ tm.msgType = "data" ∧ s.conns.get tm.connId = some arc) ∨
    (s.onTunnelMessage peer tm did).writes = none ∧ (∀ arc, ¬ (s.onTunnelMessage peer tm did).Holds arc) ∧
      ∀ σ p x, s.LoopOk σ p x (s.onTunnelMessage peer tm did) := by
  unfold onTunnelMessage
  split
  · split <;> exact .inr ⟨rfl, fun _ => id, fun _ _ _ => trivial⟩
  · split
    · rename_i htype
      cases hget : s.conns.get tm.connId with
      | none => exact .inr ⟨rfl, fun _ => id, fun _ _ _ => trivial⟩
      | some arc => exact .inl ⟨arc, rfl, htype, rfl⟩
    · split
      · cases s.conns.get tm.connId <;> exact .inr ⟨rfl, fun _ => id, fun _ _ _ => trivial⟩
      · exact .inr ⟨rfl, fun _ => id, fun _ _ _ => trivial⟩

theorem next_cases (arc : Nat) (tm : TunnelMessage) (o : DataOutcome) :
    (∀ a, ¬ (o.next arc tm).Holds a) ∧ (∀ r, (o.next arc tm).writes = some r → r.1 = arc) ∧
      ∀ (s : State) σ p x, s.LoopOk σ p x (o.next arc tm) := by
  cases o with
  | write =>
    rw [DataOutcome.next]
    cases tm.payload with
    | none => exact ⟨fun _ => id, nofun, fun _ _ _ _ => trivial⟩
    | some payload =>
      dsimp only
      split
      · exact ⟨fun _ => id, nofun, fun _ _ _ _ => trivial⟩
      · exact ⟨fun _ => id, fun r h => by cases h; rfl, fun _ _ _ _ => trivial⟩
  | _ => exact ⟨fun _ => id, nofun, fun _ _ _ _ => trivial⟩

theorem Carries.step (hc : s.Carries σ peerId connId) (hok : Sunk s act) (hd : Delivers σ peerId connId act)
    (h : Step target remoteAddr s act s') : s'.Carries σ peerId connId := by
  cases h with
  | receive peer tm did hloop =>
    have hclosing : ∀ x, s.loop ≠ .closing x := by rw [hloop]; exact nofun
    rcases s.onTunnelMessage_cases peer tm did with ⟨arc, heq, htype, hget⟩ | ⟨hwrites, hholds, hloopOk⟩
    · obtain ⟨cell, hcell, hid⟩ := hc.tracked _ _ hget
      rw [heq]
      refine hc.goes _ ⟨⟨cell, hcell, hid⟩, fun hp hx => hd hp htype hx⟩ hclosing (by rw [hloop]; rfl) rfl
        (fun a c ha hh => ?_)
      cases hh
      rw [hcell] at ha
      cases ha
      exact .inr (hid ▸ hget)
    · exact hc.goes _ (hloopOk _ _ _) hclosing (by rw [hloop]; rfl) hwrites (fun a c _ hh => absurd hh (hholds a))
  | track busy hloop =>
    unfold trackPendingConn
    split
    · exact hc.track rfl rfl rfl trivial (by rw [hloop]; exact nofun) (fun _ h => h.elim) (by rw [hloop]; rfl) rfl rfl
        (fun b k h => by cases h; exact ⟨rfl, Nat.zero_le _, Nat.zero_le _⟩) rfl rfl
        (fun b k h => by cases h; rfl) nofun
    · exact hc.goes _ trivial (by rw [hloop]; exact nofun) (by rw [hloop]; rfl) rfl (fun _ _ _ h => h.elim)
  | check bound hloop hcell hheld =>
    have hdata := hc.loop
    rw [hloop] at hdata
    obtain ⟨⟨c, hc', hid⟩, hsent⟩ := hdata
    rw [hcell] at hc'
    cases hc'
    refine hc.goes _ ?_ (by rw [hloop]; exact nofun) (by rw [hloop]; rfl) ?_ (fun a c _ hh => ?_)
    · split
      · rename_i howner
        exact ⟨_, hcell, hid, fun hp hx => hsent (howner.1.symm.trans hp) hx⟩
      · trivial
    · split <;> rfl
    · split at hh
      · rw [hloop]
        exact .inl hh
      · exact hh.elim
  | observe hloop hcell hheld =>
    rename_i arc tm cell
    obtain ⟨hholds, hwrites, hloopOk⟩ := next_cases arc tm (cell.conn.receive tm).2
    have howned := hc.loop
    rw [hloop] at howned
    obtain ⟨c, hc', hid, hsent⟩ := howned
    rw [hcell] at hc'
    cases hc'
    refine hc.set hcell rfl rfl (cell.conn.receive_owner tm).1 rfl (hloopOk _ _ _ _)
      (bounded_receive (hc.bounded cell (mem_of_getElem? hcell)) tm) (fun a x hne => ?_) (fun hx hp hf => ?_)
    · exact aside_loop hne rfl rfl (by rw [hloop]; exact nofun) (hholds a) (by rw [hloop]; exact nofun) hwrites
    · exact hf.observe hc.numbered (hsent hp (hid ▸ hx)) hloop hid hheld
  | write n hloop hcell hstate hpos hle =>
    refine hc.set hcell rfl rfl rfl rfl ?_ nofun (fun a x hne => ?_) (fun _ _ hf => hf.write hloop hstate (hok _ _ hcell hstate))
    · split <;> trivial
    · refine aside_loop hne rfl rfl (by rw [hloop]; exact nofun) ?_ (by rw [hloop]; rintro r h; cases h; rfl) ?_
      · split <;> exact id
      · intro r h
        split at h
        · cases h
        · cases h
          rfl
  | writeFails hloop hcell hstate =>
    refine hc.set hcell rfl rfl rfl rfl trivial nofun (fun a x hne => ?_) (fun _ _ hf => hf.writeFails hloop hstate)
    exact aside_loop hne rfl rfl (by rw [hloop]; exact nofun) id (by rw [hloop]; rintro r h; cases h; rfl) nofun
  | closeFrom hloop =>
    refine hc.goes _ ?_ (by rw [hloop]; exact nofun) (by rw [hloop]; rfl) ?_ (fun a c _ hh => ?_)
    · split <;> trivial
    · split <;> rfl
    · split at hh <;> exact hh.elim
  | loopClose hloop => exact hc.loopCloseConn hloop
  | loopSettle hloop =>
    rw [settle_eq]
    refine hc.frame rfl (fun _ _ h => h) trivial (by rw [hloop]; rfl) (fun j u r hu hr => ⟨u, hu, hr⟩) (fun a c _ h => ?_)
    rcases h with h | ⟨hne, -⟩
    · rw [hloop] at h
      cases h
    · exact .inr ⟨hne, id⟩
  | answer allowed ht | connectFails ht | promoteLate ht | dialed ht | dialFails ht | forwardEnds ht
  | sweepEnds ht => exact hc.task ht rfl rfl rfl rfl nofun
  | @decided _ _ _ connId allowed ht =>
    refine hc.task ht rfl rfl rfl rfl ?_
    by_cases hstop : s.cancelled = true ∨ s.conns.contains connId = false
    · rw [if_pos hstop]
      exact nofun
    · rw [if_neg hstop]
      cases allowed <;> exact nofun
  | connect ht | sweepNext ht =>
    refine hc.task ht rfl rfl rfl rfl ?_
    split <;> exact nofun
  | lookUp ht =>
    refine hc.task ht rfl rfl rfl rfl ?_
    cases s.conns.get _ <;> exact nofun
  | promote ht hcell hheld hstate =>
    refine hc.set hcell rfl rfl rfl rfl hc.loop nofun (fun a x hne => ?_) (fun _ _ hf => hf.promote hstate)
    exact aside_task hne rfl rfl rfl (fun r h => by cases h; rfl)
  | replayNext ht =>
    refine hc.task ht rfl rfl rfl rfl (fun r h => ?_)
    cases h
    rfl
  | replayWrite n ht hcell hstate =>
    refine hc.set hcell rfl rfl rfl rfl hc.loop nofun (fun a x hne => ?_) (fun _ _ hf => hf.replayWrite ht hstate)
    exact aside_task hne rfl rfl rfl (fun r h => by cases h; rfl)
  | replayFails ht hcell hstate =>
    refine hc.set hcell rfl rfl rfl rfl hc.loop nofun (fun a x hne => ?_) (fun _ _ hf => hf.replayFails ht hstate)
    exact aside_task hne rfl rfl rfl nofun
  | replayDone ht hcell =>
    have hbounded := hc.bounded _ (mem_of_getElem? hcell)
    refine hc.set hcell rfl rfl rfl rfl hc.loop hbounded (fun a x hne => ?_) (fun _ _ hf => hf.replayDone ht)
    exact aside_task hne rfl rfl rfl nofun
  | authorizeClose ht | close ht => exact hc.closeConn ht _ _ _
  | dial x peer =>
    exact hc.track (t := .dialing x) rfl rfl rfl hc.loop (fun _ h => h) (fun _ h => h) rfl rfl rfl nofun rfl rfl nofun
      (fun w h => by cases h; rfl)
  | sweep peer todo =>
    refine hc.frame rfl (fun _ _ h => h) hc.loop rfl (fun j u r hu hr => ?_) (fun a c _ h => h)
    rcases Nat.lt_or_ge j s.tasks.length with hj | hj
    · rw [getElem?_append_left hj] at hu
      exact ⟨u, hu, hr⟩
    · rw [getElem?_append_right hj] at hu
      have hm := mem_of_getElem? hu
      rw [mem_singleton.1 hm] at hr
      cases hr
  | settle ht =>
    rename_i i arc after cell _ _
    rw [settle_eq]
    exact hc.task ht rfl rfl rfl rfl (by cases after <;> exact nofun)
  | cancel => exact hc.frame rfl (fun _ _ h => h) hc.loop rfl (fun j u r hu hr => ⟨u, hu, hr⟩) fun a c _ h => h

/-- **The stream of a connection is never corrupted**: what its backend took is a prefix of what the sender read; a
tracked connection with nothing in hand lost none of the chunks that it accepted; and the buffers keep their bounds. -/
def InOrder (s : State) (σ : Sender) (peerId connId : String) : Prop :=
  (∀ (arc : Nat) cell writer, s.heap[arc]? = some cell → cell.id = connId → cell.conn.peerId = peerId →
    cell.conn.state = .active writer → writer.written <+: σ.bytes) ∧
  (∀ arc cell, s.conns.get connId = some arc → s.heap[arc]? = some cell → cell.conn.peerId = peerId → s.loop = .idle →
    (∀ buffered k, cell.conn.state = .pending buffered k → buffered.flatten = σ.chunks (cell.conn.recvSeq.nextExpected - 1)) ∧
    ∀ writer, cell.conn.state = .active writer → cell.held = false → writer.failed = false →
      writer.written = σ.chunks (cell.conn.recvSeq.nextExpected - 1)) ∧
  ∀ cell ∈ s.heap, ∀ buffered k, cell.conn.state = .pending buffered k →
    buffered.length ≤ pendingDataBufferMaxMsgs ∧ (buffered.map List.length).sum ≤ pendingDataBufferMaxBytes

end State

variable {peerId connId : String}

theorem Carried.carries (h : Carried target remoteAddr peerId connId Sunk σ s) : s.Carries σ peerId connId := by
  induction h with
  | refl =>
    refine ⟨Sender.numbered_new, fun x arc hget => ?_, trivial, nofun, fun _ _ _ _ h => ?_, fun _ _ h => ?_, fun _ _ h => ?_⟩
    · cases hget
    all_goals cases h
  | read _ hread ih =>
    refine ⟨ih.numbered.read hread, ih.tracked, ?_, ih.bounded, ih.replays, ih.writes, fun arc cell hcell hid hpeer =>
      (ih.flow arc cell hcell hid hpeer).read hread⟩
    obtain ⟨-, rfl⟩ := Sender.read_eq_some hread
    have hloop := ih.loop
    revert hloop
    cases State.loop _ with
    | data arc peer tm => exact fun h => ⟨h.1, fun hp hx => mem_append_left _ (h.2 hp hx)⟩
    | owned arc tm =>
      rintro ⟨cell, hcell, hid, hsent⟩
      exact ⟨cell, hcell, hid, fun hp hx => mem_append_left _ (hsent hp hx)⟩
    | _ => exact id
  | step _ hok hd hstep ih => exact ih.step hok hd hstep

/-- **Tunnelled streams are never corrupted.**  Whatever the network loses, repeats and reorders, whenever the connection is
promoted and whichever writes fail: where a stream that refused a write takes nothing more, what the backend of a
connection took is at all times a prefix of what its sender read. -/
theorem streams_in_order (target remoteAddr peerId connId : String) (σ : Sender) (s : State)
    (h : Carried target remoteAddr peerId connId Sunk σ s) : s.InOrder σ peerId connId := by
  have hc := h.carries
  refine ⟨fun arc cell writer hcell hid hpeer hstate => ?_, fun arc cell hget hcell hpeer hidle => ?_,
    fun cell hm buffered k hstate => ?_⟩
  · exact ((hc.flow arc cell hcell hid hpeer).sunk writer hstate).trans (Sender.chunks_prefix_bytes _ _)
  · obtain ⟨c, hc', hid⟩ := hc.tracked connId arc hget
    rw [hcell] at hc'
    cases hc'
    have hf := hc.flow arc cell hcell hid hpeer
    have hcut : ¬ s.Cut arc cell.id := by
      rw [State.Cut, hidle, hid]
      rintro (h | ⟨h, -⟩)
      · cases h
      · exact h hget
    refine ⟨fun buffered k hstate => (hf.pending buffered k hstate).2.exact hcut, fun writer hstate hheld hopen => ?_⟩
    exact (hf.written writer hstate hheld (by rw [hidle]; exact nofun) hopen).exact hcut
  · obtain ⟨hsum, hlen, hk⟩ := hc.bounded cell hm buffered k hstate
    exact ⟨hlen, hsum ▸ hk⟩

/-! ## Runs -/

theorem Carried.reach {ok : State → Act → Prop} (hσ : Carried target remoteAddr peerId connId ok σ .initial)
    (h : Reach target remoteAddr (fun s act => ok s act ∧ Delivers σ peerId connId act) s) :
    Carried target remoteAddr peerId connId ok σ s := by
  induction h with
  | refl => exact hσ
  | tail _ hok hstep ih => exact ih.step hok.1 hok.2 hstep

/-- The `k`-th chunk of a run. -/
def chunkMessage (k : Nat) : TunnelMessage := ⟨"data", "x", some [k.toUInt8], some k⟩

def twoChunks : Sender := ⟨3, [chunkMessage 1, chunkMessage 2]⟩

theorem twoChunks_read (ok : State → Act → Prop) : Carried "tcp:22" "127.0.0.1:22" "alice" "x" ok twoChunks .initial := by
  have h1 : Carried "tcp:22" "127.0.0.1:22" "alice" "x" ok ⟨2, [chunkMessage 1]⟩ .initial :=
    Carried.refl.read (show Sender.new.read "x" [1] = _ from rfl)
  exact h1.read (show Sender.read _ "x" [2] = _ from rfl)

def buffering : Cell := ⟨"x", some (request "alice"), ⟨.pending [[1]] 1, "alice", ⟨2, true⟩, none⟩, false⟩

def writing (written : Bytes) : Cell := ⟨"x", some (request "alice"), ⟨.active ⟨written, true⟩, "alice", ⟨3, true⟩, none⟩, false⟩

theorem reach_replaying {ok : State → Act → Prop} (hother : ∀ s, ok s .other)
    (hreceives : ∀ s, ok s (.receives "alice" connectMessage)) (hdata : ∀ s, ∀ tm ∈ twoChunks.sent, ok s (.receives "alice" tm))
    (htracks : ∀ s, ok s (.tracks "x")) :
    Reach "tcp:22" "127.0.0.1:22" ok ⟨[buffering.withWriter ⟨[], false⟩ true], insert ∅ "x" 0, 1,
      .owned 0 (chunkMessage 2), [.authorize 0 (request "alice") "x" (.replaying 0 [1] [])], false,
      [.answered 0 (request "alice") true, .attached 0 "x"]⟩ := by
  have h0 := reach_promoting hother (hreceives _) (htracks _)
  have h1 : Reach _ _ _ (allowed (waiting "alice") (.data 0 "alice" (chunkMessage 1)) (.promoting 0)) :=
    h0.to (.receive "alice" (chunkMessage 1) none rfl rfl) (hdata _ _ (by simp [twoChunks])) (by decide)
  have h2 : Reach _ _ _ (allowed (waiting "alice") (.owned 0 (chunkMessage 1)) (.promoting 0)) :=
    h1.to (.check false rfl (rfl : _ = some (waiting "alice")) rfl) (hother _) (by decide)
  have h3 : Reach _ _ _ (allowed buffering .idle (.promoting 0)) :=
    h2.to (.observe rfl (rfl : _ = some (waiting "alice")) rfl) (hother _) (by decide)
  have h4 : Reach _ _ _ (allowed buffering (.data 0 "alice" (chunkMessage 2)) (.promoting 0)) :=
    h3.to (.receive "alice" (chunkMessage 2) none rfl rfl) (hdata _ _ (by simp [twoChunks])) (by decide)
  have h5 : Reach _ _ _ (allowed buffering (.owned 0 (chunkMessage 2)) (.promoting 0)) :=
    h4.to (.check false rfl (rfl : _ = some buffering) rfl) (hother _) (by decide)
  have h6 : Reach _ _ _ ⟨[buffering.withWriter ⟨[], false⟩ true], insert ∅ "x" 0, 1, .owned 0 (chunkMessage 2),
      [.authorize 0 (request "alice") "x" (.replaying 0 [] [[1]])], false,
      [.answered 0 (request "alice") true, .attached 0 "x"]⟩ :=
    h5.to (.promote (i := 0) rfl (rfl : _ = some buffering) rfl rfl) (hother _) (by decide)
  exact h6.to (.replayNext (i := 0) rfl) (hother _) (by decide)

theorem streams_in_order_alice : (State.mk [buffering.withWriter ⟨[1], false⟩ true] (insert ∅ "x" 0) 1
    (.owned 0 (chunkMessage 2)) [.authorize 0 (request "alice") "x" (.replaying 0 [] [])] false
    [.answered 0 (request "alice") true, .attached 0 "x"]).InOrder twoChunks "alice" "x" := by
  have h0 : Reach _ _ (fun s act => Sunk s act ∧ Delivers twoChunks "alice" "x" act) _ := reach_replaying
    (fun _ => ⟨trivial, trivial⟩) (fun _ => ⟨trivial, nofun⟩) (fun _ tm htm => ⟨trivial, fun _ _ _ => htm⟩)
    (fun _ => ⟨trivial, trivial⟩)
  refine streams_in_order "tcp:22" "127.0.0.1:22" "alice" "x" twoChunks _ ((twoChunks_read Sunk).reach
    (h0.to (.replayWrite 1 (i := 0) rfl (rfl : _ = some (buffering.withWriter ⟨[], false⟩ true)) rfl (by decide) (by decide))
      ⟨fun cell writer hcell hstate => ?_, trivial⟩ (by decide)))
  cases hcell
  cases hstate
  rfl

/-- A replay whose write fails while the loop has the next chunk in hand: the loop finds the connection open and writes the
chunk, and the backend that takes it never saw the one before. -/
theorem chunk_skipped : ¬ ∀ σ s, Carried "tcp:22" "127.0.0.1:22" "alice" "x" (fun _ _ => True) σ s → s.InOrder σ "alice" "x" := by
  intro h
  have h0 : Reach _ _ (fun _ act => True ∧ Delivers twoChunks "alice" "x" act) _ := reach_replaying
    (fun _ => ⟨trivial, trivial⟩) (fun _ => ⟨trivial, nofun⟩) (fun _ tm htm => ⟨trivial, fun _ _ _ => htm⟩)
    (fun _ => ⟨trivial, trivial⟩)
  have h1 : Reach _ _ _ ⟨[buffering.withWriter ⟨[], true⟩ false], insert ∅ "x" 0, 1,
      .owned 0 (chunkMessage 2), [.authorize 0 (request "alice") "x" (.closing .unwritable)], false,
      [.answered 0 (request "alice") true, .attached 0 "x"]⟩ :=
    h0.to (.replayFails (i := 0) rfl (rfl : _ = some (buffering.withWriter ⟨[], false⟩ true)) rfl nofun)
      ⟨trivial, trivial⟩ (by decide)
  have h2 : Reach _ _ _ ⟨[writing []], insert ∅ "x" 0, 1, .writing 0 "x" [2], [.authorize 0 (request "alice") "x" (.closing .unwritable)], false,
      [.answered 0 (request "alice") true, .attached 0 "x"]⟩ :=
    h1.to (.observe rfl (rfl : _ = some (buffering.withWriter ⟨[], true⟩ false)) rfl) ⟨trivial, trivial⟩ (by decide)
  have h3 : Reach _ _ _ ⟨[writing [2]], insert ∅ "x" 0, 1, .idle, [.authorize 0 (request "alice") "x" (.closing .unwritable)], false,
      [.answered 0 (request "alice") true, .attached 0 "x"]⟩ :=
    h2.to (.write 1 rfl (rfl : _ = some (writing [])) rfl (by decide) (by decide)) ⟨trivial, trivial⟩ (by decide)
  have hstarts := (h _ _ ((twoChunks_read _).reach h3)).1 0 _ ⟨[2], true⟩ rfl rfl rfl rfl
  revert hstarts
  decide

end Mistl.Tunnel
