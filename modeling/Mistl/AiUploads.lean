import Mistl.AiSpeech
/-!
# AiUploads — which turns put an upload together

Every buffer holds the chunks of its stream from the first on, so what is transcribed is the audio; a stream is
transcribed exactly when the tasks of its chunks have their turns in order, none more than the buffer's lifetime after the
one before.
-/
open List Option

namespace Mistl.Ai

open Api (SttParams)

/-! ## Chunks -/

theorem getElem?_sttRequests (id : String) (req : SttParams) : ∀ (pieces : List (List UInt8)) (seq i : Nat),
    (sttRequests id req seq pieces)[i]? = pieces[i]?.map (fun piece => .sttRequest id (seq + i)
      (String.ofList (Base64.encodeStd piece)) (decide (i + 1 = pieces.length)) req.mime (sttModel req) req.fileName)
  | [], _, _ => rfl
  | [piece], seq, 0 => rfl
  | piece :: piece' :: pieces, seq, 0 => by
    show some (ProtocolMessage.sttRequest id seq _ false _ _ _) = some (.sttRequest id seq _ (decide (0 + 1 = _)) _ _ _)
    rw [decide_eq_false (by rw [length_cons, length_cons]; omega)]
  | piece :: pieces, seq, i + 1 => by
    show (sttRequests id req (seq + 1) pieces)[i]? = pieces[i]?.map _
    rw [getElem?_sttRequests id req pieces (seq + 1) i]
    refine congrArg (Option.map · _) (funext (fun piece' => ?_))
    rw [Nat.add_right_comm, Nat.add_assoc, decide_eq_decide.2 (show i + 1 + 1 = (piece :: pieces).length ↔ i + 1 = pieces.length by
      rw [length_cons]; omega)]

theorem length_sttRequests (id : String) (req : SttParams) : ∀ (pieces : List (List UInt8)) (seq : Nat),
    (sttRequests id req seq pieces).length = pieces.length
  | [], _ => rfl
  | _ :: pieces, seq => congrArg (· + 1) (length_sttRequests id req pieces (seq + 1))

theorem sttPieces_spec (audio : List UInt8) : (sttPieces audio).flatten = audio ∧ sttPieces audio ≠ [] ∧
    (sttPieces audio).length ≤ audio.length + 1 := by
  have hflat := Chunks.chunks_flatten (show 0 < chunkBytes by decide) audio
  have hlen := Chunks.length_chunks (show 0 < chunkBytes by decide) audio
  unfold sttPieces
  split
  · rename_i h
    rw [h] at hflat
    exact ⟨hflat, cons_ne_nil _ _, Nat.le_add_left _ _⟩
  · rename_i h
    refine ⟨hflat, h, ?_⟩
    rw [hlen, chunkBytes]
    omega

/-! ## The buffers -/

variable {buf : SttBuffer}

namespace SttBuffers

theorem get_remove (b : SttBuffers) (key k : String × String) : (b.remove key).map.get k = if k = key then none else b.map.get k := by
  unfold remove
  split
  · rename_i h
    split
    · rename_i hk
      rw [hk, h]
    · rfl
  · exact Table.get_erase _ _ _

theorem get_sweep {b : SttBuffers} {now : Nat} {key : String × String} :
    (b.sweep now).map.get key = some buf ↔ b.map.get key = some buf ∧ expired now buf = false := by
  unfold sweep
  rw [Table.get_filter, filter_eq_some_iff, Bool.not_eq_true']

theorem get_authorize (b : SttBuffers) (key k : String × String) : (b.authorize key).map.get k =
    if k = key then (b.map.get key).map (fun buf => { buf with authorized := true }) else b.map.get k := by
  unfold authorize
  split
  · rename_i h
    split
    · rename_i hk
      rw [hk, h]
      rfl
    · rfl
  · rename_i buf h
    rw [Table.get_insert, h]
    rfl

/-- A buffer that a chunk has gone into: one that is there and waits for it, or a new one. -/
def Extends (b : SttBuffers) (now : Nat) (key : String × String) (seq : Nat) (chunk : List UInt8) (mime : String)
    (model fileName : Option String) (buf : SttBuffer) : Prop :=
  ∃ old : SttBuffer, (b.map.get key = some old ∧ expired now old = false ∧ old.nextSeq = seq ∨
      seq = 0 ∧ old = ⟨false, mime, model, fileName, [], 0, now⟩) ∧
    buf = old.add seq chunk now

variable {b : SttBuffers} {now seq : Nat} {key : String × String} {chunk : List UInt8} {last : Bool} {mime : String}
  {model fileName : Option String}

/-- **What a push can do**: it refuses the chunk and drops the stream, or puts the chunk at the end of the stream; other
streams lose what has expired. -/
theorem push_cases : (∀ k, k ≠ key → ∀ buf, (b.push now key seq chunk last mime model fileName).1.map.get k = some buf →
      b.map.get k = some buf) ∧
    ((∃ reason, (b.push now key seq chunk last mime model fileName).2 = .rejected reason ∧
        (b.push now key seq chunk last mime model fileName).1.map.get key = none) ∨
      ∃ buf, b.Extends now key seq chunk mime model fileName buf ∧
        ((last = false ∧ (b.push now key seq chunk last mime model fileName).2 = .waiting ∧
            (b.push now key seq chunk last mime model fileName).1.map.get key = some buf) ∨
          last = true ∧ (b.push now key seq chunk last mime model fileName).2 = .ready buf ∧
            (b.push now key seq chunk last mime model fileName).1.map.get key = none)) := by
  have hremove : ∀ k, k ≠ key → ∀ buf, ((b.sweep now).remove key).map.get k = some buf → b.map.get k = some buf := by
    intro k hk buf h
    rw [get_remove, if_neg hk] at h
    exact (get_sweep.1 h).1
  have hnone : ((b.sweep now).remove key).map.get key = none := by rw [get_remove, if_pos rfl]
  unfold push
  simp only
  split
  · rename_i reason _
    exact ⟨hremove, .inl ⟨reason, rfl, hnone⟩⟩
  · rename_i existing hexisting
    split
    · exact ⟨hremove, .inl ⟨_, rfl, hnone⟩⟩
    · split
      · exact ⟨hremove, .inl ⟨_, rfl, hnone⟩⟩
      · have hother : ∀ k, k ≠ key → ∀ (buf buf' : SttBuffer) (total : Nat),
            (SttBuffers.mk ((b.sweep now).map.insert key buf) total).map.get k = some buf' → b.map.get k = some buf' := by
          intro k hk buf buf' total h
          rw [Table.get_insert_ne hk] at h
          exact (get_sweep.1 h).1
        have hextends : b.Extends now key seq chunk mime model fileName
            ((((b.sweep now).map.get key).getD ⟨false, mime, model, fileName, [], 0, now⟩).add seq chunk now) := by
          refine ⟨_, ?_, rfl⟩
          unfold existingLen at hexisting
          split at hexisting
          · rename_i old hold
            rw [hold]
            obtain ⟨hget, hfresh⟩ := get_sweep.1 hold
            split at hexisting
            · cases hexisting
            · rename_i hseq
              exact .inl ⟨hget, hfresh, not_not.1 hseq⟩
          · rename_i hold
            rw [hold]
            split at hexisting
            · cases hexisting
            · rename_i hseq
              exact .inr ⟨not_not.1 hseq, rfl⟩
        cases last with
        | true =>
          refine ⟨fun k hk buf h => ?_, .inr ⟨_, hextends, .inr ⟨rfl, rfl, ?_⟩⟩⟩
          · rw [if_pos rfl, get_remove, if_neg hk] at h
            exact hother k hk _ _ _ h
          · rw [if_pos rfl, get_remove, if_pos rfl]
        | false =>
          refine ⟨fun k hk buf h => hother k hk _ _ _ h, .inr ⟨_, hextends, .inl ⟨rfl, rfl, ?_⟩⟩⟩
          exact Table.get_insert_self _ _ _

end SttBuffers

/-! ## A turn -/

section Turns
variable {one : List Char → Bool} {decodeError : String → String}

theorem expired_eq_false {now : Nat} : SttBuffers.expired now buf = false ↔ now - buf.lastUpdate ≤ sttBufferTtl := by
  unfold SttBuffers.expired
  rw [decide_eq_false_iff_not, Nat.not_lt]

def SttBuffer.call (buf : SttBuffer) : SttCall := ⟨buf.bytes, buf.mime, buf.model, buf.fileName⟩

namespace VoiceRoom

/-- The buffer of a stream that a turn has put a chunk into: one that waited for it and lives, or a new one. -/
def Continues (s : VoiceRoom) (t : Turn) (key : String × String) (seq : Nat) (chunk : List UInt8) (mime : String)
    (model fileName : Option String) (buf : SttBuffer) : Prop :=
  ∃ old : SttBuffer, (s.buffers.map.get key = some old ∧ t.now - old.lastUpdate ≤ sttBufferTtl ∧
        t.pushed - old.lastUpdate ≤ sttBufferTtl ∧ old.nextSeq = seq ∨
      seq = 0 ∧ old = ⟨false, mime, model, fileName, [], 0, t.pushed⟩) ∧
    buf = old.add seq chunk t.pushed

/-- A turn that neither puts a chunk in a buffer nor makes a call; unless its peer is not granted, it leaves no buffer. -/
structure Quiet (s s' : VoiceRoom) (t : Turn) (key : String × String) : Prop where
  calls : s'.calls = s.calls
  jobs : s'.jobs = s.jobs
  buffer : ∀ buf, s'.buffers.map.get key = some buf → s.buffers.map.get key = some buf
  cleared : t.denied = none → s'.buffers.map.get key = none

/-- A turn that puts a chunk in a buffer: one that goes on waiting, or one that is full, for which a call is made if there
is a job. -/
structure Fills (s s' : VoiceRoom) (t : Turn) (key : String × String) (seq : Nat) (chunk : List UInt8) (last : Bool)
    (mime : String) (model fileName : Option String) (buf : SttBuffer) : Prop where
  continues : s.Continues t key seq chunk mime model fileName buf
  result : (last = false ∧ s'.calls = s.calls ∧ s'.jobs = s.jobs ∧ s'.buffers.map.get key = some { buf with authorized := true }) ∨
    last = true ∧ s'.buffers.map.get key = none ∧ ((s'.calls = s.calls ∧ s'.jobs = s.jobs) ∨
      s'.calls = s.calls ++ [(key, buf.call)] ∧ s'.jobs = (t.number, key.1) :: s.jobs)

structure Keeps (s s' : VoiceRoom) (key : String × String) : Prop where
  arrived : s'.arrived = s.arrived
  waiting : s'.waiting = s.waiting
  dropped : s'.dropped = s.dropped
  others : ∀ k, k ≠ key → ∀ buf, s'.buffers.map.get k = some buf → s.buffers.map.get k = some buf

variable {s : VoiceRoom} {t : Turn} {sender id data mime : String} {seq : Nat} {last : Bool} {model fileName : Option String}

theorem sweep_get {now : Nat} {k : String × String} (h : (s.buffers.sweep now).map.get k = some buf) :
    s.buffers.map.get k = some buf := (SttBuffers.get_sweep.1 h).1

theorem handleSttRequest_cases {s' : VoiceRoom}
    (h : s' = s.handleSttRequest decodeError t sender id seq data last mime model fileName) :
    s.Keeps s' (sender, id) ∧ (s.Quiet s' t (sender, id) ∨ ∃ chunk buf, Base64.decodeStd data.toList = some chunk ∧
      s.Fills s' t (sender, id) seq chunk last mime model fileName buf) := by
  unfold handleSttRequest at h
  simp only at h
  split at h
  · rename_i hdenied
    subst h
    refine ⟨⟨rfl, rfl, rfl, fun k _ buf h => sweep_get h⟩, .inl ⟨rfl, rfl, fun buf h => sweep_get h, fun hnone => ?_⟩⟩
    rw [hnone] at hdenied
    cases hdenied
  · split at h
    · subst h
      have hnone : ((s.buffers.sweep t.now).remove (sender, id)).map.get (sender, id) = none := by
        rw [SttBuffers.get_remove, if_pos rfl]
      refine ⟨⟨rfl, rfl, rfl, fun k hk buf h => ?_⟩, .inl ⟨rfl, rfl, fun buf h => ?_, fun _ => hnone⟩⟩
      · have h : ((s.buffers.sweep t.now).remove (sender, id)).map.get k = some buf := h
        rw [SttBuffers.get_remove, if_neg hk] at h
        exact sweep_get h
      · have h : ((s.buffers.sweep t.now).remove (sender, id)).map.get (sender, id) = some buf := h
        rw [hnone] at h
        cases h
    · rename_i chunk hchunk
      obtain ⟨hother, hown⟩ := @SttBuffers.push_cases (s.buffers.sweep t.now) t.pushed seq (sender, id) chunk last mime model
        fileName
      have hothers : ∀ k, k ≠ (sender, id) → ∀ buf,
          ((s.buffers.sweep t.now).push t.pushed (sender, id) seq chunk last mime model fileName).1.map.get k = some buf →
            s.buffers.map.get k = some buf := fun k hk buf h => sweep_get (hother k hk buf h)
      have hcontinues : ∀ buf, (s.buffers.sweep t.now).Extends t.pushed (sender, id) seq chunk mime model fileName buf →
          s.Continues t (sender, id) seq chunk mime model fileName buf := by
        rintro buf ⟨old, hold, rfl⟩
        refine ⟨old, hold.imp_left (fun h => ?_), rfl⟩
        obtain ⟨hget, hpushed, hseq⟩ := h
        obtain ⟨hget, hnow⟩ := SttBuffers.get_sweep.1 hget
        exact ⟨hget, expired_eq_false.1 hnow, expired_eq_false.1 hpushed, hseq⟩
      rcases hpush : (s.buffers.sweep t.now).push t.pushed (sender, id) seq chunk last mime model fileName with
        ⟨buffers, outcome⟩
      rw [hpush] at h hown hothers
      rcases hown with ⟨reason, rfl, hnone⟩ | ⟨buf, hextends, ⟨hlast, rfl, hget⟩ | ⟨hlast, rfl, hnone⟩⟩
      · subst h
        refine ⟨⟨rfl, rfl, rfl, hothers⟩, .inl ⟨rfl, rfl, fun buf h => ?_, fun _ => hnone⟩⟩
        have h : buffers.map.get (sender, id) = some buf := h
        rw [hnone] at h
        cases h
      · subst h
        refine ⟨⟨rfl, rfl, rfl, fun k hk buf' h => ?_⟩, .inr ⟨chunk, buf, hchunk, hcontinues buf hextends, .inl ⟨hlast, rfl, rfl, ?_⟩⟩⟩
        · rw [SttBuffers.get_authorize, if_neg hk] at h
          exact hothers k hk buf' h
        · rw [SttBuffers.get_authorize, if_pos rfl, hget]
          rfl
      · simp only at h
        split at h
        · subst h
          exact ⟨⟨rfl, rfl, rfl, hothers⟩, .inr ⟨chunk, buf, hchunk, hcontinues buf hextends, .inr ⟨hlast, hnone, .inr ⟨rfl, rfl⟩⟩⟩⟩
        · subst h
          exact ⟨⟨rfl, rfl, rfl, hothers⟩, .inr ⟨chunk, buf, hchunk, hcontinues buf hextends, .inr ⟨hlast, hnone, .inl ⟨rfl, rfl⟩⟩⟩⟩

end VoiceRoom

/-! ## What is transcribed -/

/-- The upload of an audio: its peer, its id and its chunks. -/
structure Upload where
  peer : String
  id : String
  req : SttParams

namespace Upload
variable (u : Upload)

def key : String × String := (u.peer, u.id)

def pieces : List (List UInt8) := sttPieces u.req.audio

def messages : List ProtocolMessage := sttRequests u.id u.req 0 u.pieces

def call : SttCall := ⟨u.req.audio, u.req.mime, sttModel u.req, u.req.fileName⟩

def IsChunk (i : Nat) (msg : ProtocolMessage) : Prop :=
  ∃ piece, u.pieces[i]? = some piece ∧ msg = .sttRequest u.id i (String.ofList (Base64.encodeStd piece))
    (decide (i + 1 = u.pieces.length)) u.req.mime (sttModel u.req) u.req.fileName

variable {u}

variable {msg : ProtocolMessage}

theorem getElem?_messages {i : Nat} : u.messages[i]? = some msg ↔ u.IsChunk i msg := by
  unfold messages
  rw [getElem?_sttRequests, map_eq_some_iff, Nat.zero_add]
  exact exists_congr (fun piece => and_congr_right (fun _ => eq_comm))

theorem mem_messages : msg ∈ u.messages ↔ ∃ i, u.IsChunk i msg := by
  rw [mem_iff_getElem?]
  exact exists_congr fun i => getElem?_messages

structure Holds (u : Upload) (buf : SttBuffer) : Prop where
  below : buf.nextSeq < u.pieces.length
  bytes : buf.bytes = (u.pieces.take buf.nextSeq).flatten
  mime : buf.mime = u.req.mime
  model : buf.model = sttModel u.req
  fileName : buf.fileName = u.req.fileName

theorem Holds.extend {s : VoiceRoom} {t : Turn} {i : Nat} {piece : List UInt8} (hcount : u.pieces.length < 2 ^ 63)
    (hbuffer : ∀ buf, s.buffers.map.get u.key = some buf → u.Holds buf) (hpiece : u.pieces[i]? = some piece)
    (h : s.Continues t u.key i piece u.req.mime (sttModel u.req) u.req.fileName buf) :
    (i + 1 < u.pieces.length → u.Holds buf) ∧ (i + 1 = u.pieces.length → buf.call = u.call) := by
  have hi : i < u.pieces.length := (List.getElem?_eq_some_iff.1 hpiece).1
  have hnext : min (i + 1) (2 ^ 64 - 1) = i + 1 := by omega
  have htake : (u.pieces.take (i + 1)).flatten = (u.pieces.take i).flatten ++ piece := by
    rw [take_add_one, hpiece]
    simp
  obtain ⟨old, hold, rfl⟩ := h
  have hstart : old.bytes = (u.pieces.take i).flatten ∧ old.mime = u.req.mime ∧ old.model = sttModel u.req ∧
      old.fileName = u.req.fileName := by
    rcases hold with ⟨hget, -, -, rfl⟩ | ⟨rfl, rfl⟩
    · obtain ⟨-, hbytes, hmime, hmodel, hfile⟩ := hbuffer old hget
      exact ⟨hbytes, hmime, hmodel, hfile⟩
    · exact ⟨by rfl, rfl, rfl, rfl⟩
  obtain ⟨hbytes, hmime, hmodel, hfile⟩ := hstart
  refine ⟨fun hlt => ⟨?_, ?_, hmime, hmodel, hfile⟩, fun heq => ?_⟩
  · show min (i + 1) (2 ^ 64 - 1) < _
    rw [hnext]
    exact hlt
  · show old.bytes ++ piece = (u.pieces.take (min (i + 1) (2 ^ 64 - 1))).flatten
    rw [hnext, htake, hbytes]
  · have haudio : old.bytes ++ piece = u.req.audio := by
      rw [hbytes, ← htake, heq, take_length]
      exact (sttPieces_spec u.req.audio).1
    show SttCall.mk (old.bytes ++ piece) old.mime old.model old.fileName = u.call
    rw [haudio, hmime, hmodel, hfile]
    rfl

/-- A room in which nothing but the upload's chunks comes from its peer under its id: what is buffered and called for it is
the upload's. -/
structure Faithful (u : Upload) (s : VoiceRoom) : Prop where
  waiting : ∀ w ∈ s.waiting, w.sender = u.peer → ∀ seq data last mime model fileName,
    w.msg = .sttRequest u.id seq data last mime model fileName → w.msg ∈ u.messages
  buffer : ∀ buf, s.buffers.map.get u.key = some buf → u.Holds buf
  calls : ∀ call ∈ s.calls, call.1 = u.key → call.2 = u.call

theorem start_faithful : u.Faithful VoiceRoom.start where
  waiting := fun _ h => (not_mem_nil h).elim
  buffer := nofun
  calls := fun _ h => (not_mem_nil h).elim

theorem Faithful.turn {s s' : VoiceRoom} {t : Turn} {number : Nat} {sender : String}
    (hcount : u.pieces.length < 2 ^ 63) (h : u.Faithful s)
    (hmsg : sender = u.peer → ∀ seq data last mime model fileName,
      msg = .sttRequest u.id seq data last mime model fileName → msg ∈ u.messages)
    (hs' : s' = s.handleMessage decodeError t ⟨number, sender, msg⟩) : u.Faithful s' := by
  unfold VoiceRoom.handleMessage at hs'
  simp only at hs'
  split at hs'
  · rename_i id seq data last mime model fileName
    obtain ⟨hkeeps, hcases⟩ := VoiceRoom.handleSttRequest_cases hs'
    have hwaiting : ∀ w ∈ s'.waiting, w.sender = u.peer → ∀ seq data last mime model fileName,
        w.msg = .sttRequest u.id seq data last mime model fileName → w.msg ∈ u.messages := by
      rw [hkeeps.waiting]
      exact h.waiting
    by_cases hkey : (sender, id) = u.key
    · obtain ⟨rfl, rfl⟩ := Prod.mk.inj hkey
      obtain ⟨i, piece, hpiece, hchunk⟩ := mem_messages.1 (hmsg rfl _ _ _ _ _ _ rfl)
      cases hchunk
      rcases hcases with hquiet | ⟨chunk, buf, hdecode, hfills⟩
      · exact ⟨hwaiting, fun buf hget => h.buffer buf (hquiet.buffer buf hget), by rw [hquiet.calls]; exact h.calls⟩
      · rw [String.toList_ofList, Base64.decodeStd_encodeStd] at hdecode
        cases hdecode
        obtain ⟨hlt, heq⟩ := Holds.extend hcount h.buffer hpiece hfills.continues
        have hi : seq < u.pieces.length := (List.getElem?_eq_some_iff.1 hpiece).1
        rcases hfills.result with ⟨hlast, hcalls, -, hget⟩ | ⟨hlast, hnone, ⟨hcalls, -⟩ | ⟨hcalls, -⟩⟩
        · have hholds := hlt (by have := of_decide_eq_false hlast; omega)
          refine ⟨hwaiting, fun buf' hget' => ?_, by rw [hcalls]; exact h.calls⟩
          have hget' : s'.buffers.map.get (u.peer, u.id) = some buf' := hget'
          rw [hget] at hget'
          cases hget'
          exact ⟨hholds.below, hholds.bytes, hholds.mime, hholds.model, hholds.fileName⟩
        · refine ⟨hwaiting, fun buf' hget' => ?_, by rw [hcalls]; exact h.calls⟩
          have hget' : s'.buffers.map.get (u.peer, u.id) = some buf' := hget'
          rw [hnone] at hget'
          cases hget'
        · refine ⟨hwaiting, fun buf' hget' => ?_, fun call hcall hck => ?_⟩
          · have hget' : s'.buffers.map.get (u.peer, u.id) = some buf' := hget'
            rw [hnone] at hget'
            cases hget'
          · rw [hcalls] at hcall
            rcases mem_append.1 hcall with hcall | hcall
            · exact h.calls call hcall hck
            · rw [mem_singleton.1 hcall]
              exact heq (of_decide_eq_true hlast)
    · refine ⟨hwaiting, fun buf hget => h.buffer buf (hkeeps.others _ (Ne.symm hkey) buf hget), fun call hcall hck => ?_⟩
      rcases hcases with hquiet | ⟨chunk, buf, -, hfills⟩
      · rw [hquiet.calls] at hcall
        exact h.calls call hcall hck
      · rcases hfills.result with ⟨-, hcalls, -⟩ | ⟨-, -, ⟨hcalls, -⟩ | ⟨hcalls, -⟩⟩
        · rw [hcalls] at hcall
          exact h.calls call hcall hck
        · rw [hcalls] at hcall
          exact h.calls call hcall hck
        · rw [hcalls] at hcall
          rcases mem_append.1 hcall with hcall | hcall
          · exact h.calls call hcall hck
          · rw [mem_singleton.1 hcall] at hck
            exact absurd hck hkey
  · subst hs'
    exact h

theorem Faithful.step {s s' : VoiceRoom} {act : Act} (hcount : u.pieces.length < 2 ^ 63) (h : u.Faithful s)
    (hdeliver : ∀ bytes msg, act = .deliver u.peer bytes → decode one bytes = some msg →
      ∀ seq data last mime model fileName, msg = .sttRequest u.id seq data last mime model fileName → msg ∈ u.messages)
    (hs' : s.step one decodeError act = some s') : u.Faithful s' := by
  cases act with
  | deliver sender bytes =>
    cases hs'
    unfold VoiceRoom.handleRoomEvent
    split
    · exact ⟨h.waiting, h.buffer, h.calls⟩
    · split
      · exact ⟨h.waiting, h.buffer, h.calls⟩
      · rename_i msg hmsg
        split
        · refine ⟨fun w hw hsender => ?_, h.buffer, h.calls⟩
          rcases mem_append.1 hw with hw | hw
          · exact h.waiting w hw hsender
          · rw [mem_singleton.1 hw] at hsender ⊢
            have hsender : sender = u.peer := hsender
            exact hdeliver bytes msg (by rw [hsender]) hmsg
        · exact ⟨h.waiting, h.buffer, h.calls⟩
  | turn t =>
    obtain ⟨task, htask, rfl⟩ := map_eq_some_iff.1 hs'
    refine Faithful.turn (s := { s with
      waiting := s.waiting.filter (fun task => task.number != t.number)
      running := t.number :: s.running }) hcount
      ⟨fun w hw => h.waiting w (mem_filter.1 hw).1, h.buffer, h.calls⟩ ?_ rfl
    exact h.waiting task (mem_of_find?_eq_some htask)
  | finish number =>
    simp only [VoiceRoom.step] at hs'
    split at hs'
    · cases hs'
      exact ⟨h.waiting, h.buffer, h.calls⟩
    · cases hs'

theorem Faithful.run (hcount : u.pieces.length < 2 ^ 63) : ∀ {acts : List Act} {s s' : VoiceRoom}, u.Faithful s →
    (∀ bytes msg, .deliver u.peer bytes ∈ acts → decode one bytes = some msg →
      ∀ seq data last mime model fileName, msg = .sttRequest u.id seq data last mime model fileName → msg ∈ u.messages) →
    s.run one decodeError acts = some s' → u.Faithful s'
  | [], _, _, h, _, hs' => by cases hs'; exact h
  | act :: acts, s, s', h, hdeliver, hs' => by
    obtain ⟨s₁, hstep, hrun⟩ := bind_eq_some_iff.1 hs'
    refine Faithful.run hcount (h.step hcount (fun bytes msg hact => ?_) hstep)
      (fun bytes msg hmem => hdeliver bytes msg (mem_cons_of_mem _ hmem)) hrun
    exact hdeliver bytes msg (hact ▸ mem_cons_self)

end Upload
end Turns

/-! ## A room with one buffer at most -/

namespace SttBuffers

/-- Buffers of which `key` has `o`, and no other has one. -/
structure Only (key : String × String) (o : Option SttBuffer) (b : SttBuffers) : Prop where
  get : ∀ k, b.map.get k = if k = key then o else none
  total : b.totalBytes = o.elim 0 fun buf => buf.bytes.length

variable {b : SttBuffers} {key : String × String} {o : Option SttBuffer} {now : Nat}

theorem Only.sweep (h : b.Only key o) (hfresh : ∀ buf, o = some buf → expired now buf = false) : (b.sweep now).Only key o where
  get := fun k => by
    show (b.map.filter _).get k = _
    rw [Table.get_filter, h.get k]
    split
    · cases o with
      | none => rfl
      | some buf =>
        rw [filter_some]
        rw [hfresh buf rfl]
        rfl
    · rfl
  total := by
    have hnone : b.map.filter (fun _ buf => expired now buf) = ∅ := by
      rw [Table.eq_empty_iff]
      intro k
      rw [Table.get_filter, h.get k]
      split
      · cases o with
        | none => rfl
        | some buf =>
          rw [filter_some, if_neg]
          rw [hfresh buf rfl]
          exact Bool.false_ne_true
      · rfl
    show b.totalBytes - Table.total _ (b.map.filter _) = _
    rw [hnone, Table.total_empty, Nat.sub_zero, h.total]

theorem Only.remove (h : b.Only key (some buf)) : (b.remove key).Only key none where
  get := fun k => by
    rw [get_remove, h.get k]
    split <;> rfl
  total := by
    unfold SttBuffers.remove
    rw [h.get key, if_pos rfl]
    rw [h.total]
    exact Nat.sub_self _

theorem Only.authorize (h : b.Only key (some buf)) : (b.authorize key).Only key (some { buf with authorized := true }) where
  get := fun k => by
    rw [get_authorize, h.get key, if_pos rfl]
    split
    · rfl
    · rename_i hk
      rw [h.get k, if_neg hk]
  total := by
    unfold SttBuffers.authorize
    rw [h.get key, if_pos rfl]
    exact h.total

/-- **A push is not refused where no other stream is buffered**, when it brings the next chunk in time and the stream is not
too large. -/
theorem Only.push {seq : Nat} {chunk : List UInt8} {last : Bool} {mime : String} {model fileName : Option String}
    (h : b.Only key o) (hnext : ∀ buf, o = some buf → expired now buf = false ∧ buf.nextSeq = seq)
    (hfirst : o = none → seq = 0) (hsize : o.elim 0 (fun buf => buf.bytes.length) + chunk.length ≤ sttMaxBufferedBytes) :
    ∃ b', b.push now key seq chunk last mime model fileName =
        (b', if last then .ready ((o.getD ⟨false, mime, model, fileName, [], 0, now⟩).add seq chunk now) else .waiting) ∧
      SttBuffers.Only key
        (if last then none else some ((o.getD ⟨false, mime, model, fileName, [], 0, now⟩).add seq chunk now)) b' := by
  have hs : (b.sweep now).Only key o := h.sweep (fun buf hbuf => (hnext buf hbuf).1)
  have hget : (b.sweep now).map.get key = o := by rw [hs.get, if_pos rfl]
  have hexisting : (b.sweep now).existingLen key seq = .ok (o.elim 0 (fun buf => buf.bytes.length)) := by
    unfold existingLen
    rw [hget]
    cases o with
    | some buf =>
      simp only
      rw [if_neg (not_not.2 (hnext buf rfl).2)]
      rfl
    | none =>
      have hempty : (b.sweep now).map = ∅ := by
        rw [Table.eq_empty_iff]
        intro k
        rw [hs.get]
        split <;> rfl
      have hroom : ¬ (sttMaxBuffersTotal ≤ (∅ : Table (String × String) SttBuffer).size ∨
          sttMaxBuffersPerPeer ≤ ((∅ : Table (String × String) SttBuffer).filter (fun k _ => k.1 == key.1)).size) :=
        show ¬ (sttMaxBuffersTotal ≤ 0 ∨ sttMaxBuffersPerPeer ≤ 0) by decide
      rw [if_neg (not_not.2 (hfirst rfl)), hempty]
      rfl
  have htotal : (b.sweep now).totalBytes = o.elim 0 (fun buf => buf.bytes.length) := hs.total
  have honly : SttBuffers.Only key (some ((o.getD ⟨false, mime, model, fileName, [], 0, now⟩).add seq chunk now))
      ⟨(b.sweep now).map.insert key ((o.getD ⟨false, mime, model, fileName, [], 0, now⟩).add seq chunk now),
        (b.sweep now).totalBytes + chunk.length⟩ := by
    refine ⟨fun k => ?_, ?_⟩
    · rw [Table.get_insert]
      split
      · rfl
      · rename_i hk
        rw [hs.get k, if_neg hk]
    · show (b.sweep now).totalBytes + chunk.length = (_ ++ chunk).length
      rw [htotal, length_append]
      cases o <;> rfl
  cases last with
  | true =>
    refine ⟨_, ?_, honly.remove⟩
    unfold SttBuffers.push
    simp only
    rw [hexisting, hget]
    simp only
    rw [if_neg (by omega), if_neg (by unfold sttMaxBufferedBytes at hsize; unfold sttMaxTotalBytes; omega)]
    rfl
  | false =>
    refine ⟨_, ?_, honly⟩
    unfold SttBuffers.push
    simp only
    rw [hexisting, hget]
    simp only
    rw [if_neg (by omega), if_neg (by unfold sttMaxBufferedBytes at hsize; unfold sttMaxTotalBytes; omega)]
    rfl

end SttBuffers

end Mistl.Ai
