import Mathlib.Data.List.Range
import Mistl.AiUploads
/-!
# AiTurns — which turns transcribe an upload

The tasks of an upload's chunks have one turn each, in whatever order.  The upload is transcribed exactly when that is the
order of the chunks, none more than a buffer's lifetime after the one before.
-/
open List Mistl.Json Option

namespace Mistl.Ai

open Api (SttParams)

/-! ## Turns in order -/

def Prompt (a b : Turn) : Prop := b.now - a.pushed ≤ sttBufferTtl ∧ b.pushed - a.pushed ≤ sttBufferTtl

/-- The turns of the first `n` tasks, in their order and each in time. -/
structure InOrder (n : Nat) (turns : List Turn) : Prop where
  numbers : turns.map Turn.number = List.range n
  prompt : turns.IsChain Prompt

theorem InOrder.length {n : Nat} {turns : List Turn} (h : InOrder n turns) : turns.length = n := by
  rw [← length_map Turn.number, h.numbers, length_range]

theorem inOrder_nil : InOrder 0 [] := ⟨rfl, .nil⟩

theorem inOrder_snoc {n : Nat} {turns : List Turn} {t : Turn} : InOrder (n + 1) (turns ++ [t]) ↔
    InOrder n turns ∧ t.number = n ∧ ∀ l ∈ turns.getLast?, Prompt l t := by
  constructor
  · rintro ⟨hnumbers, hprompt⟩
    rw [map_append, range_succ] at hnumbers
    obtain ⟨hinit, hlast⟩ := append_inj' hnumbers rfl
    obtain ⟨hchain, -, hlink⟩ := isChain_append.1 hprompt
    exact ⟨⟨hinit, hchain⟩, (cons.inj hlast).1, fun l hl => hlink l hl t rfl⟩
  · rintro ⟨⟨hnumbers, hprompt⟩, hnumber, hlink⟩
    refine ⟨?_, isChain_append.2 ⟨hprompt, isChain_singleton t, fun l hl x hx => ?_⟩⟩
    · rw [map_append, hnumbers, range_succ, map_singleton, hnumber]
    · cases hx
      exact hlink l hl

def turnsOf : List Act → List Turn
  | [] => []
  | .turn t :: acts => t :: turnsOf acts
  | _ :: acts => turnsOf acts

def deliveries : List Act → List (String × List UInt8)
  | [] => []
  | .deliver sender bytes :: acts => (sender, bytes) :: deliveries acts
  | _ :: acts => deliveries acts

/-! ## The turns of one upload -/

namespace Upload
variable {one : List Char → Bool} {decodeError : String → String} {u : Upload}

/-- The room while the turns so far are the first chunks' in order: one buffer, which holds them. -/
structure Begun (u : Upload) (s : VoiceRoom) (ran : List Turn) (o : Option SttBuffer) : Prop where
  only : s.buffers.Only u.key o
  buffer : ∀ buf, o = some buf → buf.nextSeq = ran.length ∧ ran.getLast?.map Turn.pushed = some buf.lastUpdate
  fresh : o = none → ran = []
  calls : s.calls = []
  jobs : s.jobs = []

/-- A room to which only the upload's chunks come, after the turns `ran`. -/
structure Tracks (u : Upload) (s : VoiceRoom) (ran : List Turn) : Prop where
  faithful : u.Faithful s
  waiting : ∀ w ∈ s.waiting, w.sender = u.peer ∧ u.IsChunk w.number w.msg ∧ w.number < s.arrived ∧ w.number ∉ ran.map Turn.number
  below : ∀ k ∈ ran.map Turn.number, k < s.arrived ∧ k < u.pieces.length
  once : (ran.map Turn.number).Nodup
  buffer : ∀ buf, s.buffers.map.get u.key = some buf → ∃ pre tail l, ran = pre ++ (tail ++ [l]) ∧
    InOrder buf.nextSeq (tail ++ [l]) ∧ l.pushed = buf.lastUpdate
  calls : s.calls ≠ [] → ∃ pre tail post, ran = pre ++ (tail ++ post) ∧ InOrder u.pieces.length tail
  ordered : InOrder ran.length ran → (ran.length < u.pieces.length → ∃ o, u.Begun s ran o) ∧
    (ran.length = u.pieces.length → s.calls = [(u.key, u.call)])

theorem pieces_pos : 0 < u.pieces.length := length_pos_of_ne_nil (sttPieces_spec u.req.audio).2.1

theorem start_tracks : u.Tracks VoiceRoom.start [] where
  faithful := start_faithful
  waiting := fun _ h => (not_mem_nil h).elim
  below := fun _ h => (not_mem_nil h).elim
  once := nodup_nil
  buffer := nofun
  calls := fun h => absurd rfl h
  ordered := fun _ => ⟨fun _ => ⟨none, ⟨fun k => by split <;> rfl, rfl⟩, fun _ h => (by cases h), fun _ => rfl, rfl, rfl⟩,
    fun h => absurd h (Nat.ne_of_lt pieces_pos)⟩

variable {ran : List Turn}

theorem Tracks.filled {s : VoiceRoom} {t : Turn} {chunk : List UInt8} {mime : String}
    {model fileName : Option String} {buf : SttBuffer} (hcount : u.pieces.length < 2 ^ 63)
    (h : ∀ buf, s.buffers.map.get u.key = some buf → ∃ pre tail l, ran = pre ++ (tail ++ [l]) ∧
      InOrder buf.nextSeq (tail ++ [l]) ∧ l.pushed = buf.lastUpdate)
    (hnumber : t.number < u.pieces.length)
    (hbuf : s.Continues t u.key t.number chunk mime model fileName buf) : ∃ pre tail, ran ++ [t] = pre ++ (tail ++ [t]) ∧
      InOrder (t.number + 1) (tail ++ [t]) ∧ buf.nextSeq = t.number + 1 ∧ buf.lastUpdate = t.pushed := by
  obtain ⟨old, hold, rfl⟩ := hbuf
  have hnext : min (t.number + 1) (2 ^ 64 - 1) = t.number + 1 := by omega
  rcases hold with ⟨hget, hnow, hpushed, hseq⟩ | ⟨hzero, rfl⟩
  · obtain ⟨pre, tail, l, rfl, horder, hlast⟩ := h old hget
    refine ⟨pre, tail ++ [l], by rw [append_assoc], inOrder_snoc.2 ⟨hseq ▸ horder, rfl, fun l' hl' => ?_⟩, hnext, rfl⟩
    rw [getLast?_concat] at hl'
    cases hl'
    unfold Prompt
    rw [hlast]
    exact ⟨hnow, hpushed⟩
  · refine ⟨ran, [], rfl, ?_, hnext, rfl⟩
    rw [hzero]
    exact inOrder_snoc.2 ⟨inOrder_nil, hzero, nofun⟩

theorem length_pieces {i : Nat} {piece : List UInt8} (hpiece : u.pieces[i]? = some piece) :
    (u.pieces.take i).flatten.length + piece.length ≤ u.req.audio.length := by
  have htake : (u.pieces.take (i + 1)).flatten = (u.pieces.take i).flatten ++ piece := by
    rw [take_add_one, hpiece]
    simp
  rw [← length_append, ← htake]
  conv_rhs => rw [← (sttPieces_spec u.req.audio).1]
  show _ ≤ u.pieces.flatten.length
  rw [← take_append_drop (i + 1) u.pieces, flatten_append, length_append, take_append_drop]
  exact Nat.le_add_right _ _

variable {s s' : VoiceRoom}

section

variable (hcount : u.pieces.length < 2 ^ 63)

include hcount

/-- **The next chunk's turn, in time, goes on with the buffer, and makes the call with the last chunk.** -/
theorem Begun.turn {t : Turn} {o : Option SttBuffer} {piece : List UInt8}
    (hsize : u.req.audio.length ≤ maxSttAudio) (hf : u.Faithful s) (h : u.Begun s ran o)
    (hnumber : t.number = ran.length) (hpiece : u.pieces[t.number]? = some piece)
    (hprompt : ∀ l ∈ ran.getLast?, Prompt l t) (hdenied : t.denied = none)
    (hs' : s' = s.handleSttRequest decodeError t u.peer u.id t.number (String.ofList (Base64.encodeStd piece))
      (decide (t.number + 1 = u.pieces.length)) u.req.mime (sttModel u.req) u.req.fileName) :
    (t.number + 1 < u.pieces.length → ∃ o', u.Begun s' (ran ++ [t]) o') ∧
      (t.number + 1 = u.pieces.length → s'.calls = [(u.key, u.call)]) := by
  have hget : s.buffers.map.get u.key = o := by rw [h.only.get, if_pos rfl]
  have hlive : ∀ buf, o = some buf → t.now - buf.lastUpdate ≤ sttBufferTtl ∧ t.pushed - buf.lastUpdate ≤ sttBufferTtl := by
    intro buf hbuf
    obtain ⟨l, hl, hlast⟩ := map_eq_some_iff.1 (h.buffer buf hbuf).2
    have := hprompt l hl
    unfold Prompt at this
    rwa [hlast] at this
  have hnextSeq : ∀ buf, o = some buf → buf.nextSeq = t.number := fun buf hbuf => by rw [(h.buffer buf hbuf).1, hnumber]
  have hfirst : o = none → t.number = 0 := fun ho => by rw [hnumber, h.fresh ho]; rfl
  have hbytes : o.elim 0 (fun buf => buf.bytes.length) + piece.length ≤ sttMaxBufferedBytes := by
    have hle := length_pieces hpiece
    refine Nat.le_trans ?_ hsize
    cases o with
    | none =>
      rw [hfirst rfl] at hle
      exact hle
    | some buf =>
      have hholds := (hf.buffer buf hget).bytes
      rw [hnextSeq buf rfl] at hholds
      show buf.bytes.length + _ ≤ _
      rw [hholds]
      exact hle
  have hsweep : (s.buffers.sweep t.now).Only u.key o := h.only.sweep (fun buf hbuf => expired_eq_false.2 (hlive buf hbuf).1)
  obtain ⟨b', hpush, honly⟩ := @SttBuffers.Only.push _ _ _ t.pushed _ _ (decide (t.number + 1 = u.pieces.length)) u.req.mime
    (sttModel u.req) u.req.fileName hsweep
    (fun buf hbuf => ⟨expired_eq_false.2 (hlive buf hbuf).2, hnextSeq buf hbuf⟩) hfirst hbytes
  have hcontinues : s.Continues t u.key t.number piece u.req.mime (sttModel u.req) u.req.fileName
      ((o.getD ⟨false, u.req.mime, sttModel u.req, u.req.fileName, [], 0, t.pushed⟩).add t.number piece t.pushed) := by
    refine ⟨_, ?_, rfl⟩
    cases o with
    | none => exact .inr ⟨hfirst rfl, rfl⟩
    | some buf => exact .inl ⟨hget, (hlive buf rfl).1, (hlive buf rfl).2, hnextSeq buf rfl⟩
  obtain ⟨-, hcall⟩ := Holds.extend hcount hf.buffer hpiece hcontinues
  unfold VoiceRoom.handleSttRequest at hs'
  simp only [hdenied, String.toList_ofList, Base64.decodeStd_encodeStd] at hs'
  constructor
  · intro hlt
    have hlast : decide (t.number + 1 = u.pieces.length) = false := decide_eq_false (Nat.ne_of_lt hlt)
    rw [hlast] at hpush
    rw [hlast] at honly
    rw [hlast, show (u.peer, u.id) = u.key from rfl, hpush] at hs'
    subst hs'
    refine ⟨_, honly.authorize, fun buf hbuf => ?_, fun hnone => (by cases hnone), h.calls, h.jobs⟩
    cases hbuf
    refine ⟨?_, by rw [getLast?_concat]; rfl⟩
    show min (t.number + 1) (2 ^ 64 - 1) = (ran ++ [t]).length
    rw [length_append, length_singleton]
    omega
  · intro heq
    have hlast : decide (t.number + 1 = u.pieces.length) = true := decide_eq_true heq
    rw [hlast, if_pos rfl] at hpush
    rw [hlast, show (u.peer, u.id) = u.key from rfl, hpush] at hs'
    simp only at hs'
    rw [if_pos (by rw [h.jobs]; rfl)] at hs'
    subst hs'
    rw [h.calls, ← hcall heq]
    rfl

theorem Tracks.turn {t : Turn}
    (hsize : u.req.audio.length ≤ maxSttAudio) (h : u.Tracks s ran) (hdenied : t.denied = none)
    (hs' : s.step one decodeError (.turn t) = some s') : u.Tracks s' (ran ++ [t]) := by
  have hfaithful : u.Faithful s' := h.faithful.step hcount (fun _ _ hact => by cases hact) hs'
  obtain ⟨task, hfind, hs'⟩ := map_eq_some_iff.1 hs'
  have hnumber : (task.number == t.number) = true := @find?_some _ (fun task : Task => task.number == t.number) _ _ hfind
  rw [beq_iff_eq] at hnumber
  obtain ⟨hsender, ⟨piece, hpiece, hmsg⟩, hbelow, hfresh⟩ := h.waiting task (mem_of_find?_eq_some hfind)
  rw [hnumber] at hpiece hmsg hbelow hfresh
  have hlt : t.number < u.pieces.length := (List.getElem?_eq_some_iff.1 hpiece).1
  -- The room as the handler finds it differs from `s` in its tasks only.
  let s₁ : VoiceRoom := { s with
    waiting := s.waiting.filter (fun task => task.number != t.number)
    running := t.number :: s.running }
  have hhandle : s' = s₁.handleSttRequest decodeError t u.peer u.id t.number (String.ofList (Base64.encodeStd piece))
      (decide (t.number + 1 = u.pieces.length)) u.req.mime (sttModel u.req) u.req.fileName := by
    rw [← hs']
    unfold VoiceRoom.handleMessage
    rw [hmsg, hsender]
  obtain ⟨hkeeps, hcases⟩ := VoiceRoom.handleSttRequest_cases hhandle
  have hcontinues : ∀ chunk buf, Base64.decodeStd (String.ofList (Base64.encodeStd piece)).toList = some chunk →
      s₁.Continues t u.key t.number chunk u.req.mime (sttModel u.req) u.req.fileName buf →
      ∃ pre tail, ran ++ [t] = pre ++ (tail ++ [t]) ∧ InOrder (t.number + 1) (tail ++ [t]) ∧ buf.nextSeq = t.number + 1 ∧
        buf.lastUpdate = t.pushed := fun chunk buf _ hbuf => Tracks.filled (s := s₁) hcount h.buffer hlt hbuf
  refine ⟨hfaithful, fun w hw => ?_, fun k hk => ?_, ?_, fun buf hget => ?_, fun hcalls => ?_, fun horder => ?_⟩
  · rw [hkeeps.waiting] at hw
    obtain ⟨hw, hne⟩ := mem_filter.1 hw
    obtain ⟨h1, h2, h3, h4⟩ := h.waiting w hw
    refine ⟨h1, h2, by rw [hkeeps.arrived]; exact h3, ?_⟩
    rw [map_append, mem_append, not_or]
    exact ⟨h4, fun hmem => (bne_iff_ne.1 hne) (mem_singleton.1 hmem)⟩
  · rw [map_append] at hk
    rw [hkeeps.arrived]
    rcases mem_append.1 hk with hk | hk
    · exact h.below k hk
    · rw [mem_singleton.1 hk]
      exact ⟨hbelow, hlt⟩
  · rw [map_append]
    exact nodup_append.2 ⟨h.once, nodup_singleton _, fun a ha b hb hab => hfresh (by rw [mem_singleton.1 hb] at hab; exact hab ▸ ha)⟩
  · have hget : s'.buffers.map.get (u.peer, u.id) = some buf := hget
    rcases hcases with hquiet | ⟨chunk, buf', hdecode, hfills⟩
    · rw [hquiet.cleared hdenied] at hget
      cases hget
    · obtain ⟨pre, tail, hran, hinorder, hseq, hlast⟩ := hcontinues chunk buf' hdecode hfills.continues
      rcases hfills.result with ⟨-, -, -, hbuf⟩ | ⟨-, hnone, -⟩
      · rw [hbuf] at hget
        cases hget
        exact ⟨pre, tail, t, hran, by rw [show ({ buf' with authorized := true } : SttBuffer).nextSeq = _ from hseq]; exact hinorder,
          hlast.symm⟩
      · rw [hnone] at hget
        cases hget
  · have hkept : s'.calls = s.calls → ∃ pre tail post, ran ++ [t] = pre ++ (tail ++ post) ∧ InOrder u.pieces.length tail := by
      intro hsame
      rw [hsame] at hcalls
      obtain ⟨pre, tail, post, hran, hinorder⟩ := h.calls hcalls
      exact ⟨pre, tail, post ++ [t], by rw [hran, append_assoc, append_assoc], hinorder⟩
    rcases hcases with hquiet | ⟨chunk, buf', hdecode, hfills⟩
    · exact hkept hquiet.calls
    · rcases hfills.result with ⟨-, hsame, -⟩ | ⟨hlast, -, ⟨hsame, -⟩ | -⟩
      · exact hkept hsame
      · exact hkept hsame
      · obtain ⟨pre, tail, hran, hinorder, -⟩ := hcontinues chunk buf' hdecode hfills.continues
        rw [of_decide_eq_true hlast] at hinorder
        exact ⟨pre, tail ++ [t], [], by rw [hran, append_nil], hinorder⟩
  · rw [length_append] at horder ⊢
    obtain ⟨hbefore, hnext, hprompt⟩ := inOrder_snoc.1 horder
    obtain ⟨o, hbegun⟩ := (h.ordered hbefore).1 (hnext ▸ hlt)
    rw [← hnext]
    exact Begun.turn (s := s₁) hcount hsize ⟨fun w hw => h.faithful.waiting w (mem_filter.1 hw).1, h.faithful.buffer,
      h.faithful.calls⟩ ⟨hbegun.only, hbegun.buffer, hbegun.fresh, hbegun.calls, hbegun.jobs⟩ hnext hpiece hprompt hdenied hhandle

theorem Tracks.finish {number : Nat}
    (h : u.Tracks s ran) (hs' : s.step one decodeError (.finish number) = some s') : u.Tracks s' ran := by
  have hfaithful : u.Faithful s' := h.faithful.step hcount (fun _ _ hact => by cases hact) hs'
  simp only [VoiceRoom.step] at hs'
  split at hs'
  · cases hs'
    refine ⟨hfaithful, h.waiting, h.below, h.once, h.buffer, h.calls, fun horder => ⟨fun hlt => ?_, (h.ordered horder).2⟩⟩
    obtain ⟨o, hbegun⟩ := (h.ordered horder).1 hlt
    refine ⟨o, hbegun.only, hbegun.buffer, hbegun.fresh, hbegun.calls, ?_⟩
    rw [hbegun.jobs]
    rfl
  · cases hs'

end

theorem Tracks.deliver {s : VoiceRoom} {msg : ProtocolMessage} (hid : u.id ≠ "")
    (hcount : u.pieces.length < 2 ^ 63) (h : u.Tracks s ran) (hmsg : u.IsChunk s.arrived msg) :
    u.Tracks (s.handleRoomEvent one u.peer (encode msg)) ran := by
  have harrived : s.arrived < u.pieces.length := by
    obtain ⟨piece, hpiece, -⟩ := hmsg
    exact (List.getElem?_eq_some_iff.1 hpiece).1
  have hdecode : ∀ msg', decode one (encode msg) = some msg' → msg' = msg := by
    obtain ⟨piece, -, rfl⟩ := hmsg
    intro msg' hmsg'
    rw [decode_sttRequest one hid (Nat.lt_trans harrived hcount)] at hmsg'
    split at hmsg'
    · cases hmsg'
    · exact (Option.some.inj hmsg').symm
  have hfaithful : u.Faithful (s.handleRoomEvent one u.peer (encode msg)) := by
    refine @Faithful.step one (fun data => data) u s _ (.deliver u.peer (encode msg)) hcount h.faithful
      (fun bytes msg' hact hread => ?_) rfl
    cases hact
    rw [hdecode msg' hread]
    exact fun _ _ _ _ _ _ _ => mem_messages.2 ⟨_, hmsg⟩
  have hsame : u.Tracks { s with arrived := s.arrived + 1 } ran := by
    refine ⟨⟨h.faithful.waiting, h.faithful.buffer, h.faithful.calls⟩, fun w hw => ?_, fun k hk => ?_, h.once, h.buffer,
      h.calls, fun horder => ⟨fun hlt => ?_, (h.ordered horder).2⟩⟩
    · obtain ⟨h1, h2, h3, h4⟩ := h.waiting w hw
      exact ⟨h1, h2, Nat.lt_succ_of_lt h3, h4⟩
    · exact ⟨Nat.lt_succ_of_lt (h.below k hk).1, (h.below k hk).2⟩
    · obtain ⟨o, hbegun⟩ := (h.ordered horder).1 hlt
      exact ⟨o, hbegun.only, hbegun.buffer, hbegun.fresh, hbegun.calls, hbegun.jobs⟩
  unfold VoiceRoom.handleRoomEvent at hfaithful ⊢
  split
  · exact hsame
  · rename_i hsize
    rw [if_neg hsize] at hfaithful
    split
    · exact hsame
    · rename_i msg' hread
      rw [hread] at hfaithful
      cases hdecode msg' hread
      split
      · rename_i hpermits
        simp only [if_pos hpermits] at hfaithful
        refine ⟨hfaithful, fun w hw => ?_, hsame.below, h.once, h.buffer, h.calls, fun horder => ⟨fun hlt => ?_, (h.ordered horder).2⟩⟩
        · rcases mem_append.1 hw with hw | hw
          · exact hsame.waiting w hw
          · rw [mem_singleton.1 hw]
            exact ⟨rfl, hmsg, Nat.lt_succ_self _, fun hmem => Nat.lt_irrefl _ (h.below _ hmem).1⟩
        · obtain ⟨o, hbegun⟩ := (h.ordered horder).1 hlt
          exact ⟨o, hbegun.only, hbegun.buffer, hbegun.fresh, hbegun.calls, hbegun.jobs⟩
      · exact ⟨⟨hsame.faithful.waiting, h.faithful.buffer, h.faithful.calls⟩, hsame.waiting, hsame.below, h.once, h.buffer,
          h.calls, fun horder => ⟨fun hlt => by
            obtain ⟨o, hbegun⟩ := (h.ordered horder).1 hlt
            exact ⟨o, hbegun.only, hbegun.buffer, hbegun.fresh, hbegun.calls, hbegun.jobs⟩, (h.ordered horder).2⟩⟩

theorem arrived_handleRoomEvent (s : VoiceRoom) (sender : String) (bytes : List UInt8) :
    (s.handleRoomEvent one sender bytes).arrived = s.arrived + 1 := by
  unfold VoiceRoom.handleRoomEvent
  split
  · rfl
  · split
    · rfl
    · split <;> rfl

theorem arrived_turn {t : Turn} (h : s.step one decodeError (.turn t) = some s') : s'.arrived = s.arrived := by
  obtain ⟨task, -, rfl⟩ := map_eq_some_iff.1 h
  unfold VoiceRoom.handleMessage
  split
  · exact (VoiceRoom.handleSttRequest_cases rfl).1.arrived
  · rfl

theorem arrived_finish {number : Nat} (h : s.step one decodeError (.finish number) = some s') : s'.arrived = s.arrived := by
  simp only [VoiceRoom.step] at h
  split at h
  · cases h
    rfl
  · cases h

/-- **A run to which the upload's chunks come in order keeps what its turns say of the room.** -/
theorem Tracks.run (hid : u.id ≠ "") (hcount : u.pieces.length < 2 ^ 63) (hsize : u.req.audio.length ≤ maxSttAudio) :
    ∀ {acts : List Act} {s s' : VoiceRoom} {ran : List Turn}, u.Tracks s ran →
      deliveries acts = (u.messages.drop s.arrived).map (fun msg => (u.peer, encode msg)) →
      (∀ t ∈ turnsOf acts, t.denied = none) → s.run one decodeError acts = some s' → u.Tracks s' (ran ++ turnsOf acts)
  | [], _, _, _, h, _, _, hs' => by
    cases hs'
    rw [turnsOf, append_nil]
    exact h
  | .deliver sender bytes :: acts, s, s', ran, h, hmsgs, hgranted, hs' => by
    obtain ⟨s₁, hstep, hrun⟩ := bind_eq_some_iff.1 hs'
    cases hstep
    cases hrest : u.messages.drop s.arrived with
    | nil =>
      rw [hrest] at hmsgs
      cases hmsgs
    | cons msg rest =>
      rw [hrest] at hmsgs
      obtain ⟨hhead, htail⟩ := cons.inj hmsgs
      cases hhead
      have hmsg : u.messages[s.arrived]? = some msg := by
        rw [← Nat.add_zero s.arrived, ← getElem?_drop, hrest]
        rfl
      have hrest' : u.Tracks s' (ran ++ turnsOf acts) := by
        refine Tracks.run hid hcount hsize (h.deliver hid hcount (getElem?_messages.1 hmsg)) ?_ hgranted hrun
        rw [arrived_handleRoomEvent, htail, ← tail_drop, hrest]
        rfl
      exact hrest'
  | .turn t :: acts, s, s', ran, h, hmsgs, hgranted, hs' => by
    obtain ⟨s₁, hstep, hrun⟩ := bind_eq_some_iff.1 hs'
    have hturn := h.turn hcount hsize (hgranted t mem_cons_self) hstep
    have harrived : s₁.arrived = s.arrived := arrived_turn hstep
    have hrest := Tracks.run hid hcount hsize hturn (harrived ▸ hmsgs) (fun t' ht' => hgranted t' (mem_cons_of_mem _ ht')) hrun
    rwa [append_assoc] at hrest
  | .finish number :: acts, s, s', ran, h, hmsgs, hgranted, hs' => by
    obtain ⟨s₁, hstep, hrun⟩ := bind_eq_some_iff.1 hs'
    have harrived : s₁.arrived = s.arrived := arrived_finish hstep
    have hrest : u.Tracks s' (ran ++ turnsOf acts) :=
      Tracks.run hid hcount hsize (h.finish hcount hstep) (harrived ▸ hmsgs) hgranted hrun
    exact hrest

theorem length_messages (u : Upload) : u.messages.length = u.pieces.length := length_sttRequests _ _ _ _

/-- **The upload has been transcribed exactly when the turns so far are those of all chunks in order.** -/
theorem Tracks.calls_iff {s : VoiceRoom} (h : u.Tracks s ran) :
    (s.calls = [(u.key, u.call)] ↔ InOrder u.pieces.length ran) ∧ (s.calls ≠ [] → InOrder u.pieces.length ran) := by
  have hran : s.calls ≠ [] → InOrder u.pieces.length ran := by
    intro hcalls
    obtain ⟨pre, tail, post, hsplit, htail⟩ := h.calls hcalls
    have hle : (ran.map Turn.number).length ≤ (List.range u.pieces.length).length :=
      (subperm_of_subset h.once (fun k hk => List.mem_range.2 (h.below k hk).2)).length_le
    have hlength := htail.length
    rw [length_map, length_range, hsplit, length_append, length_append] at hle
    obtain rfl : pre = [] := length_eq_zero_iff.1 (by omega)
    obtain rfl : post = [] := length_eq_zero_iff.1 (by omega)
    rw [append_nil] at hsplit
    rw [hsplit]
    exact htail
  refine ⟨⟨fun hcalls => hran (by rw [hcalls]; exact cons_ne_nil _ _), fun horder => ?_⟩, hran⟩
  have hlength := horder.length
  exact (h.ordered (hlength.symm ▸ horder)).2 hlength

theorem of_transcribe {messages : List ProtocolMessage} (h : transcribe u.id u.req = .ok messages) :
    messages = u.messages ∧ u.req.audio.length ≤ maxSttAudio ∧ u.pieces.length < 2 ^ 63 := by
  unfold transcribe at h
  split at h
  · cases h
  · rename_i hsize
    have hpieces := (sttPieces_spec u.req.audio).2.2
    unfold maxSttAudio at hsize ⊢
    exact ⟨(Except.ok.inj h).symm, Nat.le_of_not_lt hsize, Nat.lt_of_le_of_lt hpieces (by omega)⟩

end Upload

/-! ## Uploads and schedules -/

/-- **Which schedules transcribe an upload.**  With no other traffic, the STT function is called once and with the
audio exactly when the tasks of the chunks take their turns in order, none later than a buffer's lifetime after the
one before; and in every run every call for the upload is with the audio. -/
theorem transcribed_iff (one : List Char → Bool) (decodeError : String → String) (u : Upload) (messages : List ProtocolMessage)
    (hid : u.id ≠ "") (hsend : transcribe u.id u.req = .ok messages) :
    (∀ acts s, VoiceRoom.start.run one decodeError acts = some s →
      deliveries acts = messages.map (fun msg => (u.peer, encode msg)) → (∀ t ∈ turnsOf acts, t.denied = none) →
      (s.calls = [((u.peer, u.id), ⟨u.req.audio, u.req.mime, sttModel u.req, u.req.fileName⟩)] ↔
        InOrder messages.length (turnsOf acts))) ∧
    ∀ acts s, VoiceRoom.start.run one decodeError acts = some s →
      (∀ bytes msg, .deliver u.peer bytes ∈ acts → decode one bytes = some msg →
        ∀ seq data last mime model fileName, msg = .sttRequest u.id seq data last mime model fileName → msg ∈ messages) →
      ∀ call ∈ s.calls, call.1 = (u.peer, u.id) → call.2 = ⟨u.req.audio, u.req.mime, sttModel u.req, u.req.fileName⟩ := by
  obtain ⟨rfl, hsize, hcount⟩ := Upload.of_transcribe hsend
  constructor
  · intro acts s hrun hmsgs hgranted
    have h := Upload.Tracks.run hid hcount hsize Upload.start_tracks hmsgs hgranted hrun
    rw [u.length_messages]
    exact h.calls_iff.1
  · intro acts s hrun hmsgs
    exact (Upload.Faithful.run hcount Upload.start_faithful hmsgs hrun).calls

/-! ## Two chunks -/

def twoChunks : Upload := ⟨"peer", "request", ⟨"", List.replicate (chunkBytes + 1) 0, "audio/wav", none⟩⟩

def scheduled (turns : List Turn) : List Act :=
  twoChunks.messages.map (fun msg => Act.deliver twoChunks.peer (encode msg)) ++ turns.map Act.turn

theorem deliveries_scheduled (turns : List Turn) :
    deliveries (scheduled turns) = twoChunks.messages.map (fun msg => (twoChunks.peer, encode msg)) := by
  have hturns : ∀ turns : List Turn, deliveries (turns.map Act.turn) = [] := fun turns => by
    induction turns with
    | nil => rfl
    | cons t turns ih => exact ih
  unfold scheduled
  induction twoChunks.messages with
  | nil => exact hturns turns
  | cons msg msgs ih => exact congrArg ((twoChunks.peer, encode msg) :: ·) ih

theorem turnsOf_scheduled (turns : List Turn) : turnsOf (scheduled turns) = turns := by
  have hturns : ∀ turns : List Turn, turnsOf (turns.map Act.turn) = turns := fun turns => by
    induction turns with
    | nil => rfl
    | cons t turns ih => exact congrArg (t :: ·) ih
  unfold scheduled
  induction twoChunks.messages with
  | nil => exact hturns turns
  | cons msg msgs ih => exact ih

theorem twoChunks_transcribe : transcribe twoChunks.id twoChunks.req = .ok twoChunks.messages := by
  have hsize : ¬ maxSttAudio < (List.replicate (chunkBytes + 1) (0 : UInt8)).length := by
    rw [length_replicate]
    decide
  exact if_neg hsize

theorem twoChunks_length : twoChunks.messages.length = 2 := by
  have hlen := Chunks.length_chunks (show 0 < chunkBytes by decide) (List.replicate (chunkBytes + 1) (0 : UInt8))
  rw [length_replicate] at hlen
  rw [twoChunks.length_messages]
  show (sttPieces (List.replicate (chunkBytes + 1) 0)).length = 2
  unfold sttPieces
  split
  · rename_i h
    rw [h] at hlen
    cases hlen
  · exact hlen

theorem twoChunks_size {i : Nat} {msg : ProtocolMessage} (h : twoChunks.IsChunk i msg) : (encode msg).length ≤ 2 * 1024 * 1024 := by
  obtain ⟨piece, hpiece, rfl⟩ := h
  have hi : i < twoChunks.pieces.length := (List.getElem?_eq_some_iff.1 hpiece).1
  have hlt : i < 2 := by rwa [← twoChunks.length_messages, twoChunks_length] at hi
  have hle := Upload.length_pieces hpiece
  have haudio : twoChunks.req.audio.length = chunkBytes + 1 := length_replicate
  have hdata := stringSize_le (String.ofList (Base64.encodeStd piece))
  rw [utf8ByteSize_ascii (Base64.encodeStd_ascii piece), Base64.length_encodeStd] at hdata
  have hseq : Json.size (.int (i : Int)) ≤ 80 := size_int_le (by omega)
  have hrest : ∀ s ∈ ["data", "id", "request", "last", "mime", "audio/wav", "seq", "type", "stt_request", "v"],
      stringSize s ≤ 100 := by decide
  simp only [forall_mem_cons] at hrest
  have hbool : Json.size (.bool (decide (i + 1 = twoChunks.pieces.length))) ≤ 10 := by
    cases decide (i + 1 = twoChunks.pieces.length) <;> decide
  have hone : Json.size (.int 1) ≤ 80 := size_int_le (by decide)
  refine Nat.le_trans (size_obj_le (fieldsOf _)) ?_
  have hmodel : sttModel twoChunks.req = none := rfl
  rw [hmodel]
  simp only [fieldsOf, twoChunks, optField, map_none, toList_none, cons_append, nil_append, fieldsSize, size_str]
  unfold chunkBytes at haudio
  simp only [twoChunks] at hbool
  omega

theorem handleRoomEvent_spawn {one : List Char → Bool} {s : VoiceRoom} {sender : String} {bytes : List UInt8}
    {msg : ProtocolMessage} (hsize : bytes.length ≤ 2 * 1024 * 1024) (hread : decode one bytes = some msg)
    (hpermit : s.waiting.length + s.running.length < maxInflightHandlers) : s.handleRoomEvent one sender bytes =
      { s with arrived := s.arrived + 1, waiting := s.waiting ++ [⟨s.arrived, sender, msg⟩] } := by
  unfold VoiceRoom.handleRoomEvent
  rw [if_neg (Nat.not_lt.2 hsize), hread]
  simp only
  rw [if_pos hpermit]

theorem waiting_handleMessage {decodeError : String → String} (s : VoiceRoom) (t : Turn) (task : Task) :
    (s.handleMessage decodeError t task).waiting = s.waiting ∧ (s.handleMessage decodeError t task).dropped = s.dropped := by
  unfold VoiceRoom.handleMessage
  split
  · obtain ⟨hkeeps, -⟩ := VoiceRoom.handleSttRequest_cases rfl
    exact ⟨hkeeps.waiting, hkeeps.dropped⟩
  · exact ⟨rfl, rfl⟩

theorem step_voice_turn {one : List Char → Bool} {decodeError : String → String} {s : VoiceRoom} {t : Turn}
    (h : t.number ∈ s.waiting.map Task.number) : ∃ s', s.step one decodeError (.turn t) = some s' ∧
      s'.waiting = s.waiting.filter (fun task => task.number != t.number) ∧ s'.dropped = s.dropped := by
  obtain ⟨task, hmem, hnumber⟩ := List.mem_map.1 h
  have hsome : (s.waiting.find? (fun task => task.number == t.number)).isSome = true :=
    find?_isSome.2 ⟨task, hmem, beq_iff_eq.2 hnumber⟩
  obtain ⟨task', hfind⟩ := isSome_iff_exists.1 hsome
  refine ⟨_, by rw [VoiceRoom.step, hfind]; rfl, ?_⟩
  exact waiting_handleMessage _ t task'

theorem scheduled_runs (one : List Char → Bool) (decodeError : String → String) {a b : Turn}
    (h : [a.number, b.number].Perm [0, 1]) : ∃ s, VoiceRoom.start.run one decodeError (scheduled [a, b]) = some s ∧
      s.waiting = [] ∧ s.dropped = 0 := by
  obtain ⟨m₀, m₁, hmsgs⟩ := length_eq_two.1 twoChunks_length
  have hchunk : ∀ (i : Nat) (msg : ProtocolMessage), [m₀, m₁][i]? = some msg → (encode msg).length ≤ 2 * 1024 * 1024 ∧ decode one (encode msg) = some msg := by
    intro i msg hget
    have hmsg : twoChunks.IsChunk i msg := Upload.getElem?_messages.1 (hmsgs ▸ hget)
    refine ⟨twoChunks_size hmsg, ?_⟩
    obtain ⟨-, -, hcount⟩ := Upload.of_transcribe twoChunks_transcribe
    obtain ⟨piece, hpiece, rfl⟩ := hmsg
    rw [decode_sttRequest one (by decide) (Nat.lt_trans (List.getElem?_eq_some_iff.1 hpiece).1 hcount), if_neg (by decide)]
  obtain ⟨hsize₀, hread₀⟩ := hchunk 0 m₀ rfl
  obtain ⟨hsize₁, hread₁⟩ := hchunk 1 m₁ rfl
  have h₀ := @handleRoomEvent_spawn one VoiceRoom.start "peer" _ _ hsize₀ hread₀ (by decide)
  have h₁ := @handleRoomEvent_spawn one (VoiceRoom.start.handleRoomEvent one "peer" (encode m₀)) "peer" _ _ hsize₁ hread₁
    (by rw [h₀]; exact (show 1 + 0 < maxInflightHandlers by decide))
  have hwaiting : ((VoiceRoom.start.handleRoomEvent one "peer" (encode m₀)).handleRoomEvent one "peer" (encode m₁)).waiting =
      [⟨0, "peer", m₀⟩, ⟨1, "peer", m₁⟩] := by
    rw [h₁, h₀]
    rfl
  have hdropped : ((VoiceRoom.start.handleRoomEvent one "peer" (encode m₀)).handleRoomEvent one "peer" (encode m₁)).dropped = 0 := by
    rw [h₁, h₀]
    rfl
  have hab : a.number ∈ [0, 1] ∧ b.number ∈ [0, 1] ∧ a.number ≠ b.number :=
    ⟨h.subset mem_cons_self, h.subset (mem_cons_of_mem _ mem_cons_self), by
      have hnodup := h.nodup_iff.2 (by decide)
      rintro heq
      rw [heq] at hnodup
      exact (nodup_cons.1 hnodup).1 mem_cons_self⟩
  obtain ⟨ha, hb, hne⟩ := hab
  obtain ⟨s₁, hstep₁, hw₁, hd₁⟩ := @step_voice_turn one decodeError _ a (by rw [hwaiting]; exact ha)
  rw [hwaiting] at hw₁
  obtain ⟨s₂, hstep₂, hw₂, hd₂⟩ := @step_voice_turn one decodeError s₁ b (by
    rw [hw₁]
    obtain ⟨task, hmem, hnumber⟩ := List.mem_map.1 (show b.number ∈ List.map Task.number [⟨0, "peer", m₀⟩, ⟨1, "peer", m₁⟩] from hb)
    exact List.mem_map.2 ⟨task, mem_filter.2 ⟨hmem, bne_iff_ne.2 (by rw [hnumber]; exact hne.symm)⟩, hnumber⟩)
  refine ⟨s₂, ?_, ?_, by rw [hd₂, hd₁, hdropped]⟩
  · unfold scheduled
    rw [hmsgs]
    refine bind_eq_some_iff.2 ⟨_, rfl, bind_eq_some_iff.2 ⟨_, rfl, bind_eq_some_iff.2 ⟨s₁, hstep₁, ?_⟩⟩⟩
    exact bind_eq_some_iff.2 ⟨s₂, hstep₂, rfl⟩
  · rw [hw₂, hw₁, List.filter_filter, filter_eq_nil_iff]
    intro task hmem
    have hnumber : task.number = a.number ∨ task.number = b.number := by
      have hmem := h.symm.subset (List.mem_map_of_mem (f := Task.number) hmem)
      simpa using hmem
    rcases hnumber with hnumber | hnumber <;> simp [hnumber]

theorem transcribed_iff_twoChunks : ∃ s, VoiceRoom.start.run (fun _ => false) id (scheduled [⟨0, 0, 0, none⟩, ⟨1, 0, 0, none⟩]) =
    some s ∧ s.calls = [(("peer", "request"), ⟨List.replicate (chunkBytes + 1) 0, "audio/wav", none, none⟩)] := by
  obtain ⟨s, hrun, -⟩ := @scheduled_runs (fun _ => false) id ⟨0, 0, 0, none⟩ ⟨1, 0, 0, none⟩ (List.Perm.refl _)
  refine ⟨s, hrun, ((transcribed_iff (fun _ => false) id twoChunks twoChunks.messages (by decide) twoChunks_transcribe).1 _ s hrun
    (deliveries_scheduled _) ?_).2 ?_⟩
  · rw [turnsOf_scheduled]
    simp
  · rw [turnsOf_scheduled, twoChunks_length]
    exact ⟨rfl, isChain_pair.2 ⟨Nat.zero_le _, Nat.zero_le _⟩⟩

/-- **A task that overtakes another loses the upload**: both chunks of an audio come in order from a granted peer, with a
permit each, and both tasks have their turn, but the second before the first; nothing is transcribed. -/
theorem overtaking_task_loses_upload : transcribe twoChunks.id twoChunks.req = .ok twoChunks.messages ∧
    deliveries (scheduled [⟨1, 0, 0, none⟩, ⟨0, 0, 0, none⟩]) = twoChunks.messages.map (fun msg => (twoChunks.peer, encode msg)) ∧
    ∃ s, VoiceRoom.start.run (fun _ => false) id (scheduled [⟨1, 0, 0, none⟩, ⟨0, 0, 0, none⟩]) = some s ∧
      s.waiting = [] ∧ s.dropped = 0 ∧ s.calls = [] := by
  obtain ⟨s, hrun, hwaiting, hdropped⟩ := @scheduled_runs (fun _ => false) id ⟨1, 0, 0, none⟩ ⟨0, 0, 0, none⟩ (List.Perm.swap 0 1 [])
  refine ⟨twoChunks_transcribe, deliveries_scheduled _, s, hrun, hwaiting, hdropped, ?_⟩
  obtain ⟨-, hsize, hcount⟩ := Upload.of_transcribe twoChunks_transcribe
  have hid : twoChunks.id ≠ "" := by decide
  have hgranted : ∀ t ∈ turnsOf (scheduled [⟨1, 0, 0, none⟩, ⟨0, 0, 0, none⟩]), t.denied = none := by
    rw [turnsOf_scheduled]
    simp
  have hmsgs : deliveries (scheduled [⟨1, 0, 0, none⟩, ⟨0, 0, 0, none⟩]) =
      (twoChunks.messages.drop VoiceRoom.start.arrived).map (fun msg => (twoChunks.peer, encode msg)) := by
    rw [deliveries_scheduled, show VoiceRoom.start.arrived = 0 from rfl, drop_zero]
  have h := Upload.Tracks.run hid hcount hsize Upload.start_tracks hmsgs hgranted hrun
  rw [turnsOf_scheduled] at h
  refine Classical.byContradiction (fun hcalls => ?_)
  have hnumbers := (h.calls_iff.2 hcalls).numbers
  rw [← twoChunks.length_messages, twoChunks_length] at hnumbers
  exact absurd hnumbers (by decide)

end Mistl.Ai
