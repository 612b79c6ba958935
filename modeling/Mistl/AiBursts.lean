import Mistl.AiRelays
/-!
# AiBursts — when a chunked response arrives whole

A response within the limits, delivered in order and without loss, is put together again exactly when no chunk finds
the request's queue full: 8 chunks of speech, 64 of a tunnel's response.
-/
open List

namespace Mistl.Ai

open Api (TtsAudio TunnelResponse)

/-! ## What is offered -/

variable {σ ρ : Type} (one : List Char → Bool)

def Passes (limit : ProtocolMessage → Option (String × Bool)) (t : Ticket) (valid : Bool) (m : ProtocolMessage) : Prop :=
  decode one (encode m) = some m ∧ limit m = some (t.id, valid)

theorem flatMap_polls (limit : ProtocolMessage → Option (String × Bool)) (timedOut : ρ) (t : Ticket) : ∀ k,
    (List.replicate k Arrival.poll).flatMap (stepsOf one limit timedOut t) = List.replicate k .poll
  | 0 => rfl
  | k + 1 => by
    rw [replicate_succ, flatMap_cons, flatMap_polls limit timedOut t k]
    rfl

theorem weave_lost (limit : ProtocolMessage → Option (String × Bool)) (timedOut : ρ) (t : Ticket) (polls : Nat → Nat) :
    ∀ {msgs : List ProtocolMessage} {i : Nat}, (∀ m ∈ msgs, decode one (encode m) = none) →
    ∃ k, (weave t.peer polls i msgs).flatMap (stepsOf one limit timedOut t) = List.replicate k .poll
  | [], _, _ => ⟨0, rfl⟩
  | m :: msgs, i, h => by
    obtain ⟨k, hk⟩ := weave_lost limit timedOut t polls (i := i + 1) (fun m hm => h m (mem_cons_of_mem _ hm))
    refine ⟨polls i + k, ?_⟩
    have hdeliver : stepsOf one limit timedOut t (.deliver t.peer (encode m)) = [] := by
      show (decode one (encode m)).elim [] (handleMessage limit t t.peer) = []
      rw [h m mem_cons_self]
      rfl
    rw [weave, flatMap_append, flatMap_cons, flatMap_polls, hdeliver, hk, nil_append, replicate_append_replicate]

variable {t : Ticket} {limit : ProtocolMessage → Option (String × Bool)}

variable {valid : ProtocolMessage → Bool}

theorem weave_steps (timedOut : ρ) (polls : Nat → Nat) : ∀ {msgs : List ProtocolMessage} {i : Nat},
    (∀ m ∈ msgs, Passes one limit t (valid m) m) →
    ∃ steps, (weave t.peer polls i msgs).flatMap (stepsOf one limit timedOut t) = steps ∧
      Exchange.Plain steps ∧ Exchange.offered steps = msgs ∧ Exchange.allValid steps = msgs.all valid ∧
      ∀ cap n, Exchange.fits cap n steps = noBurst cap polls i n msgs.length
  | [], i, _ => ⟨[], rfl, fun _ h => (by cases h), rfl, rfl, fun _ _ => rfl⟩
  | m :: msgs, i, h => by
    obtain ⟨steps, hsteps, hplain, hoffered, hvalid, hfits⟩ :=
      weave_steps timedOut polls (i := i + 1) (fun m hm => h m (mem_cons_of_mem _ hm))
    obtain ⟨hdecode, hlimit⟩ := h m mem_cons_self
    have hdeliver : stepsOf one limit timedOut t (.deliver t.peer (encode m)) = [.offer (valid m) m] := by
      show (decode one (encode m)).elim [] (handleMessage limit t t.peer) = _
      rw [hdecode, Option.elim_some, handleMessage, hlimit]
      exact if_pos ⟨rfl, rfl⟩
    refine ⟨List.replicate (polls i) .poll ++ .offer (valid m) m :: steps, ?_, ?_, ?_, ?_, fun cap n => ?_⟩
    · rw [weave, flatMap_append, flatMap_cons, flatMap_polls, hdeliver, hsteps]
      rfl
    · intro e he
      rcases mem_append.1 he with he | he
      · exact .inl (eq_of_mem_replicate he)
      · rcases mem_cons.1 he with rfl | he
        · exact .inr ⟨_, _, rfl⟩
        · exact hplain e he
    · rw [Exchange.offered_polls, Exchange.offered, hoffered]
    · rw [Exchange.allValid_polls, Exchange.allValid, hvalid, all_cons]
    · rw [Exchange.fits_polls, Exchange.fits, hfits, length_cons, noBurst]

/-- **A response whose messages come through is taken whole exactly when each is within its limits and there is no
burst.** -/
theorem taken_iff (timedOut : ρ) (polls : Nat → Nat)
    {msgs : List ProtocolMessage} {R : Reader σ ProtocolMessage ρ} {s : σ} {r : ρ}
    (cap : Nat) (hpass : ∀ m ∈ msgs, Passes one limit t (valid m) m) (hends : Exchange.Ends R s msgs r)
    (hr : R.closed ≠ r) :
    (Exchange.run R cap (Exchange.start s) ((weave t.peer polls 0 msgs ++ List.replicate msgs.length Arrival.poll).flatMap
      (stepsOf one limit timedOut t))).task = .inr r ↔ msgs.all valid = true ∧ noBurst cap polls 0 0 msgs.length = true := by
  obtain ⟨steps, hsteps, hplain, hoffered, hvalid, hfits⟩ := weave_steps one timedOut polls (i := 0) hpass
  rw [flatMap_append, hsteps, flatMap_polls]
  have h := Exchange.drained_iff_fits R cap hr hplain (s := s) (by rwa [hoffered])
  rw [hoffered] at h
  rw [h, hfits, hvalid, and_comm]

/-! ## Speech -/

theorem takeSpeech_chunk (id mime : String) (last : Bool) {seq : Nat} {acc chunk : List UInt8}
    (h : acc.length + chunk.length ≤ maxAudioBytes) :
    takeSpeech (seq, acc) (.ttsResponse id seq (String.ofList (Base64.encodeStd chunk)) last mime) =
      if last then .inr (.ok ⟨acc ++ chunk, mime⟩) else .inl (seq + 1, acc ++ chunk) := by
  unfold takeSpeech
  simp only [Nat.lt_irrefl, if_false, ne_eq, not_true_eq_false, String.toList_ofList, Base64.decodeStd_encodeStd]
  rw [if_neg (Nat.not_lt.2 h)]

theorem ttsChunks_ends (id mime : String) : ∀ (chunks : List (List UInt8)) (seq : Nat) (acc : List UInt8), chunks ≠ [] →
    acc.length + chunks.flatten.length ≤ maxAudioBytes →
    Exchange.Ends speechReader (seq, acc) (ttsChunks id mime seq chunks) (.ok ⟨acc ++ chunks.flatten, mime⟩)
  | [], _, _, h, _ => absurd rfl h
  | [c], seq, acc, _, h => by
    rw [flatten_cons, flatten_nil, append_nil] at h ⊢
    exact takeSpeech_chunk id mime true h
  | c :: d :: l, seq, acc, _, h => by
    rw [flatten_cons, length_append] at h
    have ih := ttsChunks_ends id mime (d :: l) (seq + 1) (acc ++ c) (cons_ne_nil _ _)
      (by rw [length_append]; omega)
    rw [flatten_cons, ← append_assoc]
    cases l with
    | nil => exact ⟨_, takeSpeech_chunk id mime false (by omega), ih⟩
    | cons e l => exact ⟨_, takeSpeech_chunk id mime false (by omega), ih⟩

theorem mem_ttsChunks {id mime : String} : ∀ {chunks : List (List UInt8)} {seq : Nat}, ∀ m ∈ ttsChunks id mime seq chunks,
    ∃ n c last, m = .ttsResponse id n (String.ofList (Base64.encodeStd c)) last mime ∧ c ∈ chunks ∧ n < seq + chunks.length
  | [], _, m, h => by cases h
  | [c], seq, m, h => by
    rw [mem_singleton.1 h]
    exact ⟨seq, c, true, rfl, mem_cons_self, Nat.lt_succ_self _⟩
  | c :: d :: l, seq, m, h => by
    rcases mem_cons.1 h with rfl | h
    · exact ⟨seq, c, false, rfl, mem_cons_self, by rw [length_cons]; omega⟩
    · obtain ⟨n, x, last, rfl, hx, hn⟩ := mem_ttsChunks m h
      exact ⟨n, x, last, rfl, mem_cons_of_mem _ hx, by rw [length_cons]; omega⟩

theorem sendTtsResponse_eq (id : String) (audio : TtsAudio) : ∃ chunks, sendTtsResponse id audio =
    ttsChunks id audio.mime 0 chunks ∧ chunks ≠ [] ∧ chunks.flatten = audio.bytes ∧
    (∀ c ∈ chunks, c.length ≤ ttsChunkRawBytes) ∧ chunks.length ≤ audio.bytes.length + 1 := by
  unfold sendTtsResponse
  have hflat := Chunks.chunks_flatten (show 0 < ttsChunkRawBytes by decide) audio.bytes
  cases hc : Chunks.chunks ttsChunkRawBytes audio.bytes with
  | nil =>
    rw [hc] at hflat
    refine ⟨[[]], rfl, cons_ne_nil _ _, hflat, fun c h => ?_, Nat.le_add_left _ _⟩
    rw [mem_singleton.1 h]
    exact Nat.zero_le _
  | cons c l =>
    refine ⟨c :: l, rfl, cons_ne_nil _ _, by rw [← hc]; exact hflat, fun d h => ?_, ?_⟩
    · exact Chunks.length_of_mem_chunks (by rw [hc]; exact h)
    · rw [← hc, Chunks.length_chunks (by decide), ttsChunkRawBytes]
      omega

theorem length_ttsChunks (id mime : String) : ∀ (chunks : List (List UInt8)) (seq : Nat),
    (ttsChunks id mime seq chunks).length = chunks.length
  | [], _ => rfl
  | [_], _ => rfl
  | _ :: d :: l, seq => congrArg (· + 1) (length_ttsChunks id mime (d :: l) (seq + 1))

theorem length_sendTtsResponse (id : String) {audio : TtsAudio} (h : audio.bytes ≠ []) :
    (sendTtsResponse id audio).length = (audio.bytes.length + ttsChunkRawBytes - 1) / ttsChunkRawBytes := by
  rw [← Chunks.length_chunks (by decide), ← length_ttsChunks id audio.mime _ 0]
  unfold sendTtsResponse
  have hne := Chunks.chunks_ne_nil (n := ttsChunkRawBytes) h
  split
  · contradiction
  · rfl

theorem voiceClosed_ne (audio : TtsAudio) : speechReader.closed ≠ .ok audio := nofun

/-- **A speech response is returned as the provider made it exactly when its type is there and fits, and no chunk finds
eight others waiting.** -/
theorem speech_completes (ht : t.id ≠ "") {audio : TtsAudio} (hsize : audio.bytes.length ≤ maxAudioBytes)
    (polls : Nat → Nat) :
    (synthesize one t (weave t.peer polls 0 (sendTtsResponse t.id audio) ++
      List.replicate (sendTtsResponse t.id audio).length .poll)).task = .inr (.ok audio) ↔
      audio.mime ≠ "" ∧ audio.mime.utf8ByteSize ≤ 256 ∧ noBurst voiceQueue polls 0 0 (sendTtsResponse t.id audio).length = true := by
  obtain ⟨chunks, hsend, hne, hflat, hlen, hcount⟩ := sendTtsResponse_eq t.id audio
  rw [hsend]
  have hends : Exchange.Ends speechReader (0, []) (ttsChunks t.id audio.mime 0 chunks) (.ok audio) := by
    have h := ttsChunks_ends t.id audio.mime chunks 0 [] hne (by rw [hflat, length_nil]; omega)
    rwa [hflat] at h
  by_cases hmime : audio.mime = ""
  · refine iff_of_false (fun h => ?_) (fun h => h.1 hmime)
    obtain ⟨k, hk⟩ := @weave_lost _ one voiceLimit
      (Except.error "ai: voice request timed out" : Except String TtsAudio) t polls (ttsChunks t.id audio.mime 0 chunks) 0 (fun m hm => by
        obtain ⟨n, c, last, rfl, -, hn⟩ := mem_ttsChunks m hm
        rw [decode_ttsResponse one ht (by unfold maxAudioBytes at hsize; omega), if_pos hmime])
    unfold synthesize at h
    rw [flatMap_append, hk, flatMap_polls, replicate_append_replicate, Exchange.run_idle] at h
    cases h
  · have hpass : ∀ m ∈ ttsChunks t.id audio.mime 0 chunks, Passes one voiceLimit t (decide (audio.mime.utf8ByteSize ≤ 256)) m := by
      intro m hm
      obtain ⟨n, c, last, rfl, hc, hn⟩ := mem_ttsChunks m hm
      refine ⟨by rw [decode_ttsResponse one ht (by unfold maxAudioBytes at hsize; omega), if_neg hmime], ?_⟩
      have hdata : (String.ofList (Base64.encodeStd c)).utf8ByteSize ≤ 16 * 1024 := by
        rw [Json.utf8ByteSize_ascii (Base64.encodeStd_ascii c), Base64.length_encodeStd]
        have := hlen c hc
        unfold ttsChunkRawBytes at this
        omega
      show some (t.id, decide (_ ≤ 16 * 1024) && decide (_ ≤ 256)) = _
      rw [decide_eq_true hdata, Bool.true_and]
    have hall : (ttsChunks t.id audio.mime 0 chunks).all (fun _ => decide (audio.mime.utf8ByteSize ≤ 256)) = true ↔
        audio.mime.utf8ByteSize ≤ 256 := by
      rw [List.all_eq_true]
      constructor
      · intro h
        obtain ⟨m, hm⟩ := exists_mem_of_ne_nil _ hends.ne_nil
        exact of_decide_eq_true (h m hm)
      · exact fun h _ _ => decide_eq_true h
    exact (taken_iff one _ polls voiceQueue hpass hends (voiceClosed_ne audio)).trans
      (by rw [hall]; exact ⟨fun h => ⟨hmime, h⟩, fun h => h.2⟩)

/-! ## Tunnel responses -/

/-- An assembly that has the parts before `n`, in order, and not the last. -/
structure Assembly.Upto (a : Assembly) (n : Nat) (text : List Char) : Prop where
  below : ∀ p ∈ a.parts, p.1 < n
  length : a.parts.length = n
  last : a.last = none
  chars : a.chars = text.length
  text : a.parts.flatMap (fun p => p.2.toList) = text

theorem insertPart_end {seq : Nat} {data : String} : ∀ {parts : List (Nat × String)}, (∀ p ∈ parts, p.1 < seq) →
    Assembly.insertPart seq data parts = parts ++ [(seq, data)]
  | [], _ => rfl
  | (n, d) :: l, h => by
    have hn : n < seq := h (n, d) mem_cons_self
    rw [Assembly.insertPart, if_neg (by omega), insertPart_end (fun p hp => h p (mem_cons_of_mem _ hp))]
    rfl

theorem Assembly.Upto.push {a : Assembly} {n : Nat} {text c : List Char} (h : a.Upto n text) (last : Bool)
    (hc : ∀ x ∈ c, x.toNat < 128) (hlen : c.length ≤ chunkSize) (hn : n ≤ maxSeq)
    (hsum : text.length + c.length ≤ maxBase64Chars) :
    ∃ b : Assembly, a.push n last (String.ofList c) = .ok (b, last) ∧
      b.parts.flatMap (fun p => p.2.toList) = text ++ c ∧ (last = false → b.Upto (n + 1) (text ++ c)) := by
  have hsize := Json.utf8ByteSize_ascii hc
  have hascii : (String.ofList c).toList.all (fun c => decide (c.toNat < 128)) = true := by
    rw [String.toList_ofList, List.all_eq_true]
    exact fun x hx => decide_eq_true (hc x hx)
  have habsent : a.contains n = false := by
    unfold Assembly.contains
    rw [any_eq_false]
    intro p hp
    have := h.below p hp
    rw [beq_iff_eq]
    omega
  have hlater : a.parts.any (fun p => decide (n < p.1)) = false := by
    rw [any_eq_false]
    intro p hp
    have := h.below p hp
    rw [decide_eq_true_eq]
    omega
  have hinsert := @insertPart_end n (String.ofList c) a.parts h.below
  have htext : (a.parts ++ [(n, String.ofList c)]).flatMap (fun p => p.2.toList) = text ++ c := by
    rw [flatMap_append, h.text, flatMap_cons, flatMap_nil, append_nil, String.toList_ofList]
  refine ⟨⟨a.parts ++ [(n, String.ofList c)], if last then some n else none, text.length + c.length⟩, ?_, htext,
    fun hl => ⟨?_, ?_, ?_, ?_, htext⟩⟩
  · unfold Assembly.push
    rw [if_neg (by rw [hascii]; simp; omega), habsent, if_neg Bool.false_ne_true,
      if_neg (by rw [h.chars]; omega), h.last, if_neg (by simp), hlater, Bool.and_false,
      if_neg Bool.false_ne_true, hinsert, h.chars, hsize]
    simp only
    congr 2
    cases last with
    | false => rfl
    | true =>
      rw [length_append, h.length]
      exact beq_self_eq_true _
  · intro p hp
    rcases mem_append.1 hp with hp | hp
    · exact Nat.lt_succ_of_lt (h.below p hp)
    · rw [mem_singleton.1 hp]
      exact Nat.lt_succ_self _
  · rw [length_append, h.length]
    rfl
  · rw [hl]
    rfl
  · rw [length_append]

variable {body : List UInt8}

theorem oaiChunks_ends (id : String) : ∀ (chunks : List (List Char)) (n : Nat) (s : Progress)
    (text : List Char), chunks ≠ [] → n ≠ 0 → s.assembly.Upto n text →
    (∀ c ∈ chunks, (∀ x ∈ c, x.toNat < 128) ∧ c.length ≤ chunkSize) → n + chunks.length ≤ maxSeq + 1 →
    text.length + chunks.flatten.length ≤ maxBase64Chars → Base64.decodeStd (text ++ chunks.flatten) = some body →
    Exchange.Ends tunnelReader s (oaiChunks id n chunks) (.ok ⟨s.status, s.contentType, body⟩)
  | [], _, _, _, h, _, _, _, _, _, _ => absurd rfl h
  | [c], n, s, text, _, hn, hs, hc, hmax, hsum, hdecode => by
    rw [flatten_cons, flatten_nil, append_nil] at hsum hdecode
    obtain ⟨b, hpush, hb, -⟩ := hs.push true (hc c mem_cons_self).1 (hc c mem_cons_self).2
      (by rw [length_singleton] at hmax; omega) hsum
    show takeTunnel s (.oaiResponse id n true (String.ofList c) none none) = _
    unfold takeTunnel
    simp only [hn, false_and, if_false, hpush, Assembly.decode, hb, hdecode, okOr]
  | c :: d :: l, n, s, text, _, hn, hs, hc, hmax, hsum, hdecode => by
    rw [flatten_cons, length_append] at hsum
    rw [flatten_cons, ← append_assoc] at hdecode
    obtain ⟨b, hpush, -, hb⟩ := hs.push false (hc c mem_cons_self).1 (hc c mem_cons_self).2
      (by rw [length_cons] at hmax; omega) (by omega)
    have htake : takeTunnel s (.oaiResponse id n false (String.ofList c) none none) = .inl { s with assembly := b } := by
      unfold takeTunnel
      simp only [hn, false_and, if_false, hpush]
    have ih := oaiChunks_ends id (d :: l) (n + 1) { s with assembly := b } (text ++ c) (cons_ne_nil _ _)
      (Nat.succ_ne_zero _) (hb rfl) (fun x hx => hc x (mem_cons_of_mem _ hx))
      (by rw [length_cons] at hmax; omega) (by rw [length_append]; omega) hdecode
    cases l with
    | nil => exact ⟨_, htake, ih⟩
    | cons e l => exact ⟨_, htake, ih⟩

theorem mem_oaiChunks {id : String} : ∀ {chunks : List (List Char)} {n : Nat}, ∀ m ∈ oaiChunks id n chunks,
    ∃ k c last, m = .oaiResponse id k last (String.ofList c) none none ∧ c ∈ chunks ∧ k < n + chunks.length
  | [], _, m, h => by cases h
  | [c], n, m, h => by
    rw [mem_singleton.1 h]
    exact ⟨n, c, true, rfl, mem_cons_self, Nat.lt_succ_self _⟩
  | c :: d :: l, n, m, h => by
    rcases mem_cons.1 h with rfl | h
    · exact ⟨n, c, false, rfl, mem_cons_self, by rw [length_cons]; omega⟩
    · obtain ⟨k, x, last, rfl, hx, hk⟩ := mem_oaiChunks m h
      exact ⟨k, x, last, rfl, mem_cons_of_mem _ hx, by rw [length_cons]; omega⟩

theorem tunnelChunks_eq (hsize : body.length ≤ maxBytes) : ∃ c rest, tunnelChunks body = c :: rest ∧
    (c :: rest).flatten = Base64.encodeStd body ∧ (∀ d ∈ c :: rest, (∀ x ∈ d, x.toNat < 128) ∧ d.length ≤ chunkSize) ∧
    (c :: rest).length ≤ maxSeq := by
  unfold tunnelChunks
  have hflat := Chunks.chunks_flatten (show 0 < chunkSize by decide) (Base64.encodeStd body)
  have hascii : ∀ d ∈ Chunks.chunks chunkSize (Base64.encodeStd body), ∀ x ∈ d, x.toNat < 128 := by
    intro d hd x hx
    refine Base64.encodeStd_ascii body x ?_
    rw [← hflat]
    exact mem_flatten.2 ⟨d, hd, hx⟩
  have hcount : (Chunks.chunks chunkSize (Base64.encodeStd body)).length ≤ maxSeq := by
    rw [Chunks.length_chunks (by decide), Base64.length_encodeStd]
    unfold maxBytes maxBase64Chars at hsize
    unfold chunkSize maxSeq maxBase64Chars chunkSize
    omega
  cases hc : Chunks.chunks chunkSize (Base64.encodeStd body) with
  | nil =>
    rw [hc] at hflat
    refine ⟨[], [], rfl, hflat, fun d h => ?_, by decide⟩
    rw [mem_singleton.1 h]
    exact ⟨fun x hx => (not_mem_nil hx).elim, Nat.zero_le _⟩
  | cons c rest =>
    refine ⟨c, rest, rfl, by rw [← hc]; exact hflat, fun d h => ?_, by rw [← hc]; exact hcount⟩
    rw [← hc] at h
    exact ⟨hascii d h, Chunks.length_of_mem_chunks h⟩

variable {response : TunnelResponse}

theorem sendTunnelResponse_eq (id : String) {c : List Char} {rest : List (List Char)}
    (h : tunnelChunks response.body = c :: rest) : sendTunnelResponse id response =
      .oaiResponse id 0 rest.isEmpty (String.ofList c) (some response.status) (some response.contentType) :: oaiChunks id 1 rest := by
  unfold sendTunnelResponse
  rw [h]

theorem upto_default : Assembly.default.Upto 0 [] where
  below := fun _ hp => (not_mem_nil hp).elim
  length := rfl
  last := rfl
  chars := rfl
  text := rfl

theorem sendTunnelResponse_ends (id : String) (hsize : response.body.length ≤ maxBytes) :
    Exchange.Ends tunnelReader ⟨.default, 200, "application/json"⟩ (sendTunnelResponse id response) (.ok response) := by
  obtain ⟨c, rest, hchunks, hflat, hc, hcount⟩ := tunnelChunks_eq hsize
  have hdecode := Base64.decodeStd_encodeStd response.body
  have hlength := Base64.length_encodeStd response.body
  have hsum : (Base64.encodeStd response.body).length ≤ maxBase64Chars := by
    unfold maxBytes maxBase64Chars at hsize
    unfold maxBase64Chars
    omega
  rw [← hflat, flatten_cons] at hdecode
  rw [← hflat, flatten_cons, length_append] at hsum
  rw [sendTunnelResponse_eq id hchunks]
  obtain ⟨b, hpush, hb, hupto⟩ := upto_default.push rest.isEmpty (hc c mem_cons_self).1 (hc c mem_cons_self).2
    (Nat.zero_le _) (by rw [length_nil]; omega)
  rw [nil_append] at hb hupto
  cases rest with
  | nil =>
    rw [flatten_nil, append_nil] at hdecode
    show takeTunnel ⟨.default, 200, "application/json"⟩ (.oaiResponse id 0 true (String.ofList c) (some response.status)
      (some response.contentType)) = .inr (.ok response)
    rw [isEmpty_nil] at hpush
    unfold takeTunnel
    simp only [true_and, show Assembly.default.contains 0 = false from rfl, if_true, hpush, Assembly.decode,
      hb, hdecode, okOr, Option.getD_some]
  | cons d l =>
    rw [isEmpty_cons] at hpush hupto
    have htake : takeTunnel ⟨.default, 200, "application/json"⟩ (.oaiResponse id 0 false (String.ofList c)
        (some response.status) (some response.contentType)) = .inl ⟨b, response.status, response.contentType⟩ := by
      unfold takeTunnel
      simp only [true_and, show Assembly.default.contains 0 = false from rfl, if_true, hpush, Option.getD_some]
    have hends := oaiChunks_ends id (d :: l) 1 ⟨b, response.status, response.contentType⟩ c (cons_ne_nil _ _)
      Nat.one_ne_zero (hupto rfl) (fun x hx => hc x (mem_cons_of_mem _ hx))
      (by rw [length_cons] at hcount; omega) hsum hdecode
    cases l with
    | nil => exact ⟨_, htake, hends⟩
    | cons e l => exact ⟨_, htake, hends⟩

/-- Whether a chunk of a response is within its limits: its type is on the first one alone. -/
def oaiValid (response : TunnelResponse) : ProtocolMessage → Bool
  | .oaiResponse _ _ _ _ _ (some _) => decide (response.contentType.utf8ByteSize ≤ 256)
  | _ => true

theorem sendTunnelResponse_passes (ht : t.id ≠ "")
    (hsize : response.body.length ≤ maxBytes) (hstatus : response.status < 2 ^ 16) :
    ∀ m ∈ sendTunnelResponse t.id response, Passes one tunnelLimit t (oaiValid response m) m := by
  obtain ⟨c, rest, hchunks, -, hc, hcount⟩ := tunnelChunks_eq hsize
  have hdata : ∀ d ∈ c :: rest, decide ((String.ofList d).utf8ByteSize ≤ chunkSize) = true := by
    intro d hd
    rw [Json.utf8ByteSize_ascii (hc d hd).1]
    exact decide_eq_true (hc d hd).2
  rw [sendTunnelResponse_eq t.id hchunks]
  intro m hm
  rcases mem_cons.1 hm with rfl | hm
  · refine ⟨decode_oaiResponse one ht (by decide) (fun n hn => by cases hn; exact hstatus), ?_⟩
    show some (t.id, decide (_ ≤ chunkSize) && decide (0 ≤ maxSeq) && decide (_ ≤ 256)) = _
    rw [hdata c mem_cons_self]
    rfl
  · obtain ⟨k, d, last, rfl, hd, hk⟩ := mem_oaiChunks m hm
    rw [length_cons] at hcount
    have hseq : k ≤ maxSeq := by omega
    refine ⟨decode_oaiResponse one ht (Nat.lt_of_le_of_lt hseq (by decide)) nofun, ?_⟩
    show some (t.id, decide (_ ≤ chunkSize) && decide (k ≤ maxSeq) && true) = _
    rw [hdata d (mem_cons_of_mem _ hd), decide_eq_true hseq]
    rfl

theorem sendTunnelResponse_valid (id : String) (hsize : response.body.length ≤ maxBytes) :
    (sendTunnelResponse id response).all (oaiValid response) = true ↔ response.contentType.utf8ByteSize ≤ 256 := by
  obtain ⟨c, rest, hchunks, -, -, -⟩ := tunnelChunks_eq hsize
  rw [sendTunnelResponse_eq id hchunks, all_cons, Bool.and_eq_true, List.all_eq_true]
  constructor
  · exact fun h => of_decide_eq_true h.1
  · refine fun h => ⟨decide_eq_true h, fun m hm => ?_⟩
    obtain ⟨k, d, last, rfl, -, -⟩ := mem_oaiChunks m hm
    rfl

/-- **A tunnel response is returned as the provider made it exactly when its type fits, and no chunk finds sixty-four
others waiting.** -/
theorem tunnel_completes (ht : t.id ≠ "")
    (hsize : response.body.length ≤ maxBytes) (hstatus : response.status < 2 ^ 16) (polls : Nat → Nat) :
    (request one t (weave t.peer polls 0 (sendTunnelResponse t.id response) ++
      List.replicate (sendTunnelResponse t.id response).length .poll)).task = .inr (.ok response) ↔
      response.contentType.utf8ByteSize ≤ 256 ∧ noBurst tunnelQueue polls 0 0 (sendTunnelResponse t.id response).length = true := by
  rw [← sendTunnelResponse_valid t.id hsize]
  exact taken_iff one _ polls tunnelQueue (sendTunnelResponse_passes one ht hsize hstatus)
    (sendTunnelResponse_ends t.id hsize) nofun

/-- **A chunked response within its limits completes exactly when there is no burst**, whatever the interleaving of the
deliveries with the polls of the request's task. -/
theorem chunked_responses_complete (t : Ticket) (ht : t.id ≠ "") (polls : Nat → Nat) :
    (∀ audio : TtsAudio, audio.bytes.length ≤ maxAudioBytes → ((synthesize one t (weave t.peer polls 0 (sendTtsResponse t.id audio) ++
        List.replicate (sendTtsResponse t.id audio).length .poll)).task = .inr (.ok audio) ↔
        audio.mime ≠ "" ∧ audio.mime.utf8ByteSize ≤ 256 ∧ noBurst voiceQueue polls 0 0 (sendTtsResponse t.id audio).length = true)) ∧
    ∀ response : TunnelResponse, response.body.length ≤ maxBytes → response.status < 2 ^ 16 →
      ((request one t (weave t.peer polls 0 (sendTunnelResponse t.id response) ++
        List.replicate (sendTunnelResponse t.id response).length .poll)).task = .inr (.ok response) ↔
        response.contentType.utf8ByteSize ≤ 256 ∧ noBurst tunnelQueue polls 0 0 (sendTunnelResponse t.id response).length = true) :=
  ⟨fun _ hsize => speech_completes one ht hsize polls, fun _ hsize hstatus => tunnel_completes one ht hsize hstatus polls⟩

def silence (k : Nat) : TtsAudio := ⟨List.replicate (k * ttsChunkRawBytes) 0, "audio/mpeg"⟩

theorem size_silence {k : Nat} (h : k ≤ 3640) : (silence k).bytes.length ≤ maxAudioBytes := by
  unfold silence ttsChunkRawBytes maxAudioBytes
  rw [length_replicate]
  omega

theorem length_silence (id : String) (k : Nat) : (sendTtsResponse id (silence (k + 1))).length = k + 1 := by
  have hbytes : (silence (k + 1)).bytes.length = (k + 1) * ttsChunkRawBytes := length_replicate
  rw [length_sendTtsResponse id (ne_nil_of_length_pos (by rw [hbytes, ttsChunkRawBytes]; omega)), hbytes, ttsChunkRawBytes]
  omega

theorem chunked_responses_complete_paced : (synthesize (fun _ => false) ⟨"1", "p"⟩
    (weave "p" (fun _ => 1) 0 (sendTtsResponse "1" (silence 20)) ++
      List.replicate (sendTtsResponse "1" (silence 20)).length .poll)).task = .inr (.ok (silence 20)) := by
  refine ((chunked_responses_complete (fun _ => false) ⟨"1", "p"⟩ (by decide) (fun _ => 1)).1 (silence 20)
    (size_silence (by decide))).2 ⟨by decide, by decide, ?_⟩
  rw [length_silence]
  decide

/-- Nine chunks between two polls. -/
theorem burst_aborts : (synthesize (fun _ => false) ⟨"1", "p"⟩
    (weave "p" (fun _ => 0) 0 (sendTtsResponse "1" (silence 9)) ++
      List.replicate (sendTtsResponse "1" (silence 9)).length .poll)).task ≠ .inr (.ok (silence 9)) := by
  intro h
  have hfits := ((speech_completes (fun _ => false) (t := ⟨"1", "p"⟩) (by decide) (size_silence (by decide))
    (fun _ => 0)).1 h).2.2
  rw [length_silence] at hfits
  exact absurd hfits (by decide)

end Mistl.Ai
