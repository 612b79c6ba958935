import Mathlib.Order.Interval.Finset.Nat
import Mistl.Lib.Latest
import Mistl.NostrBatches
/-!
# NostrLeader — the leader's side of the live stream

`Sequencer` and its `Ring`: the leader numbers what it sends, and keeps the end of it for a follower that missed some.
-/
open List Mistl.Json Option

namespace Mistl.Nostr

def ringEntries : Nat := 4096

def ringBytes : Nat := 8 * 1024 * 1024

/-- Frames that fit a ring. -/
def Held (frames : List Bytes) : Prop := frames.length ≤ ringEntries ∧ (frames.map List.length).sum ≤ ringBytes

instance (frames : List Bytes) : Decidable (Held frames) := by
  unfold Held
  infer_instance

structure Ring where
  entries : List (Nat × Bytes)
  bytes : Nat
  counted : bytes = (entries.map (fun e => e.2.length)).sum

namespace Ring

def empty : Ring := ⟨[], 0, rfl⟩

/-- The loop of `push`: an empty ring has no bytes, so it stops there at the latest. -/
def evict : (entries : List (Nat × Bytes)) → (bytes : Nat) → bytes = (entries.map (fun e => e.2.length)).sum → Ring
  | [], bytes, h => ⟨[], bytes, h⟩
  | e :: entries, bytes, h =>
    if ringEntries < (e :: entries).length ∨ ringBytes < bytes then
      evict entries (bytes - e.2.length) (by rw [h, map_cons, List.sum_cons, Nat.add_sub_cancel_left])
    else ⟨e :: entries, bytes, h⟩

def push (r : Ring) (n : Nat) (bytes : Bytes) : Ring := evict (r.entries ++ [(n, bytes)]) (r.bytes + bytes.length) (by
    rw [r.counted, map_append, sum_append, map_singleton, sum_singleton])

def fetch (r : Ring) (start : Nat) : List Bytes :=
  if r.entries.head?.all (fun e => decide (start < e.1)) then []
  else ((r.entries.filter (fun e => decide (start ≤ e.1))).take maxPageEvents).map Prod.snd

end Ring

structure Sequencer where
  epoch : String
  last : Nat
  ring : Ring

def seqBytes (epoch : String) (n : Nat) (ev : Event) : Option Bytes :=
  eventEnvelope (Json.value (.obj [("t", .str tag), ("op", .str "seq"), ("ep", .str epoch), ("n", .int n), ("ev", ev.toJson)]))

namespace Sequencer

/-- `epoch` is the random word that `new` writes in hexadecimal. -/
def new (epoch : String) : Sequencer := ⟨epoch, 0, .empty⟩

def issue (s : Sequencer) (ev : Event) : Sequencer × Option Bytes :=
  if u64Max ≤ s.last then (s, none)
  else
    match seqBytes s.epoch (s.last + 1) ev with
    | none => (s, none)
    | some bytes => (⟨s.epoch, s.last + 1, s.ring.push (s.last + 1) bytes⟩, some bytes)

def fetch (s : Sequencer) (leading : Bool) (epoch : String) (start : Nat) : List Bytes :=
  if leading = true ∧ epoch = s.epoch then s.ring.fetch start else []

/-- The sequencer after events, and the frames it sent of them. -/
def run (s : Sequencer) : List Event → Sequencer × List Bytes
  | [] => (s, [])
  | ev :: events =>
    let r := run (s.issue ev).1 events
    (r.1, (s.issue ev).2.toList ++ r.2)

end Sequencer

/-! ## The ring holds the end of what was sent -/

def numbered : Nat → List Bytes → List (Nat × Bytes)
  | _, [] => []
  | n, bytes :: frames => (n, bytes) :: numbered (n + 1) frames

theorem numbered_snd (frames : List Bytes) : ∀ n, (numbered n frames).map Prod.snd = frames := by
  induction frames with
  | nil => exact fun _ => rfl
  | cons bytes frames ih => exact fun n => congrArg (bytes :: ·) (ih (n + 1))

theorem numbered_append (m : List Bytes) : ∀ (l : List Bytes) (n : Nat), numbered n (l ++ m) = numbered n l ++ numbered (n + l.length) m
  | [], n => rfl
  | bytes :: l, n => by
    rw [cons_append, numbered, numbered, numbered_append m l (n + 1), cons_append, length_cons]
    rw [Nat.add_right_comm, Nat.add_assoc]

theorem numbered_drop (n : Nat) (frames : List Bytes) (k : Nat) : (numbered n frames).drop k = numbered (n + k) (frames.drop k) := by
  induction k generalizing n frames with
  | zero => rfl
  | succ k ih =>
    cases frames with
    | nil => rfl
    | cons bytes frames => rw [numbered, drop_succ_cons, drop_succ_cons, ih, Nat.add_right_comm, Nat.add_assoc]

/-- The frames from a number on are those behind as many as it is past the first. -/
theorem numbered_filter (start : Nat) : ∀ (frames : List Bytes) (n : Nat),
    ((numbered n frames).filter (fun e => decide (start ≤ e.1))).map Prod.snd = frames.drop (start - n)
  | [], n => by rw [drop_nil]; rfl
  | bytes :: frames, n => by
    have ih := numbered_filter start frames (n + 1)
    rw [numbered, filter_cons]
    by_cases hn : start ≤ n
    · rw [if_pos (decide_eq_true hn), map_cons, ih, show start - n = 0 by omega, show start - (n + 1) = 0 by omega]
      rfl
    · rw [if_neg (by simpa using hn), ih, show start - n = start - (n + 1) + 1 by omega, drop_succ_cons]

abbrev Ring.Fits (entries : List (Nat × Bytes)) : Prop := Held (entries.map Prod.snd)

theorem Held.start {l m : List Bytes} (h : Held (l ++ m)) : Held l := by
  unfold Held at h ⊢
  rw [length_append, map_append, sum_append] at h
  omega

theorem Held.tail {bytes : Bytes} {l : List Bytes} (h : Held (bytes :: l)) : Held l := by
  unfold Held at h ⊢
  rw [length_cons, map_cons, List.sum_cons] at h
  omega

theorem Ring.evict_entries : ∀ (entries : List (Nat × Bytes)) (bytes : Nat)
    (h : bytes = (entries.map (fun e => e.2.length)).sum), (evict entries bytes h).entries = latest Fits entries
  | [], _, _ => rfl
  | e :: entries, bytes, h => by
    have hfits : Fits (e :: entries) ↔ ¬(ringEntries < (e :: entries).length ∨ ringBytes < bytes) := by
      unfold Fits Held
      rw [length_map, List.map_map, h]
      exact ⟨fun hf => by rw [not_or]; exact ⟨hf.1.not_gt, hf.2.not_gt⟩, fun hn => by
        rw [not_or] at hn; exact ⟨Nat.le_of_not_lt hn.1, Nat.le_of_not_lt hn.2⟩⟩
    rw [evict, latest]
    by_cases hf : Fits (e :: entries)
    · rw [if_neg (hfits.1 hf), if_pos hf]
    · rw [if_pos (not_not.1 (fun hn => hf (hfits.2 hn))), if_neg hf]
      exact evict_entries entries _ _

namespace Sequencer

/-- What a sequencer knows of the frames it sent. -/
structure Sent (s : Sequencer) (sent : List Bytes) : Prop where
  last : s.last = sent.length
  word : s.last ≤ u64Max
  entries : s.ring.entries = latest Ring.Fits (numbered 1 sent)

variable {s : Sequencer} {sent : List Bytes}

theorem Sent.issue (h : s.Sent sent) (ev : Event) : (s.issue ev).1.epoch = s.epoch ∧
    (s.issue ev).1.Sent (sent ++ (s.issue ev).2.toList) ∧
    ∀ bytes ∈ (s.issue ev).2, seqBytes s.epoch (sent.length + 1) ev = some bytes := by
  unfold Sequencer.issue
  split
  · exact ⟨rfl, by rwa [toList_none, append_nil], nofun⟩
  · rename_i hword
    split
    · exact ⟨rfl, by rwa [toList_none, append_nil], nofun⟩
    · rename_i bytes hbytes
      refine ⟨rfl, ⟨?_, Nat.lt_of_not_le hword, ?_⟩, ?_⟩
      · rw [h.last, toList_some, length_append, length_singleton]
      · show (s.ring.push (s.last + 1) bytes).entries = latest Ring.Fits (numbered 1 (sent ++ [bytes]))
        rw [Ring.push, Ring.evict_entries, h.entries, h.last, numbered_append, Nat.add_comm 1]
        exact latest_append Ring.Fits (fun l m hf => Held.start (by rwa [← map_append])) _ _
      · rintro _ ⟨⟩
        rw [← h.last]
        exact hbytes

theorem Sent.run (events : List Event) : ∀ {s : Sequencer} {sent : List Bytes}, s.Sent sent →
    (s.run events).1.epoch = s.epoch ∧ (s.run events).1.Sent (sent ++ (s.run events).2) ∧
    ∀ i bytes, (s.run events).2[i]? = some bytes → ∃ ev ∈ events, seqBytes s.epoch (sent.length + i + 1) ev = some bytes := by
  induction events with
  | nil => exact fun h => ⟨rfl, by rwa [Sequencer.run, append_nil], nofun⟩
  | cons ev events ih =>
    intro s sent h
    obtain ⟨hepoch, hsent, hbytes⟩ := h.issue ev
    obtain ⟨hepoch', hsent', hbytes'⟩ := ih hsent
    refine ⟨hepoch'.trans hepoch, by rwa [Sequencer.run, ← append_assoc], fun i bytes hi => ?_⟩
    rw [Sequencer.run] at hi
    cases hissue : (s.issue ev).2 with
    | none =>
      rw [hissue] at hi hbytes'
      obtain ⟨ev', hmem, heq⟩ := hbytes' i bytes hi
      rw [toList_none, append_nil, hepoch] at heq
      exact ⟨ev', mem_cons_of_mem _ hmem, heq⟩
    | some first =>
      rw [hissue] at hi hbytes'
      cases i with
      | zero =>
        rw [← Option.some.inj hi]
        exact ⟨ev, mem_cons_self, hbytes first hissue⟩
      | succ i =>
        obtain ⟨ev', hmem, heq⟩ := hbytes' i bytes hi
        rw [toList_some, length_append, length_singleton, hepoch, Nat.add_right_comm _ 1] at heq
        exact ⟨ev', mem_cons_of_mem _ hmem, heq⟩

theorem new_sent (epoch : String) : (new epoch).Sent [] := ⟨rfl, Nat.zero_le _, rfl⟩

theorem Sent.fetch (h : s.Sent sent) (start : Nat) : s.ring.fetch start =
    if 0 < start ∧ Held (sent.drop (start - 1)) then (sent.drop (start - 1)).take maxPageEvents else [] := by
  obtain ⟨k, hentries, hheld⟩ : ∃ k, s.ring.entries = numbered (1 + k) (sent.drop k) ∧ ∀ m, Held (sent.drop m) ↔ k ≤ m := by
    refine ⟨(numbered 1 sent).length - s.ring.entries.length, ?_, fun m => ?_⟩
    · rw [← numbered_drop, ← suffix_iff_eq_drop, h.entries]
      exact latest_suffix Ring.Fits _
    · have hiff := fits_drop_iff Ring.Fits ⟨Nat.zero_le _, Nat.zero_le _⟩ (fun a l hf => Held.tail hf) (numbered 1 sent) m
      rwa [Ring.Fits, numbered_drop, numbered_snd, ← h.entries] at hiff
  rw [Ring.fetch, hentries]
  cases hd : sent.drop k with
  | nil =>
    show [] = _
    split
    · rename_i hs
      rw [← Nat.add_sub_cancel' ((hheld _).1 hs.2), ← drop_drop, hd, drop_nil, take_nil]
    · rfl
  | cons bytes frames =>
    rw [← hd, map_take, numbered_filter, drop_drop, hd, numbered, head?_cons, all_some]
    by_cases hs : start < 1 + k
    · have hlost : ¬Held (sent.drop (start - 1)) ∨ start = 0 := by
        rw [hheld]
        omega
      rw [if_pos (decide_eq_true hs), if_neg (fun hh => hlost.elim (fun hn => hn hh.2) (fun hz => hh.1.ne' hz))]
    · have hkept : 0 < start ∧ Held (sent.drop (start - 1)) := by
        rw [hheld]
        omega
      rw [if_neg (by simpa using hs), if_pos hkept, show k + (start - (1 + k)) = start - 1 by omega]

/-- **The answer to a fetch**: the frames sent from the number asked for on, a page of them, as long as all of them still
fit the ring; nothing to another epoch, or when the room has another leader. -/
theorem fetch_answers (epoch : String) (events : List Event) (leading : Bool) (asked : String) (start : Nat) :
    ((new epoch).run events).1.fetch leading asked start =
      if leading = true ∧ asked = epoch ∧ 0 < start ∧ Held (((new epoch).run events).2.drop (start - 1)) then
        (((new epoch).run events).2.drop (start - 1)).take maxPageEvents
      else [] := by
  obtain ⟨hepoch, hsent, -⟩ := (new_sent epoch).run events
  simp only [Sequencer.fetch, hepoch, hsent.fetch start, ite_and]
  rfl

end Sequencer

/-! ## The frames, and the gap they mend -/

def seqValue (epoch : String) (n : Nat) (ev : Event) : Json :=
  .obj [("ep", .str epoch), ("ev", readEvent ev), ("n", .int n), ("op", .str "seq"), ("t", .str tag)]

theorem write_seqValue (epoch : String) (n : Nat) (ev : Event) : (seqValue epoch n ev).write =
    ("\x7b\"ep\":".toList ++ writeString epoch ++ ",\"ev\":".toList ++ (readEvent ev).write ++ ",\"n\":".toList ++
      writeInt n ++ ",\"op\":\"seq\",\"t\":\"".toList) ++ tag.toList ++ "\"\x7d".toList := by
  simp only [seqValue, Json.write, writeFields, append_assoc, cons_append]
  rfl

theorem decode_seqBytes {epoch : String} (hepoch : Wire.readEpoch (.obj [("ep", .str epoch)]) = some epoch) {n : Nat}
    (hn : 0 < n) (hword : n ≤ u64Max) {ev : Event} (hev : ev.Shaped) {bytes : Bytes}
    (hbytes : seqBytes epoch n ev = some bytes) : Wire.decode bytes = some (.sequence epoch n (readEvent ev)) := by
  have hvalue : Json.value (.obj [("t", .str tag), ("op", .str "seq"), ("ep", .str epoch), ("n", .int n),
      ("ev", ev.toJson)]) = seqValue epoch n ev := by
    rw [seqValue]
    simp +decide only [valueFields, Json.value, setField, if_false, if_true, value_toJson]
  have hagain : (seqValue epoch n ev).value = seqValue epoch n ev := by
    simp +decide only [seqValue, readEvent, Json.value, valueFields, setField, if_false, value_tagsJson]
  have hlt : n < 2 ^ 64 := Nat.lt_succ_of_le hword
  have hint : Integral (seqValue epoch n ev) := by
    have hevent := hev.integral
    simp only [Event.toJson, seqValue, readEvent, Integral, IntegralFields, true_and, and_true] at hevent ⊢
    exact ⟨hevent, by omega⟩
  have hnest : nesting (seqValue epoch n ev) < maxDepth := by
    have hevent := Event.nesting_toJson ev
    simp only [Event.toJson, seqValue, readEvent, nesting, nestingFields, maxDepth] at hevent ⊢
    omega
  rw [seqBytes, hvalue, eventEnvelope] at hbytes
  split at hbytes
  · cases hbytes
  · rename_i hlen
    rw [← Option.some.inj hbytes]
    have hmesh : looksLikeMesh (toVec (seqValue epoch n ev)) = true := by
      rw [looksLikeMesh, Bool.and_eq_true, decide_eq_true_eq, decide_eq_true_eq]
      refine ⟨(Nat.le_of_not_lt hlen).trans (by decide), ?_⟩
      rw [toVec, write_seqValue, utf8_append, utf8_append]
      exact ⟨_, _, rfl⟩
    have hof : valueOf (toVec (seqValue epoch n ev)) = some (seqValue epoch n ev) := by
      rw [valueOf, fromSlice_toVec _ hint.repr hnest, map_some, hagain]
    rw [Wire.decode_obj hmesh hof rfl rfl rfl rfl rfl]
    have hnumber : Wire.readPositive (seqValue epoch n ev) "n" = some n := by
      show Option.filter _ (asUnsigned (2 ^ 64) (.int n)) = _
      rw [asUnsigned, if_pos ⟨Int.natCast_nonneg _, by exact hlt⟩, Int.toNat_natCast, filter_some_pos (by simpa using hn.ne')]
    show (do
      let n' ← Wire.readPositive (seqValue epoch n ev) "n"
      some (Wire.sequence (← Wire.readEpoch (seqValue epoch n ev)) n' (← (seqValue epoch n ev).get? "ev"))) = _
    rw [hnumber, show Wire.readEpoch (seqValue epoch n ev) = some epoch from hepoch]
    rfl

/-- Every frame sent is read as the next number of the epoch, with an event that was given. -/
theorem Sequencer.decode_sent {epoch : String} (hepoch : Wire.readEpoch (.obj [("ep", .str epoch)]) = some epoch)
    {events : List Event} (hshaped : ∀ ev ∈ events, ev.Shaped) {i : Nat} {bytes : Bytes}
    (hi : ((new epoch).run events).2[i]? = some bytes) :
    ∃ ev ∈ events, Wire.decode bytes = some (.sequence epoch (i + 1) (readEvent ev)) := by
  obtain ⟨-, hlast, hframes⟩ := (new_sent epoch).run events
  obtain ⟨ev, hev, hseq⟩ := hframes i bytes hi
  obtain ⟨hlt, -⟩ := List.getElem?_eq_some_iff.1 hi
  have hword : i + 1 ≤ u64Max := (Nat.succ_le_of_lt hlt).trans (hlast.last ▸ hlast.word)
  rw [length_nil, Nat.zero_add] at hseq
  exact ⟨ev, hev, decode_seqBytes hepoch (Nat.succ_pos i) hword (hshaped ev hev) hseq⟩

namespace PendingFetch

/-- A fetch of the gap from `start` to `stop` knows what was received of it. -/
structure Mends (start stop : Nat) (received : List Nat) (f : PendingFetch) : Prop where
  stops : f.end_ = stop
  begun : start ≤ f.next
  left : f.next ≤ stop
  unseen : f.next ∉ f.seen
  seen : ∀ k ∈ f.seen, start ≤ k ∧ k ≤ stop
  heard : ∀ k ∈ received, start ≤ k → k ≤ stop → k < f.next ∨ k ∈ f.seen

variable {start stop : Nat} {received : List Nat} {f : PendingFetch}

theorem Mends.room (h : f.Mends start stop received) (hpage : stop < start + maxPageEvents) : f.seen.card < maxPageEvents := by
  have hsub : insert f.next f.seen ⊆ Finset.Icc start stop := by
    intro k hk
    rcases Finset.mem_insert.1 hk with rfl | hk
    · exact Finset.mem_Icc.2 ⟨h.begun, h.left⟩
    · exact Finset.mem_Icc.2 (h.seen k hk)
  have hcard := Finset.card_le_card hsub
  rw [Finset.card_insert_of_notMem h.unseen, Nat.card_Icc] at hcard
  omega

theorem Mends.message (h : f.Mends start stop received) (hpage : stop < start + maxPageEvents) {next n : Nat}
    {f' : PendingFetch} (hf' : f.onSeq next n = some f') : f'.resync = true ∨ f'.Mends start stop (n :: received) := by
  unfold onSeq at hf'
  simp only [see_end, h.stops] at hf'
  split at hf'
  · cases hf'
  · rename_i hopen
    rw [← Option.some.inj hf']
    by_cases hresync : (f.resync || decide (next < n)) = true
    · exact .inl hresync
    · rw [Bool.not_eq_true] at hresync
      have hnext := f.see_next_le n
      refine .inr ⟨rfl, h.begun.trans hnext, Nat.le_of_not_lt (fun hlt => hopen ⟨hlt, hresync⟩), ?_, fun k hk => ?_, ?_⟩
      · unfold see
        split
        · exact (advance_spec _ _ _ le_rfl).2.1
        · exact h.unseen
      · by_cases htakes : f.Takes n
        · rcases f.see_seen n hk with rfl | hk
          · exact ⟨h.begun.trans htakes.1, htakes.2.1.trans_eq h.stops⟩
          · exact h.seen k hk
        · exact h.seen k (by rwa [see, if_neg htakes] at hk)
      · intro k hk hstart hstop
        by_cases hlt : k < (f.see n).next
        · exact .inl hlt
        · refine .inr (f.see_keeps n ?_ (Nat.le_of_not_lt hlt))
          rcases mem_cons.1 hk with rfl | hk
          · exact .inr ⟨rfl, by omega, hstop.trans_eq h.stops.symm, h.room hpage⟩
          · exact .inl ((h.heard k hk hstart hstop).resolve_left (by omega))

end PendingFetch

namespace Tracker

/-- While the gap before `n` is being filled: a fetch in flight is that of the gap, or it is marked for a sync, or it is
of a later gap. -/
structure Mending (epoch : String) (start n : Nat) (received : List Nat) (t : Tracker) : Prop where
  epoch : t.epoch = some epoch
  past : n ≤ t.next
  fetch : ∀ f, t.fetch = some f → f.resync = true ∨ n ≤ f.next ∨ f.Mends start (n - 1) received

variable {epoch : String} {start n : Nat} {received : List Nat} {t : Tracker}

theorem Mending.message (h : Mending epoch start n received t) (hword : n ≤ u64Max) (hpage : n - 1 < start + maxPageEvents)
    (k now : Nat) : Mending epoch start n (k :: received) (t.onSeq epoch k now).1 := by
  have hkept : ∀ f, t.fetch.bind (fun f => f.onSeq t.next k) = some f →
      f.resync = true ∨ n ≤ f.next ∨ f.Mends start (n - 1) (k :: received) := by
    intro f' hf'
    obtain ⟨f, hf, hf'⟩ := bind_eq_some_iff.1 hf'
    rcases f.onSeq_cases k t.next with ⟨hnone, -⟩ | hsome
    · rw [hnone] at hf'
      cases hf'
    · rcases h.fetch f hf with hresync | hlater | hmends
      · rw [← Option.some.inj (hsome.symm.trans hf')]
        exact .inl (by rw [hresync, Bool.true_or])
      · rw [← Option.some.inj (hsome.symm.trans hf')]
        exact .inr (.inl (hlater.trans (f.see_next_le k)))
      · exact (hmends.message hpage hf').imp_right .inr
  unfold onSeq
  rw [if_neg (not_not.2 h.epoch)]
  have hpast : ∀ k, t.next ≤ k → n ≤ satAdd k 1 := fun k hk => Nat.le_min.2 ⟨(h.past.trans hk).trans (Nat.le_succ k), hword⟩
  simp only
  split
  · exact ⟨h.epoch, h.past, hkept⟩
  · rename_i hlt
    split
    · refine ⟨h.epoch, hpast k (Nat.le_of_not_lt hlt), ?_⟩
      rintro _ ⟨⟩
      exact .inr (.inl h.past)
    · exact ⟨h.epoch, hpast k (Nat.le_of_not_lt hlt), hkept⟩

theorem Mending.feed (hword : n ≤ u64Max) (hpage : n - 1 < start + maxPageEvents) : ∀ (turns : List Turn)
    {received : List Nat} {t : Tracker}, Mending epoch start n received t → t.Quiet epoch turns →
    Mending epoch start n ((numbers turns).reverse ++ received) (t.feed epoch turns)
  | [], _, _, h, _ => h
  | .message k now :: turns, received, t, h, hquiet => by
    rw [numbers, reverse_cons, append_assoc]
    exact Mending.feed hword hpage turns (h.message hword hpage k now) hquiet
  | .poll now :: turns, received, t, h, hquiet => by
    rw [feed_poll hquiet.1]
    exact Mending.feed hword hpage turns h hquiet.2

/-- **A gap is mended**: a follower that misses at most a page of what its leader still holds asks for it; and when the
answer arrives before the timeout, in any order and among any other messages of the epoch, a fetch still in flight is
marked for a sync, or it is of a later gap. -/
theorem gap_mended {epoch : String} (hepoch : Wire.readEpoch (.obj [("ep", .str epoch)]) = some epoch)
    {events : List Event} (hshaped : ∀ ev ∈ events, ev.Shaped) {t : Tracker} (ht : t.epoch = some epoch)
    (hfetch : t.fetch = none) (hnext : 0 < t.next) {n : Nat} (hgap : t.next < n)
    (hsent : n ≤ ((Sequencer.new epoch).run events).2.length) (hpage : n - t.next ≤ maxPageEvents)
    (hheld : Held (((Sequencer.new epoch).run events).2.drop (t.next - 1))) (asked : Nat) {turns : List Turn}
    (hquiet : (t.onSeq epoch n asked).1.Quiet epoch turns)
    (hanswer : ∀ bytes ∈ ((Sequencer.new epoch).run events).1.fetch true epoch t.next, ∀ k ev,
      Wire.decode bytes = some (.sequence epoch k ev) → k ∈ numbers turns) :
    (t.onSeq epoch n asked).2 = .fetch t.next ∧
    ∀ f, ((t.onSeq epoch n asked).1.feed epoch turns).fetch = some f → f.resync = true ∨ n ≤ f.next := by
  obtain ⟨-, hlast, -⟩ := (Sequencer.new_sent epoch).run events
  have hword : ((Sequencer.new epoch).run events).2.length ≤ u64Max := hlast.last ▸ hlast.word
  have hopen : t.onSeq epoch n asked =
      (⟨t.epoch, satAdd n 1, n, some ⟨t.next, n - 1, ∅, asked + fetchTimeout, false⟩⟩, .fetch t.next) := by
    rw [onSeq, if_neg (not_not.2 ht), hfetch]
    simp only [bind_none]
    rw [if_neg (not_lt.2 hgap.le), if_pos ⟨hgap, trivial⟩]
  have hnumbers : ∀ k, t.next ≤ k → k ≤ n - 1 → k ∈ numbers turns := by
    intro k hk hkn
    obtain ⟨bytes, hbytes⟩ : ∃ bytes, ((Sequencer.new epoch).run events).2[k - 1]? = some bytes := ⟨_, getElem?_eq_getElem (by omega)⟩
    obtain ⟨ev, -, hdecode⟩ := Sequencer.decode_sent hepoch hshaped hbytes
    rw [Nat.sub_add_cancel (hnext.trans_le hk)] at hdecode
    refine hanswer bytes ?_ k _ hdecode
    rw [Sequencer.fetch_answers, if_pos ⟨rfl, rfl, hnext, hheld⟩]
    refine mem_iff_getElem?.2 ⟨k - t.next, ?_⟩
    rw [getElem?_take_of_lt (by omega), getElem?_drop, show t.next - 1 + (k - t.next) = k - 1 by omega, hbytes]
  rw [hopen] at hquiet ⊢
  refine ⟨rfl, fun f hf => ?_⟩
  have hstart : Mending epoch t.next n []
      ⟨t.epoch, satAdd n 1, n, some ⟨t.next, n - 1, ∅, asked + fetchTimeout, false⟩⟩ := by
    refine ⟨ht, Nat.le_min.2 ⟨Nat.le_succ n, by omega⟩, ?_⟩
    rintro _ ⟨⟩
    exact .inr (.inr ⟨rfl, le_rfl, Nat.le_sub_one_of_lt hgap, Finset.notMem_empty _,
      fun k hk => absurd hk (Finset.notMem_empty k), fun k hk => absurd hk not_mem_nil⟩)
  rcases (hstart.feed (by omega) (by omega) turns hquiet).fetch f hf with hresync | hlater | hmends
  · exact .inl hresync
  · exact .inr hlater
  · have hheard := hnumbers f.next hmends.begun hmends.left
    rw [append_nil] at hmends
    rcases hmends.heard f.next (mem_reverse.2 hheard) hmends.begun hmends.left with hlt | hseen
    · exact absurd hlt (lt_irrefl _)
    · exact absurd hseen hmends.unseen

/-- The second of three frames is missed; the answer comes out of order. -/
theorem gap_mended_second :
    (({ epoch := some "0123456789abcdef", next := 2, last := 1 } : Tracker).onSeq "0123456789abcdef" 3 0).2 = .fetch 2 ∧
    ∀ f, ((({ epoch := some "0123456789abcdef", next := 2, last := 1 } : Tracker).onSeq "0123456789abcdef" 3 0).1.feed
      "0123456789abcdef" [.message 3 1, .message 1 2, .message 2 3]).fetch = some f → f.resync = true ∨ 3 ≤ f.next := by
  have hepoch : Wire.readEpoch (.obj [("ep", .str "0123456789abcdef")]) = some "0123456789abcdef" := by decide +kernel
  have hlength : ((Sequencer.new "0123456789abcdef").run (List.replicate 3 (noteEvent 'b'))).2.length = 3 := by decide +kernel
  have hshaped : ∀ ev ∈ List.replicate 3 (noteEvent 'b'), ev.Shaped := fun ev hev => by
    rw [eq_of_mem_replicate hev]
    exact (note_valid 'b' (by decide)).1
  refine gap_mended hepoch hshaped rfl rfl (by decide) (by decide) hlength.ge (by decide) (by decide +kernel) 0 trivial
    (fun bytes hbytes k ev hdecode => ?_)
  rw [Sequencer.fetch_answers, if_pos (by decide +kernel)] at hbytes
  obtain ⟨i, hi⟩ := mem_iff_getElem?.1 (mem_of_mem_drop (mem_of_mem_take hbytes))
  obtain ⟨ev', -, hdecode'⟩ := Sequencer.decode_sent hepoch hshaped hi
  obtain ⟨hlt, -⟩ := List.getElem?_eq_some_iff.1 hi
  have hk : i + 1 = k := (Wire.sequence.inj (Option.some.inj (hdecode'.symm.trans hdecode))).2.1
  simp only [numbers, mem_cons]
  omega

end Tracker

end Mistl.Nostr
