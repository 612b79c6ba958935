import Mistl.SnapshotTransfers
import Mathlib.Data.Set.Function
/-!
# SnapshotExact — a transfer is exact under any network

Honest nodes run `SnapshotTransfers` over a network that may lose, repeat and reorder what they send, beside peers
that send anything.
-/
open List Mistl.Table Option

namespace Mistl.Escrow

variable {L : Type} (C : Crates)

structure Describes (offer : Offer) (snapshot : RaftSnapshot) : Prop where
  index : offer.index = snapshot.lastIncludedIndex
  term : offer.snapshotTerm = snapshot.lastIncludedTerm
  sha : offer.sha = C.digest snapshot.data
  size : offer.size = snapshot.data.length
  membership : offer.membership = snapshot.membership

/-- **The invariant of a sender**: every outgoing offer describes the shared snapshot, which its ticket announced. -/
structure Sends (D : Set (List UInt8)) (announced : String → RaftSnapshot → Prop) (t : SnapshotTransfers L) : Prop where
  shared : ∀ sh, t.shared = some sh → sh.sha = C.digest sh.snapshot.data ∧ sh.snapshot.data ∈ D
  offers : ∀ peer out, t.outgoing.get peer = some out → ∃ sh, t.shared = some sh ∧
    Describes C out.offer sh.snapshot ∧ announced out.offer.ticket sh.snapshot

/-- **The invariant of a receiver**: whole chunks, short of the offered size; from an honest peer, a prefix of the
snapshot the offer announced. -/
def Receives (genuine : String → Offer → RaftSnapshot → Prop) (honest : String → Prop) (t : SnapshotTransfers L) : Prop :=
  ∀ inc, t.incoming = some inc → inc.bytes.length % chunkBytes = 0 ∧ inc.bytes.length < inc.offer.size ∧
    (honest inc.peer → ∃ S, genuine inc.peer inc.offer S ∧ inc.bytes = S.data.take inc.bytes.length)

variable {C} {D : Set (List UInt8)} {announced : String → RaftSnapshot → Prop} {t : SnapshotTransfers L}

section

variable (h : Sends C D announced t)

include h

theorem Sends.mono {announced' : String → RaftSnapshot → Prop}
    (hm : ∀ k S, announced k S → announced' k S) : Sends C D announced' t := by
  refine ⟨h.shared, fun peer out ho => ?_⟩
  obtain ⟨sh, h1, h2, h3⟩ := h.offers peer out ho
  exact ⟨sh, h1, h2, hm _ _ h3⟩

/-! ## The sender's operations -/

theorem Sends.shrink {outgoing : Table String (Outgoing L)} (incoming : Option Incoming)
    (hsub : ∀ peer out, outgoing.get peer = some out → t.outgoing.get peer = some out) :
    Sends C D announced ⟨outgoing, if outgoing.size = 0 then none else t.shared, incoming⟩ where
  shared := by
    intro sh hsh
    split at hsh
    · cases hsh
    · exact h.shared sh hsh
  offers := by
    intro peer out ho
    rw [if_neg (size_ne_zero ho)]
    exact h.offers peer out (hsub peer out ho)

theorem Sends.expire (now : Nat) : Sends C D announced (t.expire now) := by
  refine h.shrink _ (fun peer out ho => ?_)
  rw [Table.get_filter, filter_eq_some_iff] at ho
  exact ho.1

theorem Sends.acknowledged (peer : String) (index : Nat) : Sends C D announced (t.acknowledged peer index) := by
  refine h.shrink _ (fun p out ho => ?_)
  split at ho
  · exact (of_get_erase ho).2
  · exact ho

end

variable {out : Outgoing L}

theorem Sends.insert (h : Sends C D announced t) {sh : Shared} (hsh : t.shared = some sh) (peer : String)
    (hd : Describes C out.offer sh.snapshot) (ha : announced out.offer.ticket sh.snapshot) :
    Sends C D announced { t with outgoing := t.outgoing.insert peer out } where
  shared := h.shared
  offers := by
    intro p o ho
    rcases of_get_insert ho with ⟨-, rfl⟩ | ⟨-, ho⟩
    · exact ⟨sh, hsh, hd, ha⟩
    · exact h.offers p o ho

def Announce (announced : String → RaftSnapshot → Prop) (ticket : String) (S : RaftSnapshot) :
    String → RaftSnapshot → Prop := fun k T => announced k T ∨ (k = ticket ∧ T = S)

theorem newOffer_sha (h : Sends C D announced t) (term : Nat) (snapshot : RaftSnapshot) (ptrEq : Bool) (ticket : String)
    (hptr : ptrEq = true → ∀ sh, t.shared = some sh → sh.snapshot.data = snapshot.data) :
    (t.newOffer C term snapshot ptrEq ticket).sha = C.digest snapshot.data := by
  unfold SnapshotTransfers.newOffer
  split
  · rename_i sh hsh
    split
    · rename_i hp
      rw [Bool.and_eq_true] at hp
      rw [(h.shared sh hsh).1, hptr hp.1 sh hsh]
    · rfl
  · rfl

theorem describes_newOffer (h : Sends C D announced t) (term : Nat) (snapshot : RaftSnapshot) (ptrEq : Bool)
    (ticket : String) (hptr : ptrEq = true → ∀ sh, t.shared = some sh → sh.snapshot.data = snapshot.data) :
    Describes C (t.newOffer C term snapshot ptrEq ticket) snapshot :=
  ⟨rfl, rfl, newOffer_sha h term snapshot ptrEq ticket hptr, rfl, rfl⟩

section

variable (hD : Set.InjOn C.digest D)

include hD

section

variable (h : Sends C D announced t)

include h

section

variable {offer : Offer} {snapshot : RaftSnapshot} (hd : Describes C offer snapshot)

include hd

/-- **A payload that announces an offer of a snapshot is that snapshot**, digests being apart on the data in use. -/
theorem snapshot_of_announces (hdata : snapshot.data ∈ D)
    (ha : t.announces offer = true) : ∃ sh, t.shared = some sh ∧ sh.snapshot = snapshot := by
  unfold SnapshotTransfers.announces at ha
  rw [Option.any_eq_true] at ha
  obtain ⟨sh, hsh, hall⟩ := ha
  simp only [Bool.and_eq_true, decide_eq_true_eq] at hall
  obtain ⟨⟨⟨h1, h2⟩, h3⟩, h4⟩ := hall
  have hsd := h.shared sh hsh
  have hdat : sh.snapshot.data = snapshot.data := hD hsd.2 hdata (by rw [← hsd.1, h4, hd.sha])
  refine ⟨sh, hsh, ?_⟩
  have e1 := h1.trans hd.index
  have e2 := h2.trans hd.term
  have e3 := h3.trans hd.membership
  cases hS : sh.snapshot with
  | mk i tm d m =>
    cases snapshot with
    | mk i' tm' d' m' =>
      rw [hS] at e1 e2 e3 hdat
      subst e1 e2 e3 hdat
      rfl

theorem Sends.share 
    (hdata : snapshot.data ∈ D)
    (hsame : ¬ (t.announces offer = false ∧ t.outgoing.size ≠ 0)) :
    ∃ sh, (t.share offer snapshot).shared = some sh ∧ sh.snapshot = snapshot ∧ Sends C D announced (t.share offer snapshot) := by
  unfold SnapshotTransfers.share
  split
  · rename_i ha
    obtain ⟨sh, hsh, hS⟩ := snapshot_of_announces hD h hd hdata ha
    exact ⟨sh, hsh, hS, h⟩
  · rename_i ha
    refine ⟨_, rfl, rfl, fun sh hsh => ?_, fun p out ho => ?_⟩
    · cases hsh
      exact ⟨hd.sha, hdata⟩
    · exact absurd ⟨Bool.eq_false_iff.2 ha, size_ne_zero ho⟩ hsame

end

/-- **A new recipient is offered the snapshot it was called with**, under the ticket it was called with. -/
theorem Sends.offerNew (peer : String) (term : Nat)
    (snapshot : RaftSnapshot) (lease : L) (ptrEq : Bool) (ticket : String) (now : Nat) (hdata : snapshot.data ∈ D)
    (hptr : ptrEq = true → ∀ sh, t.shared = some sh → sh.snapshot.data = snapshot.data) :
    (∃ o sh, (t.offerNew C peer term snapshot lease ptrEq ticket now).2 = .ok (some o) ∧ o.ticket = ticket ∧
      (t.offerNew C peer term snapshot lease ptrEq ticket now).1.shared = some sh ∧ sh.snapshot = snapshot ∧
      Describes C o snapshot ∧
      Sends C D (Announce announced ticket snapshot) (t.offerNew C peer term snapshot lease ptrEq ticket now).1) ∨
    ((∀ o, (t.offerNew C peer term snapshot lease ptrEq ticket now).2 ≠ .ok (some o)) ∧
      Sends C D announced (t.offerNew C peer term snapshot lease ptrEq ticket now).1) := by
  unfold SnapshotTransfers.offerNew
  have hd := describes_newOffer h term snapshot ptrEq ticket hptr
  split
  · exact .inr ⟨fun o ho => (by cases ho), h⟩
  · dsimp only
    split
    · exact .inr ⟨fun o ho => (by cases ho), h⟩
    · split
      · exact .inr ⟨fun o ho => (by cases ho), h⟩
      · rename_i hsame
        obtain ⟨sh, hsh, hS, hsends⟩ := h.share hD hd hdata hsame
        split
        · exact .inr ⟨fun o ho => (by cases ho), hsends⟩
        · refine .inl ⟨_, sh, rfl, rfl, hsh, hS, hd, ?_⟩
          exact (hsends.mono (fun k S hk => .inl hk)).insert hsh peer (hS ▸ hd) (.inr ⟨rfl, hS⟩)

/-- **Every offer a sender returns describes its shared snapshot**; its ticket is the fresh one or already announced
that snapshot. -/
theorem Sends.offer (peer : String) (term : Nat)
    (snapshot : RaftSnapshot) (lease : L) (ptrEq : Bool) (ticket : String) (now : Nat) (hdata : snapshot.data ∈ D)
    (hptr : ptrEq = true → ∀ sh, (t.expire now).shared = some sh → sh.snapshot.data = snapshot.data) :
    (∃ o sh, (t.offer C peer term snapshot lease ptrEq ticket now).2 = .ok (some o) ∧
      (t.offer C peer term snapshot lease ptrEq ticket now).1.shared = some sh ∧ Describes C o sh.snapshot ∧
      (o.ticket = ticket ∨ announced o.ticket sh.snapshot) ∧
      ((t.expire now).outgoing.get peer = none → sh.snapshot = snapshot) ∧
      Sends C D (Announce announced o.ticket sh.snapshot) (t.offer C peer term snapshot lease ptrEq ticket now).1) ∨
    ((∀ o, (t.offer C peer term snapshot lease ptrEq ticket now).2 ≠ .ok (some o)) ∧
      Sends C D announced (t.offer C peer term snapshot lease ptrEq ticket now).1) := by
  have he := h.expire now
  unfold SnapshotTransfers.offer
  dsimp only
  cases hg : (t.expire now).outgoing.get peer with
  | none =>
    rcases he.offerNew hD peer term snapshot lease ptrEq ticket now hdata hptr with
      ⟨o, sh, h1, h2, h3, h4, h5, h6⟩ | h'
    · exact .inl ⟨o, sh, h1, h3, h4 ▸ h5, .inl h2, fun _ => h4, by rw [h2, h4]; exact h6⟩
    · exact .inr h'
  | some existing =>
    obtain ⟨sh, hsh, hd, ha⟩ := he.offers peer existing hg
    dsimp only
    split
    · exact .inr ⟨fun o ho => (by cases ho), he⟩
    · split
      · split
        · exact .inr ⟨fun o ho => (by cases ho), he⟩
        · have hd' : Describes C { existing.offer with ticket := ticket, term := term } sh.snapshot :=
            ⟨hd.index, hd.term, hd.sha, hd.size, hd.membership⟩
          refine .inl ⟨_, sh, rfl, hsh, hd', .inl rfl, fun hn => (by cases hn), ?_⟩
          exact (he.mono (fun k S hk => .inl hk)).insert hsh peer hd' (.inr ⟨rfl, rfl⟩)
      · exact .inl ⟨_, sh, rfl, hsh, hd, .inr ha, fun hn => (by cases hn), he.mono (fun k S hk => .inl hk)⟩

end

end

structure Slice (C : Crates) (chunk : Chunk) (S : RaftSnapshot) : Prop where
  lt : chunk.offset < S.data.length
  aligned : chunk.offset % chunkBytes = 0
  data : chunk.data = C.b64Encode ((S.data.drop chunk.offset).take chunkBytes)

theorem Sends.replyChunk (h : Sends C D announced t) (peer : String) (request : Request) (now : Nat) :
    Sends C D announced (t.replyChunk C peer request now).1 ∧
    ∀ chunk, (t.replyChunk C peer request now).2 = some chunk → chunk.ticket = request.ticket ∧
      chunk.offset = request.offset ∧ ∃ S, announced request.ticket S ∧ Slice C chunk S := by
  have he := h.expire now
  unfold SnapshotTransfers.replyChunk
  dsimp only
  split
  · rename_i out sh hg hsh
    obtain ⟨sh', hsh', hd, ha⟩ := he.offers peer out hg
    rw [hsh] at hsh'
    cases hsh'
    split
    · exact ⟨he, nofun⟩
    · rename_i hticket
      rw [not_not] at hticket
      split
      · exact ⟨he, nofun⟩
      · rename_i hoff
        rw [not_or, Nat.not_le, not_not] at hoff
        constructor
        · refine he.insert hsh peer ?_ ?_
          · split <;> exact hd
          · split <;> exact ha
        · intro chunk hc
          cases hc
          refine ⟨rfl, rfl, sh.snapshot, hticket ▸ ha, hoff.1, hoff.2, ?_⟩
          dsimp only
          congr 1
          rw [take_eq_take_iff, length_drop]
          omega
  · exact ⟨he, nofun⟩

variable {peer : String}

theorem Sends.answers (h : Sends C D announced t) {request : Request} {now : Nat}
    (hg : t.outgoing.get peer = some out) (hlive : now < out.expires) (hticket : out.offer.ticket = request.ticket)
    (hlt : request.offset < out.offer.size) (hal : request.offset % chunkBytes = 0) :
    ∃ chunk, (t.replyChunk C peer request now).2 = some chunk := by
  have hg' : (t.expire now).outgoing.get peer = some out := by
    unfold SnapshotTransfers.expire
    rw [Table.get_filter, hg, filter_some, if_pos (decide_eq_true hlive)]
  obtain ⟨sh, hsh, hd, -⟩ := (h.expire now).offers peer out hg'
  unfold SnapshotTransfers.replyChunk
  simp only [hg', hsh]
  rw [if_neg (not_not.2 hticket), if_neg]
  · exact ⟨_, rfl⟩
  · rw [hd.size] at hlt
    omega

theorem offer_incoming (t : SnapshotTransfers L) (peer : String) (term : Nat) (snapshot : RaftSnapshot) (lease : L)
    (ptrEq : Bool) (ticket : String) (now : Nat) :
    (t.offer C peer term snapshot lease ptrEq ticket now).1.incoming = (t.expire now).incoming := by
  have hshare : ∀ (u : SnapshotTransfers L) o S, (u.share o S).incoming = u.incoming := by
    intro u o S
    unfold SnapshotTransfers.share
    split <;> rfl
  unfold SnapshotTransfers.offer SnapshotTransfers.offerNew
  dsimp only
  split
  · split
    · rfl
    · split
      · split <;> rfl
      · rfl
  · split
    · rfl
    · split
      · rfl
      · split
        · rfl
        · split <;> exact hshare _ _ _

theorem replyChunk_incoming (t : SnapshotTransfers L) (peer : String) (request : Request) (now : Nat) :
    (t.replyChunk C peer request now).1.incoming = (t.expire now).incoming := by
  unfold SnapshotTransfers.replyChunk
  dsimp only
  split
  · split
    · rfl
    · split <;> rfl
  · rfl

/-! ## The receiver's operations -/

variable {genuine : String → Offer → RaftSnapshot → Prop} {honest : String → Prop}

section

variable (h : Receives genuine honest t)

include h

theorem Receives.of_incoming {u : SnapshotTransfers L} (he : u.incoming = t.incoming) :
    Receives genuine honest u := fun inc hi => h inc (he ▸ hi)

theorem Receives.mono {genuine' : String → Offer → RaftSnapshot → Prop}
    (hm : ∀ p o S, genuine p o S → genuine' p o S) : Receives genuine' honest t := by
  intro inc hi
  obtain ⟨h1, h2, h3⟩ := h inc hi
  refine ⟨h1, h2, fun hh => ?_⟩
  obtain ⟨S, hS, hb⟩ := h3 hh
  exact ⟨S, hm _ _ _ hS, hb⟩

theorem Receives.expire (now : Nat) : Receives genuine honest (t.expire now) := by
  intro inc hi
  unfold SnapshotTransfers.expire at hi
  rw [filter_eq_some_iff] at hi
  exact h inc hi.1

end

theorem acceptOffer_sender (t : SnapshotTransfers L) (peer : String) (offer : Offer) (now : Nat) :
    (t.acceptOffer C peer offer now).1.outgoing = (t.expire now).outgoing ∧
      (t.acceptOffer C peer offer now).1.shared = (t.expire now).shared := by
  unfold SnapshotTransfers.acceptOffer
  dsimp only
  split
  · exact ⟨rfl, rfl⟩
  · split
    · exact ⟨rfl, rfl⟩
    · split
      · exact ⟨rfl, rfl⟩
      · split
        · split <;> exact ⟨rfl, rfl⟩
        · exact ⟨rfl, rfl⟩

theorem acceptChunk_sender (t : SnapshotTransfers L) (peer : String) (chunk : Chunk) (now : Nat) :
    (t.acceptChunk C peer chunk now).1.outgoing = (t.expire now).outgoing ∧
      (t.acceptChunk C peer chunk now).1.shared = (t.expire now).shared := by
  have hext : ∀ (u : SnapshotTransfers L) inc bytes, (u.extend C inc bytes now).1.outgoing = u.outgoing ∧
      (u.extend C inc bytes now).1.shared = u.shared := by
    intro u inc bytes
    unfold SnapshotTransfers.extend
    dsimp only
    split
    · exact ⟨rfl, rfl⟩
    · split
      · exact ⟨rfl, rfl⟩
      · split
        · exact ⟨rfl, rfl⟩
        · split <;> exact ⟨rfl, rfl⟩
  unfold SnapshotTransfers.acceptChunk
  dsimp only
  split
  · exact ⟨rfl, rfl⟩
  · split
    · exact ⟨rfl, rfl⟩
    · split
      · exact ⟨rfl, rfl⟩
      · split
        · exact ⟨rfl, rfl⟩
        · split
          · exact ⟨rfl, rfl⟩
          · split
            · split <;> exact ⟨rfl, rfl⟩
            · exact hext _ _ _

theorem Sends.of_sender {u : SnapshotTransfers L} (h : Sends C D announced t)
    (he : u.outgoing = t.outgoing ∧ u.shared = t.shared) : Sends C D announced u := by
  refine ⟨fun sh hsh => h.shared sh (he.2 ▸ hsh), fun p out ho => ?_⟩
  rw [he.2]
  exact h.offers p out (he.1 ▸ ho)

/-- What a receiver answers: a request it can be served, or the offered snapshot. -/
structure Answer (genuine : String → Offer → RaftSnapshot → Prop) (honest : String → Prop) (peer : String)
    (t : SnapshotTransfers L) (answer : Except TransferError Receive) : Prop where
  request : ∀ r, answer = .ok (.request r) → r.offset % chunkBytes = 0 ∧
    ∃ inc, t.incoming = some inc ∧ inc.peer = peer ∧ inc.offer.ticket = r.ticket ∧ r.offset < inc.offer.size
  complete : ∀ term snapshot, answer = .ok (.complete term snapshot) → honest peer →
    ∃ offer, genuine peer offer snapshot ∧ term = offer.term

theorem Answer.error {e : TransferError} : Answer genuine honest peer t (.error e) :=
  ⟨fun _ h => (by cases h), fun _ _ h => (by cases h)⟩

theorem Answer.ignored : Answer genuine honest peer t (.ok .ignored) := ⟨fun _ h => (by cases h), fun _ _ h => (by cases h)⟩

theorem complete_eq {offer : Offer} {S : RaftSnapshot} (hd : Describes C offer S) :
    Escrow.complete offer S.data = .complete offer.term S := by
  rw [Escrow.complete, hd.index, hd.term, hd.membership]

theorem Receives.acceptOffer (h : Receives genuine honest t) (peer : String) (offer : Offer) (now : Nat)
    (hg : honest peer → ∃ S, genuine peer offer S ∧ Describes C offer S) :
    Receives genuine honest (t.acceptOffer C peer offer now).1 ∧
      Answer genuine honest peer (t.acceptOffer C peer offer now).1 (t.acceptOffer C peer offer now).2 := by
  have he := h.expire now
  unfold SnapshotTransfers.acceptOffer
  dsimp only
  split
  · exact ⟨he, .error⟩
  · split
    · rename_i inc hinc
      rw [filter_eq_some_iff, Bool.and_eq_true, decide_eq_true_eq, decide_eq_true_eq] at hinc
      obtain ⟨hi, hp, ho⟩ := hinc
      obtain ⟨h1, h2, -⟩ := he inc hi
      refine ⟨he, fun r hr => ?_, nofun⟩
      cases hr
      exact ⟨h1, inc, hi, hp, by rw [ho], h2⟩
    · split
      · exact ⟨he, .ignored⟩
      · split
        · rename_i hsize
          split
          · exact ⟨he, .error⟩
          · refine ⟨fun inc hi => (by cases hi), fun r hr => (by cases hr), fun term snapshot hr hh => ?_⟩
            obtain ⟨S, hS, hd⟩ := hg hh
            have hnil : S.data = [] := length_eq_zero_iff.1 (by rw [← hd.size, hsize])
            rw [← hnil, complete_eq hd] at hr
            cases hr
            exact ⟨offer, hS, rfl⟩
        · rename_i hsize
          refine ⟨fun inc hi => ?_, fun r hr => ?_, nofun⟩
          · cases hi
            refine ⟨rfl, Nat.pos_of_ne_zero hsize, fun hh => ?_⟩
            obtain ⟨S, hS, -⟩ := hg hh
            exact ⟨S, hS, rfl⟩
          · cases hr
            exact ⟨rfl, _, rfl, rfl, rfl, Nat.pos_of_ne_zero hsize⟩

theorem Receives.extend {inc : Incoming} {bytes : List UInt8} (now : Nat) (hpeer : inc.peer = peer)
    (hal : inc.bytes.length % chunkBytes = 0)
    (hg : honest peer → ∃ S, genuine peer inc.offer S ∧ Describes C inc.offer S ∧
      inc.bytes ++ bytes = S.data.take (inc.bytes.length + bytes.length))
    (h : Receives genuine honest t) :
    Receives genuine honest (t.extend C inc bytes now).1 ∧
      Answer genuine honest peer (t.extend C inc bytes now).1 (t.extend C inc bytes now).2 := by
  unfold SnapshotTransfers.extend
  dsimp only
  split
  · exact ⟨h, .error⟩
  · split
    · exact ⟨h, .error⟩
    · rename_i hfull
      split
      · rename_i hne
        have hlen : bytes.length = chunkBytes := by
          by_contra hc
          exact hfull ⟨hne, hc⟩
        have hal' : (inc.bytes.length + bytes.length) % chunkBytes = 0 := by
          rw [hlen, Nat.add_mod_right, hal]
        have hlt : inc.bytes.length + bytes.length < inc.offer.size := by omega
        refine ⟨fun x hx => ?_, fun r hr => ?_, nofun⟩
        · cases hx
          rw [length_append]
          refine ⟨hal', hlt, fun hh => ?_⟩
          obtain ⟨S, hS, -, hb⟩ := hg (hpeer ▸ hh)
          exact ⟨S, hpeer ▸ hS, hb⟩
        · cases hr
          exact ⟨hal', _, rfl, hpeer, rfl, hlt⟩
      · rename_i heq
        rw [not_not] at heq
        split
        · exact ⟨fun x hx => (by cases hx), .error⟩
        · refine ⟨fun x hx => (by cases hx), fun r hr => (by cases hr), fun term snapshot hr hh => ?_⟩
          obtain ⟨S, hS, hd, hb⟩ := hg hh
          rw [heq, hd.size, take_length] at hb
          rw [hb, complete_eq hd] at hr
          cases hr
          exact ⟨inc.offer, hS, rfl⟩

/-- **A chunk is answered exactly**, where an honest peer's chunks are slices of what their ticket announced. -/
theorem Receives.acceptChunk (hb64 : ∀ bytes, C.b64Decode (C.b64Encode bytes) = some bytes)
    (h : Receives genuine honest t) (peer : String) (chunk : Chunk) (now : Nat)
    (hg : honest peer → ∀ offer S, genuine peer offer S → offer.ticket = chunk.ticket → Describes C offer S ∧ Slice C chunk S) :
    Receives genuine honest (t.acceptChunk C peer chunk now).1 ∧
      Answer genuine honest peer (t.acceptChunk C peer chunk now).1 (t.acceptChunk C peer chunk now).2 := by
  have he := h.expire now
  unfold SnapshotTransfers.acceptChunk
  dsimp only
  split
  · exact ⟨he, .ignored⟩
  · rename_i inc hi
    obtain ⟨hal, hlt, hpre⟩ := he inc hi
    split
    · exact ⟨he, .ignored⟩
    · rename_i hmatch
      rw [not_or, not_not, not_not] at hmatch
      obtain ⟨hp, ht⟩ := hmatch
      split
      · exact ⟨he, .error⟩
      · split
        · exact ⟨he, .error⟩
        · rename_i bytes hdec
          split
          · exact ⟨he, .error⟩
          · split
            · split
              · exact ⟨he, .error⟩
              · refine ⟨he, fun r hr => ?_, nofun⟩
                cases hr
                exact ⟨hal, inc, hi, hp, rfl, hlt⟩
            · rename_i hoff
              rw [not_not] at hoff
              refine he.extend now hp hal (fun hh => ?_)
              obtain ⟨S, hS, hb⟩ := hpre (hp.symm ▸ hh)
              obtain ⟨hd, hsl⟩ := hg hh inc.offer S (hp ▸ hS) ht
              refine ⟨S, hp ▸ hS, hd, ?_⟩
              rw [hsl.data, hb64] at hdec
              cases hdec
              rw [hoff, take_add]
              congr 1
              rw [take_eq_take_iff, length_take]
              omega

/-! ## The network -/

inductive Wire where
  | offer (offer : Offer)
  | chunk (chunk : Chunk)

def SnapshotTransfers.accept (C : Crates) (t : SnapshotTransfers L) (peer : String) (wire : Wire) (now : Nat) :
    SnapshotTransfers L × Except TransferError Receive :=
  match wire with
  | .offer offer => t.acceptOffer C peer offer now
  | .chunk chunk => t.acceptChunk C peer chunk now

/-- The nodes, what honest ones have sent (sender, recipient, message) and what their tickets announced (ticket, sender,
snapshot).  A message may be delivered any number of times from then on, or never. -/
structure Net (L : Type) where
  nodes : String → SnapshotTransfers L
  sent : List (String × String × Wire)
  announced : List (String × String × RaftSnapshot)

def Net.initial : Net L := ⟨fun _ => .default, [], []⟩

def Net.set (net : Net L) (n : String) (t : SnapshotTransfers L) : Net L := { net with nodes := Function.update net.nodes n t }

def Net.offer (C : Crates) (net : Net L) (n peer : String) (term : Nat) (snapshot : RaftSnapshot) (lease : L)
    (ptrEq : Bool) (ticket : String) (now : Nat) : Net L :=
  let r := (net.nodes n).offer C peer term snapshot lease ptrEq ticket now
  match r.2, r.1.shared with
  | .ok (some o), some sh =>
    { nodes := Function.update net.nodes n r.1, sent := (n, peer, .offer o) :: net.sent,
      announced := (o.ticket, n, sh.snapshot) :: net.announced }
  | _, _ => net.set n r.1

def Net.replyChunk (C : Crates) (net : Net L) (n peer : String) (request : Request) (now : Nat) : Net L :=
  let r := (net.nodes n).replyChunk C peer request now
  match r.2 with
  | some chunk => { net.set n r.1 with sent := (n, peer, .chunk chunk) :: net.sent }
  | none => net.set n r.1

/-- **One step of an honest node.**  Tickets are fresh, the data of offered snapshots lie in `D`, shared pointers have
equal data, and a message from an honest peer is one it has sent. -/
inductive Net.Step (C : Crates) (D : Set (List UInt8)) (honest : String → Prop) (net : Net L) : Net L → Prop
  | offer (n peer : String) (term : Nat) (snapshot : RaftSnapshot) (lease : L) (ptrEq : Bool) (ticket : String)
      (now : Nat) (hn : honest n) (hdata : snapshot.data ∈ D)
      (hptr : ptrEq = true → ∀ sh, ((net.nodes n).expire now).shared = some sh → sh.snapshot.data = snapshot.data)
      (hfresh : ∀ p S, (ticket, p, S) ∉ net.announced) :
      Net.Step C D honest net (net.offer C n peer term snapshot lease ptrEq ticket now)
  | acknowledged (n peer : String) (index : Nat) (hn : honest n) :
      Net.Step C D honest net (net.set n ((net.nodes n).acknowledged peer index))
  | expire (n : String) (now : Nat) (hn : honest n) : Net.Step C D honest net (net.set n ((net.nodes n).expire now))
  | replyChunk (n peer : String) (request : Request) (now : Nat) (hn : honest n) :
      Net.Step C D honest net (net.replyChunk C n peer request now)
  | accept (n peer : String) (wire : Wire) (now : Nat) (hn : honest n)
      (hnet : honest peer → (peer, n, wire) ∈ net.sent) :
      Net.Step C D honest net (net.set n ((net.nodes n).accept C peer wire now).1)

def Net.Reaches (C : Crates) (D : Set (List UInt8)) (honest : String → Prop) : Net L → Net L → Prop :=
  Relation.ReflTransGen (Net.Step C D honest)

def Net.Genuine (C : Crates) (net : Net L) (n peer : String) (offer : Offer) (S : RaftSnapshot) : Prop :=
  (peer, n, .offer offer) ∈ net.sent ∧ (offer.ticket, peer, S) ∈ net.announced ∧ Describes C offer S

/-- **The invariant of the network.** -/
structure Net.Inv (C : Crates) (D : Set (List UInt8)) (honest : String → Prop) (net : Net L) : Prop where
  unique : ∀ k p S p' S', (k, p, S) ∈ net.announced → (k, p', S') ∈ net.announced → p = p' ∧ S = S'
  senders : ∀ n, honest n → Sends C D (fun k S => (k, n, S) ∈ net.announced) (net.nodes n)
  receivers : ∀ n, honest n → Receives (net.Genuine C n) honest (net.nodes n)
  offers : ∀ p n o, (p, n, .offer o) ∈ net.sent → ∃ S, (o.ticket, p, S) ∈ net.announced ∧ Describes C o S
  chunks : ∀ p n c, (p, n, .chunk c) ∈ net.sent → ∃ S, (c.ticket, p, S) ∈ net.announced ∧ Slice C c S

theorem Net.Inv.initial : Net.Inv C D honest (Net.initial : Net L) where
  unique := nofun
  senders := fun _ _ => ⟨fun _ h => (by cases h), fun _ _ h => (by cases h)⟩
  receivers := nofun
  offers := nofun
  chunks := nofun

variable {net : Net L}

theorem Net.Inv.set (h : Net.Inv C D honest net) {n : String} {t : SnapshotTransfers L}
    (hs : honest n → Sends C D (fun k S => (k, n, S) ∈ net.announced) t)
    (hr : honest n → Receives (net.Genuine C n) honest t) : Net.Inv C D honest (net.set n t) where
  unique := h.unique
  senders := by
    intro m hm
    unfold Net.set
    dsimp only
    rw [Function.update_apply]
    split
    · rename_i he
      subst he
      exact hs hm
    · exact h.senders m hm
  receivers := by
    intro m hm
    unfold Net.set
    dsimp only
    rw [Function.update_apply]
    split
    · rename_i he
      subst he
      exact hr hm
    · exact h.receivers m hm
  offers := h.offers
  chunks := h.chunks

theorem Net.Inv.grow (h : Net.Inv C D honest net) {sent : List (String × String × Wire)}
    {announced : List (String × String × RaftSnapshot)} (hs : ∀ m ∈ net.sent, m ∈ sent)
    (ha : ∀ a ∈ net.announced, a ∈ announced)
    (hu : ∀ k p S p' S', (k, p, S) ∈ announced → (k, p', S') ∈ announced → p = p' ∧ S = S')
    (ho : ∀ p n o, (p, n, .offer o) ∈ sent → ∃ S, (o.ticket, p, S) ∈ announced ∧ Describes C o S)
    (hc : ∀ p n c, (p, n, .chunk c) ∈ sent → ∃ S, (c.ticket, p, S) ∈ announced ∧ Slice C c S) :
    Net.Inv C D honest { net with sent := sent, announced := announced } where
  unique := hu
  senders := fun n hn => (h.senders n hn).mono (fun _ _ hk => ha _ hk)
  receivers := fun n hn => (h.receivers n hn).mono (fun _ _ _ hg => ⟨hs _ hg.1, ha _ hg.2.1, hg.2.2⟩)
  offers := ho
  chunks := hc

theorem Net.Inv.describes (h : Net.Inv C D honest net) {n peer : String} {offer : Offer}
    (hm : (peer, n, .offer offer) ∈ net.sent) : ∃ S, net.Genuine C n peer offer S ∧ Describes C offer S := by
  obtain ⟨S, hS, hd⟩ := h.offers peer n offer hm
  exact ⟨S, ⟨hm, hS, hd⟩, hd⟩

theorem Net.Inv.accept (hb64 : ∀ bytes, C.b64Decode (C.b64Encode bytes) = some bytes) (h : Net.Inv C D honest net)
    {n peer : String} (hn : honest n) (wire : Wire) (now : Nat) (hnet : honest peer → (peer, n, wire) ∈ net.sent) :
    Receives (net.Genuine C n) honest ((net.nodes n).accept C peer wire now).1 ∧
      Answer (net.Genuine C n) honest peer ((net.nodes n).accept C peer wire now).1
        ((net.nodes n).accept C peer wire now).2 := by
  cases wire with
  | offer offer => exact (h.receivers n hn).acceptOffer peer offer now (fun hh => h.describes (hnet hh))
  | chunk chunk =>
    refine (h.receivers n hn).acceptChunk hb64 peer chunk now (fun hh offer S hg ht => ⟨hg.2.2, ?_⟩)
    obtain ⟨S', hS', hsl⟩ := h.chunks peer n chunk (hnet hh)
    have heq : S = S' := (h.unique _ _ _ _ _ (ht ▸ hg.2.1) hS').2
    rw [heq]
    exact hsl

theorem Net.Step.inv (hD : Set.InjOn C.digest D) (hb64 : ∀ bytes, C.b64Decode (C.b64Encode bytes) = some bytes)
    {net net' : Net L} (hs : Net.Step C D honest net net') (h : Net.Inv C D honest net) : Net.Inv C D honest net' := by
  cases hs with
  | offer n peer term snapshot lease ptrEq ticket now hn hdata hptr hfresh =>
    have hrec : Receives (net.Genuine C n) honest
        ((net.nodes n).offer C peer term snapshot lease ptrEq ticket now).1 :=
      ((h.receivers n hn).expire now).of_incoming (offer_incoming _ _ _ _ _ _ _ _)
    rcases (h.senders n hn).offer hD peer term snapshot lease ptrEq ticket now hdata hptr with
      ⟨o, sh, h1, h2, hd, hk, -, hsnd⟩ | ⟨hno, hsnd⟩
    · have heq : net.offer C n peer term snapshot lease ptrEq ticket now
          = Net.set { net with sent := (n, peer, .offer o) :: net.sent, announced := (o.ticket, n, sh.snapshot) :: net.announced } n
            ((net.nodes n).offer C peer term snapshot lease ptrEq ticket now).1 := by
        unfold Net.offer
        simp only [h1, h2]
        rfl
      have hsame : ∀ p S, (o.ticket, p, S) ∈ net.announced → p = n ∧ S = sh.snapshot := by
        intro p S hm
        rcases hk with hk | hk
        · exact absurd (hk ▸ hm) (hfresh p S)
        · exact h.unique _ _ _ _ _ hm hk
      rw [heq]
      refine Net.Inv.set (h.grow (fun m hm => .tail _ hm) (fun a ha => .tail _ ha) ?_ ?_ ?_) (fun _ => ?_) (fun _ => ?_)
      · intro k p S p' S' ha hb
        rcases mem_cons.1 ha with ha | ha <;> rcases mem_cons.1 hb with hb | hb
        · cases ha; cases hb; exact ⟨rfl, rfl⟩
        · cases ha
          obtain ⟨e1, e2⟩ := hsame p' S' hb
          exact ⟨e1.symm, e2.symm⟩
        · cases hb
          exact hsame p S ha
        · exact h.unique _ _ _ _ _ ha hb
      · intro p m o' hm
        rcases mem_cons.1 hm with hm | hm
        · cases hm
          exact ⟨_, .head _, hd⟩
        · obtain ⟨S, hS, hdS⟩ := h.offers p m o' hm
          exact ⟨S, .tail _ hS, hdS⟩
      · intro p m c hm
        rcases mem_cons.1 hm with hm | hm
        · cases hm
        · obtain ⟨S, hS, hsl⟩ := h.chunks p m c hm
          exact ⟨S, .tail _ hS, hsl⟩
      · refine hsnd.mono (fun k S hkS => ?_)
        rcases hkS with hkS | ⟨rfl, rfl⟩
        · exact .tail _ hkS
        · exact .head _
      · exact hrec.mono (fun _ _ _ hg => ⟨.tail _ hg.1, .tail _ hg.2.1, hg.2.2⟩)
    · have heq : net.offer C n peer term snapshot lease ptrEq ticket now
          = net.set n ((net.nodes n).offer C peer term snapshot lease ptrEq ticket now).1 := by
        unfold Net.offer
        dsimp only
        split
        · rename_i ho _
          exact absurd ho (hno _)
        · rfl
      rw [heq]
      exact h.set (fun _ => hsnd) (fun _ => hrec)
  | acknowledged n peer index hn =>
    exact h.set (fun _ => (h.senders n hn).acknowledged peer index)
      (fun _ => (h.receivers n hn).of_incoming rfl)
  | expire n now hn => exact h.set (fun _ => (h.senders n hn).expire now) (fun _ => (h.receivers n hn).expire now)
  | replyChunk n peer request now hn =>
    obtain ⟨hsnd, hchunk⟩ := (h.senders n hn).replyChunk peer request now
    have hset := h.set (n := n) (fun _ => hsnd)
      (fun _ => ((h.receivers n hn).expire now).of_incoming (replyChunk_incoming _ _ _ _))
    unfold Net.replyChunk
    dsimp only
    split
    · rename_i chunk hc
      obtain ⟨h1, h2, S, hS, hsl⟩ := hchunk chunk hc
      refine hset.grow (fun m hm => .tail _ hm) (fun a ha => ha) h.unique (fun p m o hm => ?_) (fun p m c hm => ?_)
      · rcases mem_cons.1 hm with hm | hm
        · cases hm
        · exact h.offers p m o hm
      · rcases mem_cons.1 hm with hm | hm
        · cases hm
          exact ⟨S, h1 ▸ hS, hsl⟩
        · exact h.chunks p m c hm
    · exact hset
  | accept n peer wire now hn hnet =>
    refine h.set (fun _ => ((h.senders n hn).expire now).of_sender ?_) (fun _ => (h.accept hb64 hn wire now hnet).1)
    cases wire with
    | offer offer => exact acceptOffer_sender _ _ _ _
    | chunk chunk => exact acceptChunk_sender _ _ _ _

theorem Net.Reaches.inv (hD : Set.InjOn C.digest D) (hb64 : ∀ bytes, C.b64Decode (C.b64Encode bytes) = some bytes)
    {net net' : Net L} (hr : Net.Reaches C D honest net net') (h : Net.Inv C D honest net) :
    Net.Inv C D honest net' := by
  induction hr with
  | refl => exact h
  | tail _ hs ih => exact hs.inv hD hb64 ih

theorem Net.Step.announced_mono {net net' : Net L} (hs : Net.Step C D honest net net') : ∀ a ∈ net.announced, a ∈ net'.announced := by
  intro a ha
  cases hs with
  | offer n peer term snapshot lease ptrEq ticket now hn hdata hptr hfresh =>
    unfold Net.offer
    dsimp only
    split
    · exact .tail _ ha
    · exact ha
  | replyChunk n peer request now hn =>
    unfold Net.replyChunk
    dsimp only
    split <;> exact ha
  | acknowledged n peer index hn | expire n now hn | accept n peer wire now hn hnet => exact ha

theorem Net.Reaches.announced_mono {net net' : Net L} (hr : Net.Reaches C D honest net net') :
    ∀ a ∈ net.announced, a ∈ net'.announced := by
  induction hr with
  | refl => exact fun a ha => ha
  | tail _ hs ih => exact fun a ha => hs.announced_mono a (ih a ha)

theorem Net.Inv.serves {net' : Net L} (h' : Net.Inv C D honest net') {n peer : String} {offer : Offer} {S : RaftSnapshot}
    (hpeer : honest peer) (hS : (offer.ticket, peer, S) ∈ net'.announced) (hd : Describes C offer S) {r : Request}
    (hticket : offer.ticket = r.ticket) (hlt : r.offset < offer.size) (hal : r.offset % chunkBytes = 0)
    (hout : (net'.nodes peer).outgoing.get n = some out) (hlive : out.offer.ticket = r.ticket)
    {now : Nat} (hnow : now < out.expires) : ∃ chunk, ((net'.nodes peer).replyChunk C n r now).2 = some chunk := by
  have hsnd := h'.senders peer hpeer
  obtain ⟨sh, -, hd', ha⟩ := hsnd.offers n out hout
  have heq : sh.snapshot = S := (h'.unique _ _ _ _ _ ha (by rw [hlive, ← hticket]; exact hS)).2
  refine hsnd.answers hout hnow hlive ?_ hal
  rw [hd'.size, heq, ← hd.size]
  exact hlt

/-- **Chunked transfer is exact.**  In every network honest nodes reach, whatever was lost, repeated or reordered and
whatever other peers send: what completes at a receiver, from an honest peer, is the snapshot announced by an offer of
that peer, and a sender serves under a ticket only slices of what it announced. -/
theorem transfer_exact (C : Crates) (D : Set (List UInt8)) (honest : String → Prop) (hD : Set.InjOn C.digest D)
    (hb64 : ∀ bytes, C.b64Decode (C.b64Encode bytes) = some bytes) (net : Net L)
    (hr : Net.Reaches C D honest Net.initial net) (n : String) (hn : honest n) :
    ((net.nodes n).outgoing.size ≠ 0 → ∃ sh, (net.nodes n).shared = some sh ∧
      ∀ peer out, (net.nodes n).outgoing.get peer = some out → Describes C out.offer sh.snapshot) ∧
    (∀ peer request now chunk, ((net.nodes n).replyChunk C peer request now).2 = some chunk →
      chunk.ticket = request.ticket ∧ chunk.offset = request.offset ∧ ∃ S, (request.ticket, n, S) ∈ net.announced ∧
        chunk.data = C.b64Encode ((S.data.drop request.offset).take chunkBytes)) ∧
    (∀ peer term snapshot lease ptrEq ticket now o, snapshot.data ∈ D →
      (ptrEq = true → ∀ sh, ((net.nodes n).expire now).shared = some sh → sh.snapshot.data = snapshot.data) →
      ((net.nodes n).expire now).outgoing.get peer = none →
      ((net.nodes n).offer C peer term snapshot lease ptrEq ticket now).2 = .ok (some o) →
      ((net.nodes n).offer C peer term snapshot lease ptrEq ticket now).1.shared.map Shared.snapshot = some snapshot ∧
        Describes C o snapshot) ∧
    (∀ peer wire now, (honest peer → (peer, n, wire) ∈ net.sent) →
      (∀ term snapshot, ((net.nodes n).accept C peer wire now).2 = .ok (.complete term snapshot) → honest peer →
        ∃ offer, (peer, n, .offer offer) ∈ net.sent ∧ (offer.ticket, peer, snapshot) ∈ net.announced ∧
          Describes C offer snapshot ∧ term = offer.term) ∧
      (∀ r, ((net.nodes n).accept C peer wire now).2 = .ok (.request r) → r.offset % chunkBytes = 0 ∧
        ∃ inc, ((net.nodes n).accept C peer wire now).1.incoming = some inc ∧ inc.peer = peer ∧
          inc.offer.ticket = r.ticket ∧ r.offset < inc.offer.size ∧
          (honest peer → ∀ net', Net.Reaches C D honest net net' → ∀ out now',
            (net'.nodes peer).outgoing.get n = some out → out.offer.ticket = r.ticket → now' < out.expires →
            ∃ chunk, ((net'.nodes peer).replyChunk C n r now').2 = some chunk))) := by
  have h : Net.Inv C D honest net := hr.inv hD hb64 .initial
  have hsnd := h.senders n hn
  refine ⟨fun hne => ?_, fun peer request now chunk hc => ?_, ?_, fun peer wire now hnet => ?_⟩
  · cases hout : (net.nodes n).shared with
    | some sh =>
      refine ⟨sh, rfl, fun peer out ho => ?_⟩
      obtain ⟨sh', hsh', hd, -⟩ := hsnd.offers peer out ho
      rw [hout] at hsh'
      cases hsh'
      exact hd
    | none =>
      refine absurd (size_eq_zero.2 (eq_empty_iff.2 (fun peer => ?_))) hne
      cases ho : (net.nodes n).outgoing.get peer with
      | none => rfl
      | some out =>
        obtain ⟨sh', hsh', -⟩ := hsnd.offers peer out ho
        rw [hout] at hsh'
        cases hsh'
  · obtain ⟨h1, h2, S, hS, hsl⟩ := (hsnd.replyChunk peer request now).2 chunk hc
    exact ⟨h1, h2, S, hS, by rw [hsl.data, h2]⟩
  · intro peer term snapshot lease ptrEq ticket now o hdata hptr hnone ho
    rcases hsnd.offer hD peer term snapshot lease ptrEq ticket now hdata hptr with
      ⟨o', sh, h1, h2, hd, -, hS, -⟩ | ⟨hno, -⟩
    · rw [ho] at h1
      cases h1
      rw [h2, map_some, hS hnone]
      exact ⟨rfl, hS hnone ▸ hd⟩
    · exact absurd ho (hno o)
  · obtain ⟨hrec, hans⟩ := h.accept hb64 hn wire now hnet
    refine ⟨fun term snapshot hc hh => ?_, fun r hreq => ?_⟩
    · obtain ⟨offer, hg, ht⟩ := hans.complete term snapshot hc hh
      exact ⟨offer, hg.1, hg.2.1, hg.2.2, ht⟩
    · obtain ⟨hal, inc, hi, hp, ht, hlt⟩ := hans.request r hreq
      refine ⟨hal, inc, hi, hp, ht, hlt, fun hh net' hr' out now' hout hlive hnow => ?_⟩
      obtain ⟨S, hg, -⟩ := (hrec inc hi).2.2 (hp.symm ▸ hh)
      exact (hr'.inv hD hb64 h).serves hh (hr'.announced_mono _ (hp ▸ hg.2.1)) hg.2.2 ht hlt hal hout hlive hnow

def sampleSnapshot : RaftSnapshot := ⟨7, 2, [1, 2, 3], none⟩

def snapshotCrates : Crates := sampleCrates [([1, 2, 3], "039058c6f2c0cb492c533b0a4d14ef77cc0f78abccced5287d84a1a2011cfb81")]

def senderId : String := "0000000000000001"

def receiverId : String := "0000000000000002"

def sampleOffer : Offer := ⟨"0123456789abcdef0123456789abcdef", 2, 7, 2, snapshotCrates.digest sampleSnapshot.data, 3, none⟩

def sampleChunk : Chunk := ⟨sampleOffer.ticket, 0, "AQID"⟩

/-- The network after the offer, after it was accepted, and after the chunk it asks for was sent. -/
def offeredNet : Net Unit := Net.initial.offer snapshotCrates senderId receiverId 2 sampleSnapshot () false sampleOffer.ticket 0

def acceptedNet : Net Unit :=
  offeredNet.set receiverId ((offeredNet.nodes receiverId).accept snapshotCrates senderId (.offer sampleOffer) 1).1

def repliedNet : Net Unit := acceptedNet.replyChunk snapshotCrates senderId receiverId ⟨sampleOffer.ticket, 0⟩ 2

theorem repliedNet_reached : Net.Reaches snapshotCrates {sampleSnapshot.data} (fun _ => True) Net.initial repliedNet := by
  have hoffer : Net.Step snapshotCrates {sampleSnapshot.data} (fun _ => True) Net.initial offeredNet :=
    .offer _ _ _ _ _ _ _ _ trivial rfl nofun nofun
  have haccept : Net.Step snapshotCrates {sampleSnapshot.data} (fun _ => True) offeredNet acceptedNet :=
    .accept _ _ _ _ trivial (fun _ => mem_cons_self)
  exact ((Relation.ReflTransGen.single hoffer).tail haccept).tail (.replyChunk _ _ _ _ trivial)

theorem transfer_exact_completed :
    ((repliedNet.nodes receiverId).accept snapshotCrates senderId (.chunk sampleChunk) 3).2 = .ok (.complete 2 sampleSnapshot) ∧
    ∃ offer, (senderId, receiverId, .offer offer) ∈ repliedNet.sent ∧
      (offer.ticket, senderId, sampleSnapshot) ∈ repliedNet.announced ∧ Describes snapshotCrates offer sampleSnapshot ∧
      2 = offer.term := by
  have hb64 : ∀ bytes, snapshotCrates.b64Decode (snapshotCrates.b64Encode bytes) = some bytes := by
    intro bytes
    simp only [snapshotCrates, sampleCrates, String.toList_ofList]
    exact Base64.decode_encode bytes
  have hcomplete : ((repliedNet.nodes receiverId).accept snapshotCrates senderId (.chunk sampleChunk) 3).2 =
      .ok (.complete 2 sampleSnapshot) := by rfl
  have hsent : (senderId, receiverId, .chunk sampleChunk) ∈ repliedNet.sent :=
    (show repliedNet.sent = [(senderId, receiverId, .chunk sampleChunk), (senderId, receiverId, .offer sampleOffer)] from rfl) ▸
      mem_cons_self
  obtain ⟨-, -, -, haccept⟩ := transfer_exact snapshotCrates {sampleSnapshot.data} (fun _ => True) (Set.injOn_singleton _ _)
    hb64 repliedNet repliedNet_reached receiverId trivial
  exact ⟨hcomplete, (haccept senderId (.chunk sampleChunk) 3 (fun _ => hsent)).1 2 sampleSnapshot hcomplete trivial⟩

end Mistl.Escrow
