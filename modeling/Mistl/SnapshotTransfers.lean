import Mistl.EscrowRaft
/-!
# SnapshotTransfers — a snapshot in chunks

`escrow/replication/snapshots.rs`: one shared payload, an offer for each recipient, and one incoming buffer.  A fresh ticket,
the instant (in milliseconds) and the answer of `Arc::ptr_eq` are arguments.
-/
namespace Mistl.Escrow

def maxSnapshotBytes : Nat := 64 * 1024 * 1024
def chunkBytes : Nat := 8 * 1024
/-- `(CHUNK_BYTES * 4).div_ceil(3)` -/
def maxEncodedChunk : Nat := (chunkBytes * 4 + 2) / 3
def maxPeers : Nat := 18
def metadataTtl : Nat := 180 * 1000
def outgoingTtl : Nat := 660 * 1000

structure Offer where
  ticket : String
  term : Nat
  index : Nat
  snapshotTerm : Nat
  sha : String
  size : Nat
  membership : Option Membership
  deriving DecidableEq

structure Request where
  ticket : String
  offset : Nat

structure Chunk where
  ticket : String
  offset : Nat
  data : String

inductive Receive where
  | request (request : Request)
  | complete (term : Nat) (snapshot : RaftSnapshot)
  | ignored

inductive TransferError where
  | sender | identity | bounds | membershipSize | members | jointMembers | votingLearner | peerCapacity | hash
  | oversizedChunk | encoding | chunkSize | conflictingDuplicate | exceedsSize | shortNonfinal

structure Outgoing (L : Type) where
  offer : Offer
  expires : Nat
  lease : L
  metadataComplete : Bool

structure Shared where
  snapshot : RaftSnapshot
  sha : String

structure Incoming where
  peer : String
  offer : Offer
  bytes : List UInt8
  expires : Nat

structure SnapshotTransfers (L : Type) where
  outgoing : Table String (Outgoing L)
  shared : Option Shared
  incoming : Option Incoming

def SnapshotTransfers.default {L : Type} : SnapshotTransfers L := ⟨∅, none, none⟩

/-! ## Checks -/

def validVoter (node : String) : Bool := hexString node 16

def validSet (ids : List String) : Bool := ids.all validVoter && decide ids.Nodup

def validateMembership (m : Membership) : Except TransferError Unit :=
  if m.voters.length < 1 ∨ 9 < m.voters.length ∨ 9 < m.learners.length then .error .membershipSize
  else if (validSet m.voters && validSet m.learners) = false then .error .members
  else if (m.jointVoters.any (fun j => decide (j.length < 1) || decide (9 < j.length) || !validSet j)) = true then
    .error .jointMembers
  else if (m.learners.any (fun id => (m.voters ++ m.jointVoters.getD []).contains id)) = true then
    .error .votingLearner
  else if maxPeers < (m.voters ++ m.jointVoters.getD []).dedup.length + m.learners.length then .error .peerCapacity
  else .ok ()

def validateOffer (peer : String) (offer : Offer) : Except TransferError Unit :=
  if validVoter peer = false then .error .sender
  else if (hexString offer.ticket 32 && hexString offer.sha 64) = false then .error .identity
  else if maxSnapshotBytes < offer.size ∨ u64Max ≤ offer.term ∨ u64Max ≤ offer.index ∨ offer.term < offer.snapshotTerm
      ∨ ¬ (offer.index = 0 ↔ offer.snapshotTerm = 0) then .error .bounds
  else match offer.membership with
    | some m => validateMembership m
    | none => .ok ()

def complete (offer : Offer) (data : List UInt8) : Receive :=
  .complete offer.term ⟨offer.index, offer.snapshotTerm, data, offer.membership⟩

/-! ## The sender -/

section
variable {L : Type}

def SnapshotTransfers.expire (t : SnapshotTransfers L) (now : Nat) : SnapshotTransfers L :=
  let outgoing := t.outgoing.filter (fun _ item => decide (now < item.expires))
  { outgoing := outgoing, shared := if outgoing.size = 0 then none else t.shared,
    incoming := t.incoming.filter (fun item => decide (now < item.expires)) }

def SnapshotTransfers.acknowledged (t : SnapshotTransfers L) (peer : String) (index : Nat) : SnapshotTransfers L :=
  let outgoing :=
    if (t.outgoing.get peer).any (fun item => decide (item.offer.index ≤ index)) then t.outgoing.erase peer
    else t.outgoing
  { t with outgoing := outgoing, shared := if outgoing.size = 0 then none else t.shared }

variable (C : Crates)

def sameHeader (a b : RaftSnapshot) : Bool :=
  decide (a.lastIncludedIndex = b.lastIncludedIndex) && decide (a.lastIncludedTerm = b.lastIncludedTerm)
    && decide (a.membership = b.membership)

/-- The offer of a snapshot to a new recipient; the digest of a payload that is already shared is not computed again. -/
def SnapshotTransfers.newOffer (t : SnapshotTransfers L) (term : Nat) (snapshot : RaftSnapshot) (ptrEq : Bool)
    (ticket : String) : Offer :=
  { ticket := ticket, term := term, index := snapshot.lastIncludedIndex, snapshotTerm := snapshot.lastIncludedTerm,
    sha := match t.shared with
      | some shared => if ptrEq && sameHeader shared.snapshot snapshot then shared.sha else C.digest snapshot.data
      | none => C.digest snapshot.data,
    size := snapshot.data.length, membership := snapshot.membership }

def SnapshotTransfers.announces (t : SnapshotTransfers L) (offer : Offer) : Bool :=
  t.shared.any (fun shared => decide (shared.snapshot.lastIncludedIndex = offer.index)
    && decide (shared.snapshot.lastIncludedTerm = offer.snapshotTerm)
    && decide (shared.snapshot.membership = offer.membership) && decide (shared.sha = offer.sha))

def SnapshotTransfers.share (t : SnapshotTransfers L) (offer : Offer) (snapshot : RaftSnapshot) : SnapshotTransfers L :=
  if t.announces offer then t else { t with shared := some ⟨snapshot, offer.sha⟩ }

/-- The offer to a peer that has none: the shared payload is replaced only while nobody else fetches it. -/
def SnapshotTransfers.offerNew (t : SnapshotTransfers L) (peer : String) (term : Nat) (snapshot : RaftSnapshot)
    (lease : L) (ptrEq : Bool) (ticket : String) (now : Nat) :
    SnapshotTransfers L × Except TransferError (Option Offer) :=
  if (t.shared.any (fun shared => !sameHeader shared.snapshot snapshot)) = true ∧ t.outgoing.size ≠ 0 then (t, .ok none)
  else
    let offer := t.newOffer C term snapshot ptrEq ticket
    match validateOffer peer offer with
    | .error e => (t, .error e)
    | .ok () =>
      if t.announces offer = false ∧ t.outgoing.size ≠ 0 then (t, .ok none)
      else
        let t := t.share offer snapshot
        if maxPeers ≤ t.outgoing.size then (t, .ok none)
        else ({ t with outgoing := t.outgoing.insert peer ⟨offer, now + outgoingTtl, lease, false⟩ }, .ok (some offer))

def SnapshotTransfers.offer (t : SnapshotTransfers L) (peer : String) (term : Nat) (snapshot : RaftSnapshot)
    (lease : L) (ptrEq : Bool) (ticket : String) (now : Nat) :
    SnapshotTransfers L × Except TransferError (Option Offer) :=
  let t := t.expire now
  match t.outgoing.get peer with
  | some existing =>
    if term < existing.offer.term then (t, .ok none)
    else if existing.offer.term < term then
      let renewed := { existing.offer with ticket := ticket, term := term }
      match validateOffer peer renewed with
      | .error e => (t, .error e)
      | .ok () =>
        let existing := { existing with offer := renewed, expires := now + outgoingTtl, metadataComplete := false }
        ({ t with outgoing := t.outgoing.insert peer existing }, .ok (some renewed))
    else (t, .ok (some existing.offer))
  | none => t.offerNew C peer term snapshot lease ptrEq ticket now

def SnapshotTransfers.replyChunk (t : SnapshotTransfers L) (peer : String) (request : Request) (now : Nat) :
    SnapshotTransfers L × Option Chunk :=
  let t := t.expire now
  match t.outgoing.get peer, t.shared with
  | some outgoing, some shared =>
    let data := shared.snapshot.data
    if outgoing.offer.ticket ≠ request.ticket then (t, none)
    else if data.length ≤ request.offset ∨ request.offset % chunkBytes ≠ 0 then (t, none)
    else
      let end_ := min (request.offset + chunkBytes) data.length
      let outgoing := if outgoing.metadataComplete then outgoing
        else { outgoing with expires := now + outgoingTtl, metadataComplete := decide (end_ = data.length) }
      ({ t with outgoing := t.outgoing.insert peer outgoing },
        some ⟨request.ticket, request.offset, C.b64Encode ((data.drop request.offset).take (end_ - request.offset))⟩)
  | _, _ => (t, none)

/-! ## The receiver -/

def SnapshotTransfers.acceptOffer (t : SnapshotTransfers L) (peer : String) (offer : Offer) (now : Nat) :
    SnapshotTransfers L × Except TransferError Receive :=
  let t := t.expire now
  match validateOffer peer offer with
  | .error e => (t, .error e)
  | .ok () =>
    match t.incoming.filter (fun i => decide (i.peer = peer) && decide (i.offer = offer)) with
    | some incoming => (t, .ok (.request ⟨offer.ticket, incoming.bytes.length⟩))
    | none =>
      if (t.incoming.any (fun i => decide (offer.term < i.offer.term) || (decide (offer.term = i.offer.term)
          && (decide (i.peer ≠ peer) || decide (offer.index ≤ i.offer.index))))) = true then (t, .ok .ignored)
      else if offer.size = 0 then
        if offer.sha ≠ C.digest [] then (t, .error .hash)
        else ({ t with incoming := none }, .ok (complete offer []))
      else
        ({ t with incoming := some ⟨peer, offer, [], now + metadataTtl⟩ }, .ok (.request ⟨offer.ticket, 0⟩))

def SnapshotTransfers.extend (t : SnapshotTransfers L) (incoming : Incoming) (bytes : List UInt8) (now : Nat) :
    SnapshotTransfers L × Except TransferError Receive :=
  let end_ := incoming.bytes.length + bytes.length
  if incoming.offer.size < end_ then (t, .error .exceedsSize)
  else if end_ ≠ incoming.offer.size ∧ bytes.length ≠ chunkBytes then (t, .error .shortNonfinal)
  else
    let incoming := { incoming with bytes := incoming.bytes ++ bytes, expires := now + metadataTtl }
    if end_ ≠ incoming.offer.size then
      ({ t with incoming := some incoming }, .ok (.request ⟨incoming.offer.ticket, end_⟩))
    else if C.digest incoming.bytes ≠ incoming.offer.sha then ({ t with incoming := none }, .error .hash)
    else ({ t with incoming := none }, .ok (complete incoming.offer incoming.bytes))

def SnapshotTransfers.acceptChunk (t : SnapshotTransfers L) (peer : String) (chunk : Chunk) (now : Nat) :
    SnapshotTransfers L × Except TransferError Receive :=
  let t := t.expire now
  match t.incoming with
  | none => (t, .ok .ignored)
  | some incoming =>
    if incoming.peer ≠ peer ∨ incoming.offer.ticket ≠ chunk.ticket then (t, .ok .ignored)
    else if maxEncodedChunk < chunk.data.utf8ByteSize then (t, .error .oversizedChunk)
    else match C.b64Decode chunk.data with
      | none => (t, .error .encoding)
      | some bytes =>
        if bytes.length = 0 ∨ chunkBytes < bytes.length then (t, .error .chunkSize)
        else
          let expected := incoming.bytes.length
          if chunk.offset ≠ expected then
            if chunk.offset < expected ∧ ¬ (chunk.offset + bytes.length ≤ expected ∧
                (incoming.bytes.drop chunk.offset).take bytes.length = bytes) then (t, .error .conflictingDuplicate)
            else (t, .ok (.request ⟨incoming.offer.ticket, expected⟩))
          else t.extend C incoming bytes now

end

end Mistl.Escrow
