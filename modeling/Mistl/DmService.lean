import Mistl.DmLimits
import Mistl.DmLoad
/-!
# DmService — what a node does with an inbound wire

`Service::process_inbound`: the checks without a state, the membership, the replay cache, the limiter, the signature, and only then
the history.
-/
namespace Mistl.Dm

inductive Outcome where
  | ignored
  | rejected (reject : Reject)
  | notAdmitted
  | duplicate
  | rateLimited
  | historyFull
  | accepted (fromDid id : String)
  | ackApplied (upgraded : Bool)

structure Service where
  identity : Identity
  history : History
  dedupe : Dedupe
  limiter : RateLimiter

def DmMessage.stored (msg : DmMessage) : StoredMsg := ⟨msg.id, false, msg.ts, msg.text, msg.file, .received⟩

/-- A verified message, in `process_inbound` -/
def Service.acceptMessage (s : Service) (msg : DmMessage) (nowMs : UInt64) (now : Nat) (lru : Bool → Option String) :
    Service × Outcome :=
  let (dedupe, fresh) := s.dedupe.insert msg.fromDid msg.id now
  let s := { s with dedupe := dedupe }
  if fresh = false then (s, .duplicate)
  else match s.history.add msg.fromDid msg.stored nowMs true lru with
    | .ok history => ({ s with history := history }, .accepted msg.fromDid msg.id)
    | .error .duplicate => (s, .duplicate)
    | .error .full => (s, .historyFull)

/-- A verified receipt, in `process_inbound` -/
def Service.applyAck (s : Service) (ack : DmAck) : Service × Outcome :=
  let (history, upgraded) := s.history.markDelivered ack.fromDid ack.id
  ({ s with history := history }, .ackApplied upgraded)

/-- What is verified, in `process_inbound` -/
def Service.receive (s : Service) (incoming : Incoming) (nowMs : UInt64) (now : Nat) (lru : Bool → Option String) : Service × Outcome :=
  match incoming with
  | .message msg => s.acceptMessage msg nowMs now lru
  | .ack ack => s.applyAck ack

/-- `process_inbound`, where `lru` is what `make_room` finds -/
def Service.processInbound (C : Crates) (s : Service) (sender : String) (data : List UInt8) (nowMs : UInt64) (now : Nat)
    (admits : String → Bool) (lru : Bool → Option String) : Service × Outcome :=
  match precheck C data sender s.identity.did nowMs with
  | .error .notOurs | .error .oversized => (s, .ignored)
  | .error reject => (s, .rejected reject)
  | .ok pre =>
    if admits pre.fromDid = false then (s, .notAdmitted)
    else if pre.kind = .message ∧ s.dedupe.contains pre.fromDid pre.id = true then (s, .duplicate)
    else
      let (limiter, allowed) := s.limiter.allow sender now
      let s := { s with limiter := limiter }
      if allowed = false then (s, .rateLimited)
      else match pre.verify C with
        | .error reject => (s, .rejected reject)
        | .ok incoming => s.receive incoming nowMs now lru

def incomingOf (C : Crates) (data : List UInt8) (sender ourDid : String) (nowMs : UInt64) : Option Incoming :=
  match precheck C data sender ourDid nowMs with
  | .ok pre => (pre.verify C).toOption
  | .error _ => none

/-! ## What has been checked -/

variable {C : Crates} {s s' : Service} {sender ourDid : String} {data : List UInt8} {nowMs : UInt64} {now : Nat}
  {admits : String → Bool} {lru : Bool → Option String} {pre : Prechecked} {out : Outcome}

/-- What `precheck` promises of a wire. -/
structure Prechecked.Checked (C : Crates) (sender ourDid : String) (nowMs : UInt64) (pre : Prechecked) : Prop where
  did : pre.fromDid.utf8ByteSize = didKeyLen
  node : nodeIdForDid C pre.fromDid = sender
  other : pre.fromDid ≠ ourDid
  skew : absDiff pre.ts nowMs ≤ maxSkewMs
  id : isValidId pre.id = true
  content : pre.kind = .message → (validateContent pre.text pre.file).isOk = true

theorem isOk_eq_true {ε α : Type} {x : Except ε α} : x.isOk = true ↔ ∃ a, x = .ok a := by
  cases x <;> simp [Except.toBool]

theorem precheck_checked (h : precheck C data sender ourDid nowMs = .ok pre) : pre.Checked C sender ourDid nowMs := by
  obtain ⟨-, h⟩ := ensure_bind_eq_ok.1 h
  obtain ⟨-, h⟩ := ensure_bind_eq_ok.1 h
  obtain ⟨value, -, h⟩ := okOr_bind_eq_ok.1 h
  obtain ⟨-, h⟩ := ensure_bind_eq_ok.1 h
  obtain ⟨kind, -, h⟩ := okOr_bind_eq_ok.1 h
  obtain ⟨node, -, h⟩ := bind_eq_ok.1 h
  obtain ⟨-, h⟩ := ensure_bind_eq_ok.1 h
  obtain ⟨did, -, h⟩ := bind_eq_ok.1 h
  obtain ⟨hdid, h⟩ := ensure_bind_eq_ok.1 h
  obtain ⟨recipient, -, h⟩ := bind_eq_ok.1 h
  obtain ⟨-, h⟩ := ensure_bind_eq_ok.1 h
  obtain ⟨hother, h⟩ := ensure_bind_eq_ok.1 h
  obtain ⟨ts, -, h⟩ := okOr_bind_eq_ok.1 h
  obtain ⟨hskew, h⟩ := ensure_bind_eq_ok.1 h
  obtain ⟨id, -, h⟩ := bind_eq_ok.1 h
  obtain ⟨hid, h⟩ := ensure_bind_eq_ok.1 h
  obtain ⟨content, hcontent, h⟩ := bind_eq_ok.1 h
  simp only [Bool.and_eq_true, decide_eq_true_eq] at hdid hother hskew
  cases h
  refine ⟨hdid.1, hdid.2, hother, hskew, hid, fun hkind => ?_⟩
  obtain rfl : kind = .message := hkind
  obtain ⟨text, -, hcontent⟩ := bind_eq_ok.1 hcontent
  obtain ⟨file, -, hcontent⟩ := bind_eq_ok.1 hcontent
  obtain ⟨hvalid, hcontent⟩ := ensure_bind_eq_ok.1 hcontent
  cases hcontent
  exact hvalid

theorem validateFile_ok {file : FileMeta} (h : validateFile file = .ok ()) :
    file.cid.utf8ByteSize ≤ maxCidChars ∧ file.name.toList.length ≤ maxNameChars ∧
      file.mime.toList.length ≤ maxMimeChars ∧ file.key.utf8ByteSize ≤ maxKeyChars := by
  obtain ⟨hcid, h⟩ := ensure_bind_eq_ok.1 h
  obtain ⟨hname, h⟩ := ensure_bind_eq_ok.1 h
  obtain ⟨hmime, h⟩ := ensure_bind_eq_ok.1 h
  obtain ⟨-, h⟩ := ensure_bind_eq_ok.1 h
  have hkey := ensure_eq_ok.1 h
  simp only [isCidLike, Bool.and_eq_true, decide_eq_true_eq] at hcid hname hmime hkey
  exact ⟨hcid.1.2, hname.1.2, hmime.1, hkey.1.2⟩

theorem validateContent_storable {text : Option String} {file : Option FileMeta}
    (h : (validateContent text file).isOk = true) :
    (∀ t, text = some t → t.toList.length ≤ maxTextChars) ∧
      ∀ f, file = some f → f.cid.utf8ByteSize ≤ maxCidChars ∧ f.name.toList.length ≤ maxNameChars ∧
        f.mime.toList.length ≤ maxMimeChars ∧ f.key.utf8ByteSize ≤ maxKeyChars := by
  obtain ⟨u, h⟩ := isOk_eq_true.1 h
  obtain ⟨-, h⟩ := ensure_bind_eq_ok.1 h
  obtain ⟨u, htext, hfile⟩ := bind_eq_ok.1 h
  refine ⟨fun t ht => ?_, fun f hf => ?_⟩
  · rw [ht] at htext
    obtain ⟨u, ht, -⟩ := bind_eq_ok.1 htext
    obtain ⟨hlen, -⟩ := ensure_bind_eq_ok.1 ht
    exact of_decide_eq_true hlen
  · rw [hf] at hfile
    exact validateFile_ok hfile

theorem verify_ok {incoming : Incoming} (h : pre.verify C = .ok incoming) : Wiresign.verifyWire C pre.value = true ∧
      (pre.kind = .message ∧ incoming = .message ⟨pre.fromDid, pre.id, pre.ts, pre.text, pre.file⟩ ∨
        pre.kind = .ack ∧ incoming = .ack ⟨pre.fromDid, pre.id, pre.ts⟩) := by
  obtain ⟨hverify, h⟩ := ensure_bind_eq_ok.1 h
  refine ⟨hverify, ?_⟩
  cases hkind : pre.kind with
  | message =>
    rw [hkind] at h
    cases h
    exact .inl ⟨rfl, rfl⟩
  | ack =>
    rw [hkind] at h
    cases h
    exact .inr ⟨rfl, rfl⟩

/-- What has been checked of a message that is accepted or dropped as a duplicate. -/
structure DmMessage.Passed (C : Crates) (sender ourDid : String) (nowMs : UInt64) (msg : DmMessage) : Prop where
  did : msg.fromDid.utf8ByteSize = didKeyLen
  node : nodeIdForDid C msg.fromDid = sender
  other : msg.fromDid ≠ ourDid
  skew : absDiff msg.ts nowMs ≤ maxSkewMs
  storable : msg.stored.Storable

/-- **What `process_inbound` does**: it stops before the limiter, or is charged and stops, or takes a message or a receipt. -/
inductive Service.Took (C : Crates) (s : Service) (sender : String) (data : List UInt8) (nowMs : UInt64) (now : Nat)
    (lru : Bool → Option String) : Service × Outcome → Prop where
  | stopped {out : Outcome} : (∀ did id, out ≠ .accepted did id) → (∀ upgraded, out ≠ .ackApplied upgraded) →
      Took C s sender data nowMs now lru (s, out)
  | charged {out : Outcome} : (∀ did id, out ≠ .accepted did id) → (∀ upgraded, out ≠ .ackApplied upgraded) →
      Took C s sender data nowMs now lru ({ s with limiter := (s.limiter.allow sender now).1 }, out)
  | message {msg : DmMessage} : incomingOf C data sender s.identity.did nowMs = some (.message msg) →
      msg.Passed C sender s.identity.did nowMs → s.dedupe.contains msg.fromDid msg.id = false →
      (s.limiter.allow sender now).2 = true → Took C s sender data nowMs now lru
        (({ s with limiter := (s.limiter.allow sender now).1 } : Service).acceptMessage msg nowMs now lru)
  | ack {ack : DmAck} : incomingOf C data sender s.identity.did nowMs = some (.ack ack) →
      (s.limiter.allow sender now).2 = true → Took C s sender data nowMs now lru
        (({ s with limiter := (s.limiter.allow sender now).1 } : Service).applyAck ack)

theorem processInbound_took (C : Crates) (s : Service) (sender : String) (data : List UInt8) (nowMs : UInt64) (now : Nat)
    (admits : String → Bool) (lru : Bool → Option String) :
    Service.Took C s sender data nowMs now lru (s.processInbound C sender data nowMs now admits lru) := by
  unfold Service.processInbound
  split
  · exact .stopped nofun nofun
  · exact .stopped nofun nofun
  · exact .stopped nofun nofun
  rename_i pre hpre
  have hchecked := precheck_checked hpre
  split
  · exact .stopped nofun nofun
  split
  · exact .stopped nofun nofun
  rename_i hseen
  dsimp only
  split
  · exact .charged nofun nofun
  rename_i hallowed
  have hallowed : (s.limiter.allow sender now).2 = true := Bool.not_eq_false _ ▸ hallowed
  split
  · exact .charged nofun nofun
  rename_i incoming hverify
  have hincoming : incomingOf C data sender s.identity.did nowMs = some incoming := by
    unfold incomingOf
    rw [hpre]
    dsimp only
    rw [hverify]
    rfl
  rcases (verify_ok hverify).2 with ⟨hkind, rfl⟩ | ⟨-, rfl⟩
  · obtain ⟨htext, hfile⟩ := validateContent_storable (hchecked.content hkind)
    have hnew : s.dedupe.contains pre.fromDid pre.id = false := Bool.eq_false_iff.2 fun hin => hseen ⟨hkind, hin⟩
    exact .message hincoming ⟨hchecked.did, hchecked.node, hchecked.other, hchecked.skew, ⟨hchecked.id, htext, hfile⟩⟩ hnew
      hallowed
  · exact .ack hincoming hallowed

theorem acceptMessage_cases (s : Service) (msg : DmMessage) (nowMs : UInt64) (now : Nat) (lru : Bool → Option String) :
    ((s.dedupe.insert msg.fromDid msg.id now).2 = true ∧ ∃ history, s.history.add msg.fromDid msg.stored nowMs true lru = .ok history ∧
        s.acceptMessage msg nowMs now lru =
          ({ s with dedupe := (s.dedupe.insert msg.fromDid msg.id now).1, history := history }, .accepted msg.fromDid msg.id)) ∨
      ∃ out, (∀ did id, out ≠ .accepted did id) ∧ (∀ upgraded, out ≠ .ackApplied upgraded) ∧
        s.acceptMessage msg nowMs now lru = ({ s with dedupe := (s.dedupe.insert msg.fromDid msg.id now).1 }, out) := by
  unfold Service.acceptMessage
  dsimp only
  split
  · exact .inr ⟨.duplicate, nofun, nofun, rfl⟩
  rename_i hfresh
  split
  · rename_i history hadd
    exact .inl ⟨Bool.not_eq_false _ ▸ hfresh, history, hadd, rfl⟩
  · exact .inr ⟨.duplicate, nofun, nofun, rfl⟩
  · exact .inr ⟨.historyFull, nofun, nofun, rfl⟩

def Incoming.fromDid : Incoming → String
  | .message msg => msg.fromDid
  | .ack receipt => receipt.fromDid

def Incoming.id : Incoming → String
  | .message msg => msg.id
  | .ack receipt => receipt.id

def Incoming.kind : Incoming → Kind
  | .message _ => .message
  | .ack _ => .ack

/-- What `process_inbound` does with a wire that passes the checks. -/
def Service.take (s : Service) (sender : String) (incoming : Incoming) (nowMs : UInt64) (now : Nat) (lru : Bool → Option String) :
    Service × Outcome :=
  if incoming.kind = .message ∧ s.dedupe.contains incoming.fromDid incoming.id = true then (s, .duplicate)
  else
    let (limiter, allowed) := s.limiter.allow sender now
    let s := { s with limiter := limiter }
    if allowed = false then (s, .rateLimited) else s.receive incoming nowMs now lru

theorem processInbound_of_incoming {incoming : Incoming} (hincoming : incomingOf C data sender s.identity.did nowMs = some incoming)
    (hadm : admits incoming.fromDid = true) :
    s.processInbound C sender data nowMs now admits lru = s.take sender incoming nowMs now lru := by
  unfold incomingOf at hincoming
  split at hincoming
  · rename_i pre hpre
    cases hverify : pre.verify C with
    | error reject =>
      rw [hverify] at hincoming
      cases hincoming
    | ok got =>
      rw [hverify] at hincoming
      obtain rfl : got = incoming := Option.some.inj hincoming
      obtain ⟨hkind, hfrom, hid⟩ : got.kind = pre.kind ∧ got.fromDid = pre.fromDid ∧ got.id = pre.id := by
        rcases (verify_ok hverify).2 with ⟨hkind, rfl⟩ | ⟨hkind, rfl⟩
        · exact ⟨hkind.symm, rfl, rfl⟩
        · exact ⟨hkind.symm, rfl, rfl⟩
      rw [hfrom] at hadm
      unfold Service.processInbound Service.take
      rw [hpre]
      dsimp only
      rw [hadm, if_neg Bool.noConfusion, hverify, hkind, hfrom, hid]
  · cases hincoming

end Mistl.Dm
