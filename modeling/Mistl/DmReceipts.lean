import Mistl.DmSigned
/-!
# DmReceipts — two nodes that write to each other

`dm::send` hands a message to the transport and records it afterwards; the receipt of the other node marks what is recorded.
Mail arrives in any order, any number of times and after any delay.
-/
open List Mistl.Table

namespace Mistl.Dm

/-- A `dm.send` under way, from its `fresh_id` to `History::add`. -/
structure Sending where
  did : String
  id : String
  ts : UInt64
  text : Option String
  file : Option FileMeta
  sent : Bool
  deriving DecidableEq

/-- What `send` stores: the file without its key. -/
def Sending.stored (s : Sending) : StoredMsg :=
  ⟨s.id, true, s.ts, s.text, s.file.map fun file => { file with key := "" }, if s.sent then .sent else .failed⟩

/-- What one node sent to the other, and for a receipt its id and time. -/
structure Mail where
  target : Bool
  data : List UInt8
  receipt : Option (String × UInt64)

/-- Two nodes, what they are sending, what they have sent each other, and the receipts that reached a node in time. -/
structure Ends where
  service : Bool → Service
  sending : Bool → List Sending
  mail : List Mail
  reached : List (Bool × String)

/-- The surroundings of one call of `process_inbound`. -/
structure Call where
  nowMs : UInt64
  now : Nat
  admits : String → Bool
  lru : Bool → Option String
  /-- The time of the receipt, if there is one. -/
  ackMs : UInt64

inductive Move where
  | begin (e : Bool) (s : Sending)
  | route (e : Bool) (s : Sending)
  | record (e : Bool) (s : Sending) (lru : Bool → Option String)
  | deliver (mail : Mail) (call : Call)
  | foreign (e : Bool) (sender : String) (data : List UInt8) (call : Call)
  | clear (e : Bool) (did : String)
  | read (e : Bool) (did : String)

namespace Ends

def withHistory (x : Ends) (e : Bool) (h : History) : Ends :=
  { x with service := Function.update x.service e { x.service e with history := h } }

@[simp] theorem withHistory_service (x : Ends) (e e' : Bool) (h : History) :
    (x.withHistory e h).service e' = if e' = e then { x.service e with history := h } else x.service e' :=
  Function.update_apply ..

def ackOf (C : Crates) (x : Ends) (e : Bool) (ackMs : UInt64) : Outcome → List Mail
  | .accepted did id =>
    if did = (x.service !e).identity.did then [⟨!e, buildAck C (x.service e).identity did id ackMs, some (id, ackMs)⟩] else []
  | _ => []

/-- One call of `process_inbound` at an end. -/
def receive (C : Crates) (x : Ends) (e : Bool) (sender : String) (data : List UInt8) (call : Call) : Ends :=
  let result := (x.service e).processInbound C sender data call.nowMs call.now call.admits call.lru
  { x with service := Function.update x.service e result.1, mail := x.mail ++ x.ackOf C e call.ackMs result.2 }

@[simp] theorem receive_sending (C : Crates) (x : Ends) (e : Bool) (sender : String) (data : List UInt8) (call : Call) :
    (x.receive C e sender data call).sending = x.sending := rfl

@[simp] theorem receive_service (C : Crates) (x : Ends) (e e' : Bool) (sender : String) (data : List UInt8) (call : Call) :
    (x.receive C e sender data call).service e' = if e' = e then
      ((x.service e).processInbound C sender data call.nowMs call.now call.admits call.lru).1 else x.service e' :=
  Function.update_apply ..

/-- A receipt that is delivered within the clock skew and the rate, from a node that is admitted. -/
def inTime (C : Crates) (x : Ends) (mail : Mail) (call : Call) : List (Bool × String) :=
  match mail.receipt with
  | some (id, ts) =>
    if absDiff ts call.nowMs ≤ maxSkewMs ∧ call.admits (x.service !mail.target).identity.did = true ∧
        ((x.service mail.target).limiter.allow ((x.service !mail.target).identity.nodeId C) call.now).2 = true
    then [(mail.target, id)] else []
  | none => []

/-- One step of the two ends.  The id of a message is fresh. -/
inductive Step (C : Crates) (x : Ends) : Move → Ends → Prop where
  | begin {e : Bool} {s : Sending} {data : List UInt8} : s.sent = false → isValidId s.id = true →
      (∀ s' ∈ x.sending e, s'.id ≠ s.id) → (e, s.id) ∉ x.reached →
      buildMessage C (x.service e).identity s.did s.id s.ts s.text s.file = .ok data →
      Step C x (.begin e s) { x with sending := Function.update x.sending e (x.sending e ++ [s]) }
  /-- `send_direct` accepts the message. -/
  | route {e : Bool} {s : Sending} {data : List UInt8} : s ∈ x.sending e →
      buildMessage C (x.service e).identity s.did s.id s.ts s.text s.file = .ok data →
      Step C x (.route e s)
        { x with
          sending := Function.update x.sending e ((x.sending e).map fun s' => if s' = s then { s with sent := true } else s')
          mail := x.mail ++ if s.did = (x.service !e).identity.did then [⟨!e, data, none⟩] else [] }
  | record {e : Bool} {s : Sending} {lru : Bool → Option String} {h : History} : s ∈ x.sending e →
      (x.service e).history.add s.did s.stored s.ts false lru = .ok h →
      Step C x (.record e s lru) { x.withHistory e h with sending := Function.update x.sending e ((x.sending e).erase s) }
  | recordFailed {e : Bool} {s : Sending} {lru : Bool → Option String} {error : AddError} : s ∈ x.sending e →
      (x.service e).history.add s.did s.stored s.ts false lru = .error error →
      Step C x (.record e s lru) { x with sending := Function.update x.sending e ((x.sending e).erase s) }
  | deliver {mail : Mail} {call : Call} : mail ∈ x.mail → Step C x (.deliver mail call)
        { x.receive C mail.target ((x.service !mail.target).identity.nodeId C) mail.data call with
          reached := x.reached ++ x.inTime C mail call }
  | foreign {e : Bool} {sender : String} {data : List UInt8} {call : Call} :
      Step C x (.foreign e sender data call) (x.receive C e sender data call)
  | clear {e : Bool} {did : String} : Step C x (.clear e did) (x.withHistory e ((x.service e).history.clear did))
  | read {e : Bool} {did : String} : Step C x (.read e did) (x.withHistory e ((x.service e).history.markRead did))

/-- The states of a run whose steps all meet `ok`. -/
inductive Reach (C : Crates) (start : Ends) (ok : Ends → Move → Prop) : Ends → Prop where
  | refl : Reach C start ok start
  | tail {x x' : Ends} {move : Move} : Reach C start ok x → ok x move → Step C x move x' → Reach C start ok x'

end Ends

/-! ## What a history holds -/

def History.Shaped (h : History) : Prop := ∀ did conv, h.convs.get did = some conv →
    (conv.messages.map StoredMsg.id).Nodup ∧ ∀ m ∈ conv.messages, m.mine = true → m.status ≠ .received

def History.Delivered (h : History) (did id : String) : Prop :=
  ∀ conv, h.convs.get did = some conv → ∀ m ∈ conv.messages, m.id = id → m.mine = true → m.status = .delivered

def History.NotFailed (h : History) (did id : String) : Prop :=
  ∀ conv, h.convs.get did = some conv → ∀ m ∈ conv.messages, m.id = id → m.mine = true → m.status ≠ .failed

def Ends.Recorded (x : Ends) : Move → Prop
  | .deliver mail _ => ∀ id ts, mail.receipt = some (id, ts) → (∀ s ∈ x.sending mail.target, s.id ≠ id) ∧
      (x.service mail.target).history.NotFailed (x.service !mail.target).identity.did id
  | _ => True

variable {C : Crates} {h h' : History} {did id : String}

/-! ## The operations of a history -/

/-- Each conversation afterwards is one from before, in part, with at most one message more. -/
structure History.Grows (h h' : History) (did : String) (msg : StoredMsg) : Prop where
  get : ∀ d conv, h'.convs.get d = some conv → (∃ old, h.convs.get d = some old ∧ conv.messages <:+ old.messages) ∨
    d = did ∧ ∃ old, (h.convs.get did = none ∧ old = [] ∨ ∃ c, h.convs.get did = some c ∧ c.messages = old) ∧
      conv.messages <:+ old ++ [msg] ∧ ∀ m ∈ old, m.id ≠ msg.id

variable {msg : StoredMsg}

theorem History.add_grows {nowMs : UInt64} {remote : Bool} {lru : Bool → Option String}
    (hadd : h.add did msg nowMs remote lru = .ok h') : h.Grows h' did msg := by
  have happend : ∀ g : History, (∀ d conv, g.convs.get d = some conv → h.convs.get d = some conv) →
      (g.convs.get did = h.convs.get did) →
      (¬(h.convs.get did).any (fun conv => conv.messages.any (fun m => m.id = msg.id)) = true) →
      h.Grows (g.append did msg nowMs remote) did msg := by
    intro g hsub hsame hnew
    refine ⟨fun d conv hget => ?_⟩
    unfold append at hget
    rcases of_get_insert hget with ⟨hd, rfl⟩ | ⟨-, hget⟩
    · refine .inr ⟨hd, ((h.convs.get did).getD ⟨did, 0, 0, []⟩).messages, ?_, ?_, ?_⟩
      · cases hold : h.convs.get did with
        | none => exact .inl ⟨rfl, rfl⟩
        | some c => exact .inr ⟨c, rfl, rfl⟩
      · refine ((trimBytes_suffix _ _).trans (trimCount_suffix _)).trans ?_
        rw [hsame]
        split <;> exact suffix_refl _
      · intro m hm hid
        cases hold : h.convs.get did with
        | none =>
          rw [hold] at hm
          cases hm
        | some c =>
          rw [hold] at hm hnew
          exact hnew (any_eq_true.2 ⟨m, hm, decide_eq_true hid⟩)
    · exact .inl ⟨conv, hsub d conv hget, suffix_refl _⟩
  unfold add at hadd
  split at hadd
  · cases hadd
  rename_i hnew
  split at hadd
  · rename_i hroom
    split at hadd
    · cases hadd
    rename_i g hg
    cases hadd
    obtain ⟨victim, rfl⟩ : ∃ victim, ⟨h.convs.erase victim, h.dirty.erase victim, Insert.insert victim h.removed⟩ = g := by
      unfold makeRoom at hg
      split at hg
      · cases hg
      · rename_i victim _
        exact ⟨victim, Option.some.inj hg⟩
    refine happend _ (fun d conv hget => ?_) ?_ hnew
    · exact (of_get_erase hget).2
    · rw [get_erase, hroom.1, ite_self]
  · cases hadd
    exact happend h (fun _ _ hget => hget) rfl hnew

theorem History.Grows.shaped (hg : h.Grows h' did msg) (hs : h.Shaped)
    (hmsg : msg.mine = true → msg.status ≠ .received) : h'.Shaped := by
  intro d conv hget
  rcases hg.get d conv hget with ⟨old, hold, hsub⟩ | ⟨-, old, hold, hsub, hnew⟩
  · obtain ⟨hnodup, hmine⟩ := hs d old hold
    exact ⟨hnodup.sublist (hsub.sublist.map _), fun m hm => hmine m (hsub.subset hm)⟩
  · have hprev : (old.map StoredMsg.id).Nodup ∧ ∀ m ∈ old, m.mine = true → m.status ≠ .received := by
      rcases hold with ⟨-, rfl⟩ | ⟨c, hc, rfl⟩
      · exact ⟨nodup_nil, nofun⟩
      · exact hs did c hc
    refine ⟨Nodup.sublist (hsub.sublist.map _) ?_, fun m hm => ?_⟩
    · rw [map_append]
      refine hprev.1.append (nodup_singleton _) fun i hi hi' => ?_
      obtain ⟨m, hm, rfl⟩ := mem_map.1 hi
      exact hnew m hm (mem_singleton.1 hi')
    · rcases mem_append.1 (hsub.subset hm) with hm | hm
      · exact hprev.2 m hm
      · rw [mem_singleton.1 hm]
        exact hmsg

theorem History.Grows.delivered {d : String} (hg : h.Grows h' did msg) (hd : h.Delivered d id)
    (hmsg : d = did → msg.id = id → msg.mine = true → msg.status = .delivered) : h'.Delivered d id := by
  intro conv hget m hm
  rcases hg.get d conv hget with ⟨old, hold, hsub⟩ | ⟨rfl, old, hold, hsub, -⟩
  · exact hd old hold m (hsub.subset hm)
  · rcases mem_append.1 (hsub.subset hm) with hm | hm
    · rcases hold with ⟨-, rfl⟩ | ⟨c, hc, rfl⟩
      · cases hm
      · exact hd c hc m hm
    · rw [mem_singleton.1 hm]
      exact hmsg rfl

def History.Keeps (h h' : History) : Prop :=
  ∀ d conv, h'.convs.get d = some conv → ∃ old, h.convs.get d = some old ∧ conv.messages = old.messages

theorem History.Keeps.shaped (hk : h.Keeps h') (hs : h.Shaped) : h'.Shaped := fun d conv hget => by
  obtain ⟨old, hold, hsame⟩ := hk d conv hget
  rw [hsame]
  exact hs d old hold

theorem History.Keeps.delivered (hk : h.Keeps h') (hd : h.Delivered did id) : h'.Delivered did id := fun conv hget => by
  obtain ⟨old, hold, hsame⟩ := hk did conv hget
  rw [hsame]
  exact hd old hold

theorem History.clear_keeps (h : History) (did : String) : h.Keeps (h.clear did) := fun d conv hget => by
  unfold clear at hget
  split at hget
  · obtain ⟨-, hget⟩ := of_get_erase hget
    exact ⟨conv, hget, rfl⟩
  · exact ⟨conv, hget, rfl⟩

theorem History.markRead_keeps (h : History) (did : String) : h.Keeps (h.markRead did) := fun d conv hget => by
  unfold markRead at hget
  split at hget
  · exact ⟨conv, hget, rfl⟩
  rename_i old hold
  split at hget
  · rcases of_get_insert hget with ⟨hd, rfl⟩ | ⟨-, hget⟩
    · exact ⟨old, hd ▸ hold, rfl⟩
    · exact ⟨conv, hget, rfl⟩
  · exact ⟨conv, hget, rfl⟩

theorem deliver_same : ∀ {messages delivered : List StoredMsg}, History.deliver id messages = some delivered →
    delivered.map StoredMsg.id = messages.map StoredMsg.id ∧
      ∀ m ∈ delivered, ∃ old ∈ messages, m.id = old.id ∧ m.mine = old.mine ∧ (m.status = old.status ∨ m.status = .delivered)
  | [], _, hd => by cases hd
  | msg :: messages, delivered, hd => by
    unfold History.deliver at hd
    split at hd
    · split at hd
      · cases hd
        refine ⟨rfl, fun m hm => ?_⟩
        rcases mem_cons.1 hm with rfl | hm
        · exact ⟨msg, mem_cons_self, rfl, rfl, .inr rfl⟩
        · exact ⟨m, mem_cons_of_mem _ hm, rfl, rfl, .inl rfl⟩
      · cases hd
    · obtain ⟨rest, hrest, rfl⟩ := Option.map_eq_some_iff.1 hd
      obtain ⟨hids, hsame⟩ := deliver_same hrest
      refine ⟨by rw [map_cons, map_cons, hids], fun m hm => ?_⟩
      rcases mem_cons.1 hm with rfl | hm
      · exact ⟨m, mem_cons_self, rfl, rfl, .inl rfl⟩
      · obtain ⟨old, hold, hm⟩ := hsame m hm
        exact ⟨old, mem_cons_of_mem _ hold, hm⟩

theorem deliver_delivered : ∀ {messages : List StoredMsg}, (messages.map StoredMsg.id).Nodup →
    (∀ m ∈ messages, m.id = id → m.mine = true → m.status = .sent ∨ m.status = .delivered) →
    ∀ m ∈ (History.deliver id messages).getD messages, m.id = id → m.mine = true → m.status = .delivered
  | [], _, _, m, hm => absurd hm not_mem_nil
  | msg :: messages, hnodup, hstatus, m, hm => by
    obtain ⟨hnew, hnodup⟩ := nodup_cons.1 hnodup
    unfold History.deliver at hm
    split at hm
    · rename_i hid
      have hrest : ∀ m ∈ messages, m.id ≠ id := fun m hm he => hnew (mem_map.2 ⟨m, hm, he.trans hid.symm⟩)
      split at hm
      · rcases mem_cons.1 hm with rfl | hm
        · exact fun _ _ => rfl
        · exact fun he _ => absurd he (hrest m hm)
      · rename_i hno
        rcases mem_cons.1 hm with rfl | hm
        · intro he hmine
          exact (hstatus m mem_cons_self he hmine).resolve_left fun hsent => hno ⟨hmine, hsent⟩
        · exact fun he _ => absurd he (hrest m hm)
    · rename_i hid
      have hrest := deliver_delivered hnodup fun m hm => hstatus m (mem_cons_of_mem _ hm)
      cases hdel : History.deliver id messages with
      | none =>
        rw [hdel] at hm hrest
        rcases mem_cons.1 hm with rfl | hm
        · exact fun he _ => absurd he hid
        · exact hrest m hm
      | some rest =>
        rw [hdel] at hm hrest
        rcases mem_cons.1 hm with rfl | hm
        · exact fun he _ => absurd he hid
        · exact hrest m hm

theorem History.markDelivered_get (h : History) (did id d : String) {conv : Conversation}
    (hget : (h.markDelivered did id).1.convs.get d = some conv) : ∃ old, h.convs.get d = some old ∧
      (conv.messages = old.messages ∨ d = did ∧ deliver id old.messages = some conv.messages) := by
  unfold markDelivered at hget
  split at hget
  · exact ⟨conv, hget, .inl rfl⟩
  rename_i old hold
  split at hget
  · exact ⟨conv, hget, .inl rfl⟩
  rename_i messages hmessages
  rcases of_get_insert hget with ⟨hd, rfl⟩ | ⟨-, hget⟩
  · exact ⟨old, hd ▸ hold, .inr ⟨hd, hmessages⟩⟩
  · exact ⟨conv, hget, .inl rfl⟩

theorem History.markDelivered_shaped (hs : h.Shaped) (did id : String) : (h.markDelivered did id).1.Shaped := fun d conv hget => by
  obtain ⟨old, hold, hsame | ⟨-, hdel⟩⟩ := h.markDelivered_get did id d hget
  · rw [hsame]
    exact hs d old hold
  · obtain ⟨hnodup, hmine⟩ := hs d old hold
    obtain ⟨hids, hsame⟩ := deliver_same hdel
    refine ⟨hids ▸ hnodup, fun m hm hm' => ?_⟩
    obtain ⟨o, ho, -, howner, hstatus | hstatus⟩ := hsame m hm
    · rw [hstatus]
      exact hmine o ho (howner ▸ hm')
    · rw [hstatus]
      exact nofun

theorem History.Delivered.markDelivered {did' id' : String} (hd : h.Delivered did id) :
    (h.markDelivered did' id').1.Delivered did id := fun conv hget m hm hid hmine => by
  obtain ⟨old, hold, hsame | ⟨-, hdel⟩⟩ := h.markDelivered_get did' id' did hget
  · exact hd old hold m (hsame ▸ hm) hid hmine
  · obtain ⟨o, ho, hsameid, howner, hstatus | hstatus⟩ := (deliver_same hdel).2 m hm
    · rw [hstatus]
      exact hd old hold o ho (hsameid ▸ hid) (howner ▸ hmine)
    · exact hstatus

theorem History.markDelivered_delivered (hs : h.Shaped) (hsent : h.NotFailed did id) : (h.markDelivered did id).1.Delivered did id := by
  intro conv hget
  have hstatus : ∀ old, h.convs.get did = some old → ∀ m ∈ old.messages, m.id = id → m.mine = true →
      m.status = .sent ∨ m.status = .delivered := fun old hold m hm hid hmine => by
    have h1 := hsent old hold m hm hid hmine
    have h2 := (hs did old hold).2 m hm hmine
    cases hstatus : m.status with
    | sent => exact .inl rfl
    | delivered => exact .inr rfl
    | failed => exact absurd hstatus h1
    | received => exact absurd hstatus h2
  unfold markDelivered at hget
  split at hget
  · rename_i hnone
    rw [hnone] at hget
    cases hget
  rename_i old hold
  have hall := deliver_delivered (hs did old hold).1 (hstatus old hold)
  split at hget
  · rename_i hnone
    rw [hold] at hget
    cases hget
    rwa [hnone] at hall
  · rename_i messages hmessages
    rw [get_insert_self] at hget
    cases hget
    rwa [hmessages] at hall

/-! ## The invariant -/

theorem processInbound_history (C : Crates) (s : Service) (sender : String) (data : List UInt8) (nowMs : UInt64) (now : Nat)
    (admits : String → Bool) (lru : Bool → Option String) :
    (s.processInbound C sender data nowMs now admits lru).1.identity = s.identity ∧
      ((s.processInbound C sender data nowMs now admits lru).1.history = s.history ∨
        (∃ msg, s.history.Grows (s.processInbound C sender data nowMs now admits lru).1.history msg.fromDid (DmMessage.stored msg)) ∨
        ∃ did id, (s.processInbound C sender data nowMs now admits lru).1.history = (s.history.markDelivered did id).1) ∧
      ∀ did id, (s.processInbound C sender data nowMs now admits lru).2 = .accepted did id → isValidId id = true := by
  have htook := processInbound_took C s sender data nowMs now admits lru
  generalize s.processInbound C sender data nowMs now admits lru = result at htook
  cases htook with
  | stopped hne _ | charged hne _ => exact ⟨rfl, .inl rfl, fun did id he => absurd he (hne did id)⟩
  | @message msg _ hpassed _ _ =>
    rcases acceptMessage_cases { s with limiter := (s.limiter.allow sender now).1 } msg nowMs now lru with
      ⟨-, history, hadd, hresult⟩ | ⟨out, hne, -, hresult⟩
    · rw [hresult]
      refine ⟨rfl, .inr (.inl ⟨msg, History.add_grows hadd⟩), fun did id he => ?_⟩
      obtain ⟨-, rfl⟩ := Outcome.accepted.inj he
      exact hpassed.storable.id
    · rw [hresult]
      exact ⟨rfl, .inl rfl, fun did id he => absurd he (hne did id)⟩
  | ack _ _ => exact ⟨rfl, .inr (.inr ⟨_, _, rfl⟩), nofun⟩

namespace Ends

/-- **What holds between two steps** of nodes with these identities. -/
structure Kept (C : Crates) (identity : Bool → Identity) (x : Ends) : Prop where
  same : ∀ e, (x.service e).identity = identity e
  shaped : ∀ e, (x.service e).history.Shaped
  recorded : ∀ e id, (e, id) ∈ x.reached → ∀ s ∈ x.sending e, s.id ≠ id
  mail : ∀ m ∈ x.mail, ∀ id ts, m.receipt = some (id, ts) →
    isValidId id = true ∧ m.data = buildAck C (identity !m.target) (identity m.target).did id ts
  delivered : ∀ e id, (e, id) ∈ x.reached → (x.service e).history.Delivered (identity !e).did id

variable {identity : Bool → Identity} {x x' : Ends} {move : Move} {e : Bool}

theorem Kept.withHistory (hk : x.Kept C identity) (hs : h.Shaped)
    (hd : ∀ id, (e, id) ∈ x.reached → h.Delivered (identity !e).did id) : (x.withHistory e h).Kept C identity := by
  have hservice : ∀ e', ((x.withHistory e h).service e').identity = (x.service e').identity ∧
      ((x.withHistory e h).service e').history = if e' = e then h else (x.service e').history := fun e' => by
    rw [withHistory_service]
    split
    · rename_i he
      exact ⟨he ▸ rfl, rfl⟩
    · exact ⟨rfl, rfl⟩
  refine ⟨fun e' => (hservice e').1.trans (hk.same e'), fun e' => ?_, hk.recorded, hk.mail, fun e' id hmem => ?_⟩
  · rw [(hservice e').2]
    split
    · exact hs
    · exact hk.shaped e'
  · rw [(hservice e').2]
    split
    · rename_i he
      subst he
      exact hd id hmem
    · exact hk.delivered e' id hmem

theorem Kept.receive (hk : x.Kept C identity) (e : Bool) (sender : String) (data : List UInt8) (call : Call) :
    (x.receive C e sender data call).Kept C identity := by
  obtain ⟨hsame, hhistory, haccepted⟩ := processInbound_history C (x.service e) sender data call.nowMs call.now call.admits call.lru
  unfold Ends.receive
  generalize (x.service e).processInbound C sender data call.nowMs call.now call.admits call.lru = result at hsame hhistory haccepted
  have hshaped : result.1.history.Shaped := by
    rcases hhistory with heq | ⟨msg, hgrows⟩ | ⟨did, id, heq⟩
    · rw [heq]
      exact hk.shaped e
    · exact hgrows.shaped (hk.shaped e) nofun
    · rw [heq]
      exact History.markDelivered_shaped (hk.shaped e) did id
  have hdelivered : ∀ id, (e, id) ∈ x.reached → result.1.history.Delivered (identity !e).did id := fun id hmem => by
    rcases hhistory with heq | ⟨msg, hgrows⟩ | ⟨did, id', heq⟩
    · rw [heq]
      exact hk.delivered e id hmem
    · exact hgrows.delivered (hk.delivered e id hmem) nofun
    · rw [heq]
      exact (hk.delivered e id hmem).markDelivered
  refine ⟨fun e' => ?_, fun e' => ?_, hk.recorded, fun m hm id ts hreceipt => ?_, fun e' id hmem => ?_⟩
  · show (Function.update x.service e result.1 e').identity = _
    rw [Function.update_apply]
    split
    · rename_i he
      rw [hsame, he]
      exact hk.same e
    · exact hk.same e'
  · show (Function.update x.service e result.1 e').history.Shaped
    rw [Function.update_apply]
    split
    · exact hshaped
    · exact hk.shaped e'
  · rcases mem_append.1 hm with hm | hm
    · exact hk.mail m hm id ts hreceipt
    · -- the receipt of a message that has just been accepted
      cases hout : result.2 with
      | accepted did id' =>
        rw [hout] at hm
        dsimp only [ackOf] at hm
        split at hm
        · rename_i hdid
          obtain rfl := mem_singleton.1 hm
          cases hreceipt
          refine ⟨haccepted did id hout, ?_⟩
          rw [Bool.not_not, hk.same e, hdid, hk.same]
        · cases hm
      | _ =>
        rw [hout] at hm
        cases hm
  · show (Function.update x.service e result.1 e').history.Delivered _ id
    rw [Function.update_apply]
    split
    · rename_i he
      subst he
      exact hdelivered id hmem
    · exact hk.delivered e' id hmem

theorem mem_inTime {mail : Mail} {call : Call} {id : String} (hmem : (e, id) ∈ x.inTime C mail call) :
    ∃ ts, mail.target = e ∧ mail.receipt = some (id, ts) ∧ absDiff ts call.nowMs ≤ maxSkewMs ∧
      call.admits (x.service !mail.target).identity.did = true ∧
      ((x.service mail.target).limiter.allow ((x.service !mail.target).identity.nodeId C) call.now).2 = true := by
  unfold inTime at hmem
  split at hmem
  · rename_i id' ts hreceipt
    split at hmem
    · rename_i h
      obtain ⟨rfl, rfl⟩ := Prod.mk.inj (mem_singleton.1 hmem)
      exact ⟨ts, rfl, hreceipt, h⟩
    · cases hmem
  · cases hmem

theorem mem_of_erased {s s' : Sending} {e' : Bool} (h : s' ∈ Function.update x.sending e ((x.sending e).erase s) e') :
    s' ∈ x.sending e' := by
  rw [Function.update_apply] at h
  split at h
  · rename_i he
    subst he
    exact mem_of_mem_erase h
  · exact h

variable (hsigns : ∀ e, (identity e).Signs C) (hdistinct : (identity false).did ≠ (identity true).did)

include hsigns hdistinct in
theorem receive_ack (hk : x.Kept C identity) {mail : Mail} {call : Call} {id : String} {ts : UInt64} (hmail : mail ∈ x.mail)
    (hreceipt : mail.receipt = some (id, ts)) (hskew : absDiff ts call.nowMs ≤ maxSkewMs)
    (hadm : call.admits (identity !mail.target).did = true)
    (hallowed : ((x.service mail.target).limiter.allow ((identity !mail.target).nodeId C) call.now).2 = true) :
    ((x.receive C mail.target ((identity !mail.target).nodeId C) mail.data call).service mail.target).history =
      ((x.service mail.target).history.markDelivered (identity !mail.target).did id).1 := by
  obtain ⟨hid, hdata⟩ := hk.mail mail hmail id ts hreceipt
  have hother : ∀ e, (identity !e).did ≠ (identity e).did := fun e => by
    cases e
    · exact hdistinct.symm
    · exact hdistinct
  have hincoming : incomingOf C mail.data ((identity !mail.target).nodeId C) (x.service mail.target).identity.did call.nowMs =
      some (.ack ⟨(identity !mail.target).did, id, ts⟩) := by
    rw [hdata, hk.same]
    exact incomingOf_buildAck (hsigns _) (hsigns _).did (hother _) hskew hid
  have hprocess := @processInbound_of_incoming C (x.service mail.target) _ _ _ call.now call.admits call.lru _ hincoming hadm
  show (Function.update x.service mail.target _ mail.target).history = _
  rw [Function.update_self, hprocess]
  unfold Service.take
  rw [if_neg fun h => Kind.noConfusion h.1]
  dsimp only
  rw [hallowed]
  rfl

include hsigns hdistinct in
theorem Step.kept (hk : x.Kept C identity) (hok : x.Recorded move) (hstep : x.Step C move x') : x'.Kept C identity := by
  cases hstep with
  | @begin e s data hsent hid hnew hfresh hbuild =>
    refine ⟨hk.same, hk.shaped, fun e' id hmem s' hs' => ?_, hk.mail, hk.delivered⟩
    have hs' : s' ∈ Function.update x.sending e (x.sending e ++ [s]) e' := hs'
    rw [Function.update_apply] at hs'
    split at hs'
    · rename_i he
      subst he
      rcases mem_append.1 hs' with hs' | hs'
      · exact hk.recorded e' id hmem s' hs'
      · rw [mem_singleton.1 hs']
        exact fun he => hfresh (he ▸ hmem)
    · exact hk.recorded e' id hmem s' hs'
  | @route e s data hs hbuild =>
    refine ⟨hk.same, hk.shaped, fun e' id hmem s' hs' => ?_, fun m hm id ts hreceipt => ?_, hk.delivered⟩
    · have hs' : s' ∈ Function.update x.sending e
          ((x.sending e).map fun s' => if s' = s then { s with sent := true } else s') e' := hs'
      rw [Function.update_apply] at hs'
      split at hs'
      · rename_i he
        subst he
        obtain ⟨old, hold, rfl⟩ := mem_map.1 hs'
        split
        · exact hk.recorded e' id hmem s hs
        · exact hk.recorded e' id hmem old hold
      · exact hk.recorded e' id hmem s' hs'
    · rcases mem_append.1 hm with hm | hm
      · exact hk.mail m hm id ts hreceipt
      · split at hm
        · obtain rfl := mem_singleton.1 hm
          cases hreceipt
        · cases hm
  | @record e s lru h hs hadd =>
    have hgrows := History.add_grows hadd
    have hstatus : s.stored.mine = true → s.stored.status ≠ .received := fun _ => by
      show (if s.sent then Status.sent else .failed) ≠ .received
      split
      · exact nofun
      · exact nofun
    have hkept : (x.withHistory e h).Kept C identity := hk.withHistory (hgrows.shaped (hk.shaped e) hstatus) fun id hmem =>
      hgrows.delivered (hk.delivered e id hmem) fun _ he _ => absurd he (hk.recorded e id hmem s hs)
    exact ⟨hkept.same, hkept.shaped, fun e' id hmem s' hs' => hk.recorded e' id hmem s' (mem_of_erased hs'), hk.mail, hkept.delivered⟩
  | @recordFailed e s lru error hs hadd =>
    exact ⟨hk.same, hk.shaped, fun e' id hmem s' hs' => hk.recorded e' id hmem s' (mem_of_erased hs'), hk.mail, hk.delivered⟩
  | @deliver mail call hmail =>
    have hkept := hk.receive mail.target ((x.service !mail.target).identity.nodeId C) mail.data call
    refine ⟨hkept.same, hkept.shaped, fun e id hmem => ?_, hkept.mail, fun e id hmem => ?_⟩
    · rcases mem_append.1 hmem with hmem | hmem
      · exact hk.recorded e id hmem
      · obtain ⟨ts, rfl, hreceipt, -⟩ := mem_inTime hmem
        exact (hok id ts hreceipt).1
    · rcases mem_append.1 hmem with hmem | hmem
      · exact hkept.delivered e id hmem
      · obtain ⟨ts, rfl, hreceipt, hskew, hadm, hallowed⟩ := mem_inTime hmem
        rw [hk.same] at hadm hallowed
        have hnot := (hok id ts hreceipt).2
        rw [hk.same] at hnot
        have hhistory := receive_ack hsigns hdistinct hk hmail hreceipt hskew hadm hallowed
        rw [hk.same, hhistory]
        exact History.markDelivered_delivered (hk.shaped _) hnot
  | foreign => exact hk.receive _ _ _ _
  | clear => exact hk.withHistory ((History.clear_keeps _ _).shaped (hk.shaped _)) fun id hmem =>
      (History.clear_keeps _ _).delivered (hk.delivered _ id hmem)
  | read => exact hk.withHistory ((History.markRead_keeps _ _).shaped (hk.shaped _)) fun id hmem =>
      (History.markRead_keeps _ _).delivered (hk.delivered _ id hmem)

structure Fresh (x : Ends) : Prop where
  shaped : ∀ e, (x.service e).history.Shaped
  sending : ∀ e, x.sending e = []
  mail : x.mail = []
  reached : x.reached = []

theorem Fresh.kept (hx : x.Fresh) : x.Kept C fun e => (x.service e).identity := by
  refine ⟨fun _ => rfl, hx.shaped, fun e id hmem => ?_, fun m hm => ?_, fun e id hmem => ?_⟩
  · rw [hx.reached] at hmem
    cases hmem
  · rw [hx.mail] at hm
    cases hm
  · rw [hx.reached] at hmem
    cases hmem

end Ends

/-- **A receipt that reaches its sender in time is kept**, as long as none overtakes the recording of its message. -/
theorem receipts_kept {x x' : Ends} (hx : x.Fresh) (hsigns : ∀ e, (x.service e).identity.Signs C)
    (hdistinct : (x.service false).identity.did ≠ (x.service true).identity.did)
    (hrun : Ends.Reach C x Ends.Recorded x') (e : Bool) (id : String) (hreached : (e, id) ∈ x'.reached) :
    (x'.service e).history.Delivered (x'.service !e).identity.did id := by
  have hkept : x'.Kept C fun e => (x.service e).identity := by
    clear hreached
    induction hrun with
    | refl => exact hx.kept
    | tail _ hok hstep ih => exact hstep.kept hsigns hdistinct ih hok
  rw [hkept.same]
  exact hkept.delivered e id hreached

/-! ## Ann and Bob -/

def sampleSending (sent : Bool) : Sending := ⟨bob, "0123456789abcdef0123456789abcdef", 0, some "hello", none, sent⟩

def sampleService (identity : Identity) : Service := ⟨identity, .default, .empty, .new 0⟩

/-- Ann is end `false`, Bob end `true`. -/
def sampleEnds : Ends := ⟨fun e => sampleService (if e then bobIdentity else annIdentity), fun _ => [], [], []⟩

def sampleCall : Call := ⟨0, 0, fun _ => true, fun _ => none, 0⟩

theorem sampleEnds_fresh : sampleEnds.Fresh := ⟨nofun, fun _ => rfl, rfl, rfl⟩

theorem sampleEnds_signs (e : Bool) : (sampleEnds.service e).identity.Signs dmCrates := by
  cases e
  · exact annIdentity_signs
  · exact bobIdentity_signs

def sampleReceipt : Mail := ⟨false, buildAck dmCrates bobIdentity ann (sampleSending true).id 0, some ((sampleSending true).id, 0)⟩

@[simp] theorem sampleReceipt_target : sampleReceipt.target = false := rfl

theorem bob_accepts {data : List UInt8}
    (hdata : buildMessage dmCrates annIdentity bob (sampleSending false).id 0 (some "hello") none = .ok data) :
    ((sampleService bobIdentity).processInbound dmCrates (annIdentity.nodeId dmCrates) data 0 0 (fun _ => true)
      (fun _ => none)).2 = .accepted ann (sampleSending false).id := by
  have hincoming : incomingOf dmCrates data (annIdentity.nodeId dmCrates) (sampleService bobIdentity).identity.did 0 =
      some (.message ⟨ann, (sampleSending false).id, 0, some "hello", none⟩) :=
    incomingOf_buildMessage annIdentity_signs hdata (show ann ≠ bob by decide) (by decide) (by decide)
  rw [processInbound_of_incoming hincoming rfl]
  rfl

variable {ok : Ends → Move → Prop}

theorem Ends.reach_receipt (hok : ∀ x move, (∀ mail call, move = .deliver mail call → mail.receipt = none) →
    ok x move) : ∃ x, Reach dmCrates sampleEnds ok x ∧ x.sending false = [sampleSending true] ∧
      x.service false = sampleService annIdentity ∧ (x.service true).identity = bobIdentity ∧ sampleReceipt ∈ x.mail := by
  obtain ⟨data, hdata⟩ := isOk_eq_true.1 (show (buildMessage dmCrates annIdentity bob (sampleSending false).id 0 (some "hello")
    none).isOk = true by decide +kernel)
  have hstart : Reach dmCrates sampleEnds ok sampleEnds := .refl
  have hbegun := hstart.tail (hok _ (.begin false (sampleSending false)) nofun)
    (.begin rfl (by decide) nofun not_mem_nil hdata)
  have hsending : sampleSending false ∈ Function.update sampleEnds.sending false
      (sampleEnds.sending false ++ [sampleSending false]) false := by
    exact mem_singleton_self _
  have hrouted := hbegun.tail (hok _ (.route false (sampleSending false)) nofun) (.route hsending hdata)
  have hmail : (⟨true, data, none⟩ : Mail) ∈ sampleEnds.mail ++
      if (sampleSending false).did = (sampleEnds.service !false).identity.did then [⟨!false, data, none⟩] else [] := by
    exact mem_singleton_self _
  have hdelivered := hrouted.tail (hok _ (.deliver ⟨true, data, none⟩ sampleCall) fun mail call he => by cases he; rfl)
    (.deliver hmail)
  refine ⟨_, hdelivered, rfl, rfl, (processInbound_history ..).1, mem_append_right _ ?_⟩
  show _ ∈ Ends.ackOf dmCrates _ true 0 (Service.processInbound dmCrates (sampleService bobIdentity)
    (annIdentity.nodeId dmCrates) data 0 0 (fun _ => true) (fun _ => none)).2
  rw [bob_accepts hdata]
  exact mem_singleton_self _

theorem Ends.inTime_sample {x : Ends} (hann : (x.service false).limiter = .new 0) (hbob : (x.service true).identity = bobIdentity) :
    x.inTime dmCrates sampleReceipt sampleCall = [(false, (sampleSending true).id)] := by
  refine if_pos ⟨by decide, rfl, ?_⟩
  show ((x.service false).limiter.allow ((x.service true).identity.nodeId dmCrates) 0).2 = true
  rw [hann, hbob]
  decide

theorem Ends.Reach.recorded {x : Ends} (hx : Reach dmCrates sampleEnds ok x)
    (hok : ok x (.record false (sampleSending true) fun _ => none)) (hsending : x.sending false = [sampleSending true])
    (hempty : (x.service false).history = .default) : ∃ y, Reach dmCrates sampleEnds ok y ∧ y.sending false = [] ∧
      (y.service false).history = History.default.append bob (sampleSending true).stored 0 false ∧
      (y.service false).limiter = (x.service false).limiter ∧ (y.service true).identity = (x.service true).identity ∧
      y.mail = x.mail ∧ y.reached = x.reached := by
  have hadd : (x.service false).history.add (sampleSending true).did (sampleSending true).stored (sampleSending true).ts false
      (fun _ => none) = .ok (History.default.append bob (sampleSending true).stored 0 false) := by
    rw [hempty]
    exact History.add_default ..
  have hin : sampleSending true ∈ x.sending false := by
    rw [hsending]
    exact mem_singleton_self _
  have herase : (x.sending false).erase (sampleSending true) = [] := by
    rw [hsending]
    exact erase_cons_head ..
  exact ⟨_, hx.tail hok (.record hin hadd), herase, rfl, rfl, rfl, rfl, rfl⟩

theorem receipts_kept_ann : ∃ x, Ends.Reach dmCrates sampleEnds Ends.Recorded x ∧
    (false, (sampleSending true).id) ∈ x.reached ∧ (x.service false).history.Delivered (x.service !false).identity.did
      (sampleSending true).id := by
  obtain ⟨x, hx, hsending, hservice, hbob, hmail⟩ := @Ends.reach_receipt Ends.Recorded fun y move hnone => by
    cases move with
    | deliver mail call =>
      intro id ts hreceipt
      rw [hnone mail call rfl] at hreceipt
      cases hreceipt
    | _ => exact trivial
  obtain ⟨y, hy, hysending, hyhistory, hylimiter, hyidentity, hymail, -⟩ := hx.recorded (show Ends.Recorded _ _ from trivial) hsending
    (by rw [hservice]; rfl)
  rw [hservice] at hylimiter
  rw [hbob] at hyidentity
  rw [← hymail] at hmail
  have hok : y.Recorded (.deliver sampleReceipt sampleCall) := by
    intro id ts hreceipt
    refine ⟨fun s hs => ?_, fun conv hget m hm _ _ => ?_⟩
    · have hs : s ∈ y.sending false := hs
      rw [hysending] at hs
      cases hs
    · have hget : (y.service false).history.convs.get (y.service true).identity.did = some conv := hget
      rw [hyidentity, hyhistory] at hget
      have hget : (insert (∅ : Table String Conversation) bob ⟨bob, 0, 0, [(sampleSending true).stored]⟩).get bob = some conv := hget
      cases hget
      rw [mem_singleton.1 hm]
      exact nofun
  have hz := hy.tail hok (.deliver hmail)
  have hin : (false, (sampleSending true).id) ∈ y.reached ++ y.inTime dmCrates sampleReceipt sampleCall := by
    rw [Ends.inTime_sample hylimiter hyidentity]
    exact mem_append_right _ (mem_singleton_self _)
  exact ⟨_, hz, hin, receipts_kept sampleEnds_fresh sampleEnds_signs (show ann ≠ bob by decide) hz false _ hin⟩

/-- A receipt that overtakes the recording of its message is lost. -/
theorem receipt_lost : ¬ ∀ x, Ends.Reach dmCrates sampleEnds (fun _ _ => True) x → ∀ e id, (e, id) ∈ x.reached →
    (x.service e).history.Delivered (x.service !e).identity.did id := by
  intro hall
  obtain ⟨x, hx, hsending, hservice, hbob, hmail⟩ := @Ends.reach_receipt (fun _ _ => True) fun _ _ _ => trivial
  -- nothing is stored when the receipt is there
  have hincoming : incomingOf dmCrates sampleReceipt.data (bobIdentity.nodeId dmCrates) (sampleService annIdentity).identity.did 0 =
      some (.ack ⟨bob, (sampleSending true).id, 0⟩) :=
    incomingOf_buildAck bobIdentity_signs (by decide) (show bob ≠ ann by decide) (by decide) (by decide)
  have hprocess := @processInbound_of_incoming dmCrates (sampleService annIdentity) _ _ sampleCall.nowMs sampleCall.now
    sampleCall.admits sampleCall.lru _ hincoming rfl
  obtain ⟨y, hy, hysending, hyhistory, hyidentity, hyreached⟩ : ∃ y : Ends, Ends.Reach dmCrates sampleEnds (fun _ _ => True) y ∧
      y.sending false = [sampleSending true] ∧ (y.service false).history = .default ∧ (y.service true).identity = bobIdentity ∧
      (false, (sampleSending true).id) ∈ y.reached := by
    refine ⟨_, hx.tail trivial (@Ends.Step.deliver _ _ _ sampleCall hmail), hsending, ?_, ?_, ?_⟩
    · rw [sampleReceipt_target, Ends.receive_service, hservice, Bool.not_false, hbob, hprocess]
      rfl
    · exact hbob
    · refine mem_append_right _ ?_
      rw [Ends.inTime_sample (by rw [hservice]; rfl) hbob]
      exact mem_singleton_self _
  obtain ⟨z, hz, -, hzhistory, -, hzidentity, -, hzreached⟩ := hy.recorded trivial hysending hyhistory
  have hdelivered := hall z hz false _ (hzreached ▸ hyreached)
  rw [show (z.service !false).identity = bobIdentity from hzidentity.trans hyidentity, hzhistory] at hdelivered
  have hstatus := hdelivered ⟨bob, 0, 0, [(sampleSending true).stored]⟩ (get_insert_self ..) _ (mem_singleton_self _) rfl rfl
  exact Status.noConfusion hstatus

end Mistl.Dm
