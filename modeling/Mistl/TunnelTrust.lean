import Mistl.TunnelConns
/-!
# TunnelTrust — remembered decisions and their lock sections

`tunnel/auth/trust.rs`.  The `TrustStore` as its calls see it: a call is a frame that goes from one lock section to
the next, and the calls of a store interleave.  Whether a persist reaches the disk is the environment's, and what it
wrote is read only by the next start.
-/
open List Mistl.Table Option

namespace Mistl.Tunnel

structure TrustKey where
  peerId : String
  forwardKey : String
  deriving DecidableEq

inductive TrustDecision where
  | allow
  | deny
  deriving DecidableEq

/-- The rows of a store, `TrustStore::entries`. -/
abbrev TrustRows := Table TrustKey TrustDecision

def isDid (s : String) : Bool := "did:".toList.isPrefixOf s.toList

/-- What `lookup` and `remember_for` take for the peer's DID: one that hashes to its node id. -/
def verifiedDid (nodeIdForDid : String → String) (peerId : String) (did : Option String) : Option String :=
  did.filter (fun d => decide (nodeIdForDid d = peerId))

namespace TrustRows

/-- The answer of a `lookup` that nobody interferes with. -/
def answer (nodeIdForDid : String → String) (rows : TrustRows) (peerId : String) (did : Option String)
    (forwardKey : String) : Option TrustDecision :=
  match verifiedDid nodeIdForDid peerId did with
  | none => if isDid peerId then none else (rows.get ⟨peerId, forwardKey⟩).filter (fun d => decide (d = .deny))
  | some did => match rows.get ⟨did, forwardKey⟩ with
    | some decision => some decision
    | none => if isDid peerId then none else rows.get ⟨peerId, forwardKey⟩

/-- The rows that it leaves: a legacy row moves to the DID, where the new row could be persisted. -/
def migrate (nodeIdForDid : String → String) (rows : TrustRows) (peerId : String) (did : Option String)
    (forwardKey : String) (persisted : Bool) : TrustRows :=
  match verifiedDid nodeIdForDid peerId did with
  | none => rows
  | some did => match rows.get ⟨did, forwardKey⟩ with
    | some _ => rows
    | none => if isDid peerId then rows else match rows.get ⟨peerId, forwardKey⟩ with
      | none => rows
      | some decision =>
        let rows := rows.insert ⟨did, forwardKey⟩ decision
        if persisted then rows.erase ⟨peerId, forwardKey⟩ else rows

/-- The rows that `remember_for` leaves, persisted or not. -/
def rememberFor (nodeIdForDid : String → String) (rows : TrustRows) (peerId : String) (did : Option String)
    (forwardKey : String) (decision : TrustDecision) : TrustRows :=
  match verifiedDid nodeIdForDid peerId did with
  | none => rows
  | some did => rows.insert ⟨did, forwardKey⟩ decision

end TrustRows

/-! ## Calls -/

inductive TrustCall where
  | lookup (peerId : String) (did : Option String) (forwardKey : String)
  | rememberFor (peerId : String) (did : Option String) (forwardKey : String) (decision : TrustDecision)
  | remember (key : TrustKey) (decision : TrustDecision)
  | remove (key : TrustKey)
  deriving DecidableEq

/-- Where a call stands, before which of its lock sections, or what it returned (`none` for an error). -/
inductive Frame where
  | readDid (peerId did forwardKey : String)
  | readDeny (peerId forwardKey : String)
  | readLegacy (peerId did forwardKey : String)
  | migrate (peerId did forwardKey : String) (decision : TrustDecision)
  | persistMigration (peerId forwardKey : String) (decision : TrustDecision)
  | dropLegacy (peerId forwardKey : String) (decision : TrustDecision)
  | persistDrop (decision : TrustDecision)
  | answered (result : Option TrustDecision)
  | insert (key : TrustKey) (decision : TrustDecision)
  | persist (key : TrustKey) (decision : TrustDecision) (before : Option TrustDecision)
  | remembered (result : Option Bool)
  | erase (key : TrustKey)
  | persistErase
  | removed (result : Option Bool)
  deriving DecidableEq

def TrustCall.start (nodeIdForDid : String → String) : TrustCall → Frame
  | .lookup peerId did forwardKey => match verifiedDid nodeIdForDid peerId did with
    | none => if isDid peerId then .answered none else .readDeny peerId forwardKey
    | some did => .readDid peerId did forwardKey
  | .rememberFor peerId did forwardKey decision => match verifiedDid nodeIdForDid peerId did with
    | none => .remembered (some false)
    | some did => .insert ⟨did, forwardKey⟩ decision
  | .remember key decision => .insert key decision
  | .remove key => .erase key

/-- **One lock section of a call**; `persisted` says whether a persist reaches the disk. -/
def Frame.next (rows : TrustRows) (persisted : Bool) : Frame → TrustRows × Frame
  | .readDid peerId did forwardKey => (rows, match rows.get ⟨did, forwardKey⟩ with
    | some decision => .answered (some decision)
    | none => if isDid peerId then .answered none else .readLegacy peerId did forwardKey)
  | .readDeny peerId forwardKey => (rows, .answered ((rows.get ⟨peerId, forwardKey⟩).filter (fun d => decide (d = .deny))))
  | .readLegacy peerId did forwardKey => (rows, match rows.get ⟨peerId, forwardKey⟩ with
    | none => .answered none
    | some decision => .migrate peerId did forwardKey decision)
  | .migrate peerId did forwardKey decision => (rows.insert ⟨did, forwardKey⟩ decision, .persistMigration peerId forwardKey decision)
  | .persistMigration peerId forwardKey decision =>
    (rows, if persisted then .dropLegacy peerId forwardKey decision else .answered (some decision))
  | .dropLegacy peerId forwardKey decision => (rows.erase ⟨peerId, forwardKey⟩,
      if rows.contains ⟨peerId, forwardKey⟩ then .persistDrop decision else .answered (some decision))
  | .persistDrop decision => (rows, .answered (some decision))
  | .answered result => (rows, .answered result)
  | .insert key decision => (rows.insert key decision, .persist key decision (rows.get key))
  | .persist _ _ _ => (rows, .remembered (if persisted then some true else none))
  | .remembered result => (rows, .remembered result)
  | .erase key => (rows.erase key, if rows.contains key then .persistErase else .removed (some false))
  | .persistErase => (rows, .removed (if persisted then some true else none))
  | .removed result => (rows, .removed result)

/-! ## Runs -/

/-- The rows of a store, and the calls in the order in which they were issued. -/
structure Trust where
  rows : TrustRows
  calls : List (TrustCall × Frame)

/-- A call is issued, or the `i`th one gets its next lock section. -/
inductive TrustEvent where
  | issue (call : TrustCall)
  | step (i : Nat) (persisted : Bool)

variable (nodeIdForDid : String → String)

def Trust.next (t : Trust) : TrustEvent → Trust
  | .issue call => { t with calls := t.calls ++ [(call, call.start nodeIdForDid)] }
  | .step i persisted => match t.calls[i]? with
    | none => t
    | some (call, frame) =>
      let after := frame.next t.rows persisted
      ⟨after.1, t.calls.set i (call, after.2)⟩

def Trust.run (t : Trust) (events : List TrustEvent) : Trust := events.foldl (Trust.next nodeIdForDid) t

def TrustCall.key : TrustCall → Option TrustKey
  | .lookup _ _ _ => none
  | .rememberFor peerId did forwardKey _ => (verifiedDid nodeIdForDid peerId did).map (fun did => ⟨did, forwardKey⟩)
  | .remember key _ => some key
  | .remove key => some key

def Frame.pending : Frame → Option TrustKey
  | .insert key _ => some key
  | .erase key => some key
  | _ => none

/-- **A migration writes where there is still no row, decisions about one row are written in the order in which they were
issued, and a remember whose persist fails had found its decision in the row.** -/
def Trust.Orderly (t : Trust) : TrustEvent → Prop
  | .issue _ => True
  | .step i persisted => ∀ call frame, t.calls[i]? = some (call, frame) →
    (∀ peerId did forwardKey decision, frame = .migrate peerId did forwardKey decision → t.rows.get ⟨did, forwardKey⟩ = none) ∧
    (∀ key, frame.pending = some key → ∀ j < i, ∀ call' frame', t.calls[j]? = some (call', frame') → frame'.pending ≠ some key) ∧
    ∀ key decision before, frame = .persist key decision before → persisted = false → before = some decision

def Trust.OrderlyRun (t : Trust) : List TrustEvent → Prop
  | [] => True
  | e :: events => t.Orderly e ∧ (t.next nodeIdForDid e).OrderlyRun events

/-- **A deny that was remembered answers the lookups that are issued after it returned**, as long as no decision about its
row is issued after it. -/
def DenyStays (start : Trust) (before after : List TrustEvent) : Prop :=
  ∀ (i : Nat) (peerId did forwardKey : String), isDid did = true → (start.run nodeIdForDid before).calls[i]? =
      some (.rememberFor peerId (some did) forwardKey .deny, .remembered (some true)) →
    (∀ (j : Nat) call frame, i < j → ((start.run nodeIdForDid before).run nodeIdForDid after).calls[j]? = some (call, frame) →
      call.key nodeIdForDid ≠ some ⟨did, forwardKey⟩) →
    ∀ (j : Nat) result, (start.run nodeIdForDid before).calls.length ≤ j →
      ((start.run nodeIdForDid before).run nodeIdForDid after).calls[j]? =
        some (.lookup peerId (some did) forwardKey, .answered result) → result = some .deny

/-- Whether an event is no lock section of the `i`th call. -/
def TrustEvent.notOf (i : Nat) : TrustEvent → Bool
  | .issue _ => true
  | .step j _ => decide (j ≠ i)

/-- **A remember that returned an error might as well not have run**: every other call stands where it stands in the same
run without it, and so does the answer of every lookup. -/
def FailureIsNone (start : Trust) (events : List TrustEvent) : Prop :=
  ∀ (i : Nat) call, (start.run nodeIdForDid events).calls[i]? = some (call, .remembered none) →
    (∀ j ≠ i, (start.run nodeIdForDid events).calls[j]? = (start.run nodeIdForDid (events.filter (TrustEvent.notOf i))).calls[j]?) ∧
    ∀ peerId did forwardKey, (start.run nodeIdForDid events).rows.answer nodeIdForDid peerId did forwardKey =
      (start.run nodeIdForDid (events.filter (TrustEvent.notOf i))).rows.answer nodeIdForDid peerId did forwardKey

/-! ## Steps -/

variable {nodeIdForDid} {t t' : Trust} {events : List TrustEvent} {i j : Nat} {persisted : Bool} {call : TrustCall}
  {frame : Frame}

theorem Trust.next_step_none (h : t.calls[i]? = none) : t.next nodeIdForDid (.step i persisted) = t := by
  simp only [Trust.next, h]

theorem Trust.next_step_some (h : t.calls[i]? = some (call, frame)) : t.next nodeIdForDid (.step i persisted) =
    ⟨(frame.next t.rows persisted).1, t.calls.set i (call, (frame.next t.rows persisted).2)⟩ := by
  simp only [Trust.next, h]

theorem Frame.next_rows (frame : Frame) (rows : TrustRows) (persisted : Bool) : (frame.next rows persisted).1 = rows ∨
    (∃ peerId did forwardKey decision, frame = .migrate peerId did forwardKey decision ∧
      (frame.next rows persisted).1 = rows.insert ⟨did, forwardKey⟩ decision) ∨
    (∃ peerId forwardKey decision, frame = .dropLegacy peerId forwardKey decision ∧
      (frame.next rows persisted).1 = rows.erase ⟨peerId, forwardKey⟩) ∨
    (∃ key decision, frame = .insert key decision ∧ (frame.next rows persisted).1 = rows.insert key decision) ∨
    ∃ key, frame = .erase key ∧ (frame.next rows persisted).1 = rows.erase key := by
  cases frame with
  | migrate peerId did forwardKey decision => exact .inr (.inl ⟨_, _, _, _, rfl, rfl⟩)
  | dropLegacy peerId forwardKey decision => exact .inr (.inr (.inl ⟨_, _, _, rfl, rfl⟩))
  | insert key decision => exact .inr (.inr (.inr (.inl ⟨_, _, rfl, rfl⟩)))
  | erase key => exact .inr (.inr (.inr (.inr ⟨_, rfl, rfl⟩)))
  | _ => exact .inl rfl

theorem Frame.next_pending (frame : Frame) (rows : TrustRows) (persisted : Bool) : (frame.next rows persisted).2.pending = none := by
  cases frame <;> simp only [Frame.next] <;> (repeat' split) <;> rfl

def Frame.legacyPeer : Frame → Option String
  | .readLegacy peerId _ _ => some peerId
  | .migrate peerId _ _ _ => some peerId
  | .persistMigration peerId _ _ => some peerId
  | .dropLegacy peerId _ _ => some peerId
  | _ => none

/-- What a frame knows of its call, and a migration of the node id. -/
structure Frame.Fits (nodeIdForDid : String → String) (call : TrustCall) (frame : Frame) : Prop where
  pending : ∀ key, frame.pending = some key → call.key nodeIdForDid = some key
  legacy : ∀ peerId, frame.legacyPeer = some peerId → isDid peerId = false

theorem TrustCall.start_fits (call : TrustCall) : (call.start nodeIdForDid).Fits nodeIdForDid call := by
  cases call with
  | lookup peerId did forwardKey =>
    simp only [TrustCall.start]
    split
    · split
      · exact ⟨nofun, nofun⟩
      · exact ⟨nofun, nofun⟩
    · exact ⟨nofun, nofun⟩
  | rememberFor peerId did forwardKey decision =>
    simp only [TrustCall.start]
    split
    · exact ⟨nofun, nofun⟩
    · rename_i d hd
      refine ⟨fun key h => ?_, nofun⟩
      rw [TrustCall.key, hd]
      exact h
  | remember key decision | remove key => exact ⟨fun _ h => h, nofun⟩

theorem Frame.Fits.next (h : frame.Fits nodeIdForDid call) (rows : TrustRows) (persisted : Bool) :
    (frame.next rows persisted).2.Fits nodeIdForDid call := by
  refine ⟨fun key hkey => ?_, fun p hp => ?_⟩
  · rw [frame.next_pending] at hkey
    cases hkey
  · cases frame with
    | readDid peerId did forwardKey =>
      simp only [Frame.next] at hp
      split at hp
      · cases hp
      · split at hp
        · cases hp
        · rename_i hlegacy
          cases hp
          exact Bool.eq_false_iff.2 hlegacy
    | readLegacy peerId did forwardKey =>
      simp only [Frame.next] at hp
      split at hp
      · cases hp
      · exact h.legacy p hp
    | migrate peerId did forwardKey decision => exact h.legacy p hp
    | persistMigration peerId forwardKey decision =>
      simp only [Frame.next] at hp
      split at hp
      · exact h.legacy p hp
      · cases hp
    | dropLegacy peerId forwardKey decision | erase key =>
      simp only [Frame.next] at hp
      split at hp <;> cases hp
    | persist key decision before => cases hp
    | _ => cases hp

def Trust.Sound (nodeIdForDid : String → String) (t : Trust) : Prop :=
  ∀ (j : Nat) call frame, t.calls[j]? = some (call, frame) → frame.Fits nodeIdForDid call

variable {calls : List (TrustCall × Frame)}

theorem get_set_call {call' : TrustCall} {frame' x : Frame}
    (h : calls[i]? = some (call, frame)) (hj : (calls.set i (call, x))[j]? = some (call', frame')) :
    (j = i ∧ call' = call ∧ frame' = x) ∨ (j ≠ i ∧ calls[j]? = some (call', frame')) := by
  rw [getElem?_set] at hj
  by_cases hij : i = j
  · rw [if_pos hij, if_pos (List.getElem?_eq_some_iff.1 h).1] at hj
    cases hj
    exact .inl ⟨hij.symm, rfl, rfl⟩
  · rw [if_neg hij] at hj
    exact .inr ⟨fun he => hij he.symm, hj⟩

theorem get_append_call {call' : TrustCall} {frame' x : Frame}
    (hj : (calls ++ [(call, x)])[j]? = some (call', frame')) :
    (j = calls.length ∧ call' = call ∧ frame' = x) ∨ (j < calls.length ∧ calls[j]? = some (call', frame')) := by
  by_cases hlt : j < calls.length
  · rw [getElem?_append_left hlt] at hj
    exact .inr ⟨hlt, hj⟩
  · rw [getElem?_append_right (not_lt.1 hlt)] at hj
    obtain ⟨hzero, hget⟩ := List.getElem?_eq_some_iff.1 hj
    rw [length_singleton] at hzero
    simp only [Nat.lt_one_iff.1 hzero] at hget
    cases hget
    exact .inl ⟨by omega, rfl, rfl⟩

theorem Trust.Sound.next (h : t.Sound nodeIdForDid) (e : TrustEvent) : (t.next nodeIdForDid e).Sound nodeIdForDid := by
  intro j call' frame' hj
  cases e with
  | issue call =>
    rcases get_append_call hj with ⟨-, rfl, rfl⟩ | ⟨-, hj⟩
    · exact call'.start_fits
    · exact h j _ _ hj
  | step i persisted =>
    cases hi : t.calls[i]? with
    | none =>
      rw [Trust.next_step_none hi] at hj
      exact h j _ _ hj
    | some x =>
      rw [Trust.next_step_some hi] at hj
      rcases get_set_call hi hj with ⟨-, rfl, rfl⟩ | ⟨-, hj⟩
      · exact (h i _ _ hi).next _ _
      · exact h j _ _ hj

theorem Trust.call_next (e : TrustEvent) (h : t.calls[j]? = some (call, frame)) :
    ∃ frame', (t.next nodeIdForDid e).calls[j]? = some (call, frame') := by
  cases e with
  | issue call' => exact ⟨frame, by rw [Trust.next, getElem?_append_left (List.getElem?_eq_some_iff.1 h).1, h]⟩
  | step i persisted =>
    cases hi : t.calls[i]? with
    | none => exact ⟨frame, by rw [Trust.next_step_none hi, h]⟩
    | some x =>
      rw [Trust.next_step_some hi, getElem?_set]
      by_cases hij : i = j
      · subst hij
        obtain rfl := Option.some.inj (hi.symm.trans h)
        exact ⟨_, by rw [if_pos rfl, if_pos (List.getElem?_eq_some_iff.1 h).1]⟩
      · exact ⟨frame, by rw [if_neg hij, h]⟩

/-! ## A deny stays -/

/-- A row that says deny, and no decision about it on its way. -/
structure Trust.Noted (t : Trust) (key : TrustKey) : Prop where
  row : t.rows.get key = some .deny
  idle : ∀ (j : Nat) call frame, t.calls[j]? = some (call, frame) → frame.pending ≠ some key

/-- That no decision about a row is issued after the `i`th call. -/
def Trust.LastAt (nodeIdForDid : String → String) (t : Trust) (i : Nat) (key : TrustKey) : Prop :=
  ∀ (j : Nat) call frame, i < j → t.calls[j]? = some (call, frame) → call.key nodeIdForDid ≠ some key

variable {key : TrustKey} {e : TrustEvent}

theorem Trust.LastAt.of_next (h : (t.next nodeIdForDid e).LastAt nodeIdForDid i key) :
    t.LastAt nodeIdForDid i key := fun j call _ hij hj =>
  (Trust.call_next e hj).elim fun frame' hj' => h j call frame' hij hj'

theorem Trust.LastAt.of_run : ∀ (events : List TrustEvent) {t : Trust} {key : TrustKey},
    (t.run nodeIdForDid events).LastAt nodeIdForDid i key → t.LastAt nodeIdForDid i key
  | [], _, _, h => h
  | _ :: events, _, _, h => (Trust.LastAt.of_run events h).of_next

theorem Trust.Noted.next (h : t.Noted key) (hsound : t.Sound nodeIdForDid) (hdid : isDid key.peerId = true)
    (hok : t.Orderly e) (hi : i < t.calls.length)
    (hlast : (t.next nodeIdForDid e).LastAt nodeIdForDid i key) : (t.next nodeIdForDid e).Noted key := by
  cases e with
  | issue call =>
    refine ⟨h.row, fun j call' frame' hj hp => ?_⟩
    rcases get_append_call hj with ⟨hlen, rfl, rfl⟩ | ⟨-, hj'⟩
    · exact hlast j _ _ (by omega) hj (call'.start_fits.pending _ hp)
    · exact h.idle j _ _ hj' hp
  | step k persisted =>
    cases hk : t.calls[k]? with
    | none =>
      rw [Trust.next_step_none hk]
      exact h
    | some x =>
      obtain ⟨call, frame⟩ := x
      rw [Trust.next_step_some hk]
      obtain ⟨hmigrate, -, -⟩ := hok call frame hk
      refine ⟨?_, fun j call' frame' hj hp => ?_⟩
      · rcases frame.next_rows t.rows persisted with heq | ⟨p, d, f, decision, rfl, heq⟩ | ⟨p, f, decision, rfl, heq⟩ |
          ⟨key', decision, rfl, heq⟩ | ⟨key', rfl, heq⟩ <;> rw [heq]
        · exact h.row
        · have hne : key ≠ ⟨d, f⟩ := fun he => by
            have := hmigrate p d f decision rfl
            rw [← he, h.row] at this
            cases this
          rw [get_insert_ne hne]
          exact h.row
        · have hne : key ≠ ⟨p, f⟩ := fun he => by
            have := (hsound k _ _ hk).legacy p rfl
            rw [he] at hdid
            rw [hdid] at this
            cases this
          rw [get_erase_ne hne]
          exact h.row
        · rw [get_insert_ne (fun he => h.idle k _ _ hk (by rw [he]; rfl))]
          exact h.row
        · rw [get_erase_ne (fun he => h.idle k _ _ hk (by rw [he]; rfl))]
          exact h.row
      · rcases get_set_call hk hj with ⟨-, -, rfl⟩ | ⟨-, hj⟩
        · rw [frame.next_pending] at hp
          cases hp
        · exact h.idle j _ _ hj hp

/-- A call that denies: it has not written yet, or its row says deny and no earlier decision is on its way. -/
def Trust.Denied (t : Trust) (i : Nat) (call : TrustCall) (key : TrustKey) : Prop :=
  ∀ frame, t.calls[i]? = some (call, frame) → frame = .insert key .deny ∨ t.Noted key

theorem Trust.Denied.next (h : t.Denied i call key) (hsound : t.Sound nodeIdForDid)
    (hstart : call.start nodeIdForDid = .insert key .deny) (hdid : isDid key.peerId = true)
    (hok : t.Orderly e) (hlast : (t.next nodeIdForDid e).LastAt nodeIdForDid i key) :
    (t.next nodeIdForDid e).Denied i call key := by
  have hkept : ∀ frame, t.calls[i]? = some (call, frame) → t.Noted key → (t.next nodeIdForDid e).Noted key :=
    fun frame hi hn => hn.next hsound hdid hok (List.getElem?_eq_some_iff.1 hi).1 hlast
  intro frame hframe
  cases e with
  | issue call' =>
    rcases get_append_call hframe with ⟨-, rfl, rfl⟩ | ⟨-, hi⟩
    · exact .inl hstart
    · exact (h frame hi).imp_right (hkept frame hi)
  | step k persisted =>
    cases hk : t.calls[k]? with
    | none =>
      rw [Trust.next_step_none hk] at hframe ⊢
      exact h frame hframe
    | some x =>
      obtain ⟨call', frame'⟩ := x
      have hnext := hframe
      rw [Trust.next_step_some hk] at hnext
      rcases get_set_call hk hnext with ⟨rfl, rfl, rfl⟩ | ⟨-, hi⟩
      · refine .inr ?_
        rcases h frame' hk with rfl | hn
        · rw [Trust.next_step_some hk]
          refine ⟨get_insert_self _ _ _, fun j callj framej hj hp => ?_⟩
          rcases get_set_call hk hj with ⟨-, -, rfl⟩ | ⟨hne, hjt⟩
          · cases hp
          · rcases lt_or_gt_of_ne hne with hlt | hgt
            · exact (hok call _ hk).2.1 key rfl j hlt callj framej hjt hp
            · exact hlast.of_next j callj framej hgt hjt ((hsound j callj framej hjt).pending key hp)
        · exact hkept frame' hk hn
      · exact (h frame hi).imp_right (hkept frame hi)

theorem Trust.Sound.run : ∀ (events : List TrustEvent) {t : Trust}, t.Sound nodeIdForDid →
    (t.run nodeIdForDid events).Sound nodeIdForDid
  | [], _, h => h
  | e :: events, _, h => Trust.Sound.run events (h.next e)

theorem Trust.Denied.run (hstart : call.start nodeIdForDid = .insert key .deny)
    (hdid : isDid key.peerId = true) : ∀ (events : List TrustEvent) {t : Trust}, t.Denied i call key →
      t.Sound nodeIdForDid → t.OrderlyRun nodeIdForDid events →
      (t.run nodeIdForDid events).LastAt nodeIdForDid i key → (t.run nodeIdForDid events).Denied i call key
  | [], _, h, _, _, _ => h
  | e :: events, _, h, hsound, hok, hlast =>
    Trust.Denied.run hstart hdid events (h.next hsound hstart hdid hok.1 (hlast.of_run events)) (hsound.next e) hok.2 hlast

/-- A row that says deny, and lookups of it that still have to read it or have answered deny. -/
structure Trust.Answers (t : Trust) (key : TrustKey) (peerId : String) (n : Nat) : Prop where
  noted : t.Noted key
  issued : n ≤ t.calls.length
  asked : ∀ (j : Nat) frame, n ≤ j → t.calls[j]? = some (.lookup peerId (some key.peerId) key.forwardKey, frame) →
    frame = .readDid peerId key.peerId key.forwardKey ∨ frame = .answered (some .deny)

theorem Trust.Answers.next {peerId : String} {n : Nat} (h : t.Answers key peerId n)
    (hsound : t.Sound nodeIdForDid) (hpeer : nodeIdForDid key.peerId = peerId) (hdid : isDid key.peerId = true)
    (hok : t.Orderly e) (hi : i < n) (hlast : (t.next nodeIdForDid e).LastAt nodeIdForDid i key) :
    (t.next nodeIdForDid e).Answers key peerId n := by
  have hnoted := h.noted.next hsound hdid hok (hi.trans_le h.issued) hlast
  cases e with
  | issue call =>
    refine ⟨hnoted, ?_, fun j frame hj hframe => ?_⟩
    · rw [Trust.next, length_append]
      exact h.issued.trans (Nat.le_add_right _ _)
    · rcases get_append_call hframe with ⟨-, hcall, rfl⟩ | ⟨-, hframe⟩
      · left
        rw [← hcall, TrustCall.start, verifiedDid, filter_some, decide_eq_true hpeer]
        rfl
      · exact h.asked j frame hj hframe
  | step k persisted =>
    cases hk : t.calls[k]? with
    | none =>
      rw [Trust.next_step_none hk]
      exact h
    | some x =>
      obtain ⟨call, frame⟩ := x
      rw [Trust.next_step_some hk] at hnoted ⊢
      refine ⟨hnoted, (length_set ..).symm ▸ h.issued, fun j frame' hj hframe => ?_⟩
      rcases get_set_call hk hframe with ⟨rfl, rfl, rfl⟩ | ⟨-, hframe⟩
      · right
        rcases h.asked j frame hj hk with rfl | rfl
        · simp only [Frame.next, show t.rows.get ⟨key.peerId, key.forwardKey⟩ = some .deny from h.noted.row]
        · rfl
      · exact h.asked j frame' hj hframe

theorem Trust.Answers.run {peerId : String} {n : Nat} (hpeer : nodeIdForDid key.peerId = peerId)
    (hdid : isDid key.peerId = true) (hi : i < n) : ∀ (events : List TrustEvent) {t : Trust}, t.Answers key peerId n →
      t.Sound nodeIdForDid → t.OrderlyRun nodeIdForDid events →
      (t.run nodeIdForDid events).LastAt nodeIdForDid i key → (t.run nodeIdForDid events).Answers key peerId n
  | [], _, h, _, _, _ => h
  | e :: events, _, h, hsound, hok, hlast =>
    Trust.Answers.run hpeer hdid hi events (h.next hsound hpeer hdid hok.1 hi (hlast.of_run events)) (hsound.next e)
      hok.2 hlast

theorem Trust.orderlyRun_append : ∀ (before after : List TrustEvent) {t : Trust}, t.OrderlyRun nodeIdForDid (before ++ after) →
      t.OrderlyRun nodeIdForDid before ∧ (t.run nodeIdForDid before).OrderlyRun nodeIdForDid after
  | [], _, _, h => ⟨trivial, h⟩
  | _ :: before, after, _, h =>
    have ⟨hbefore, hafter⟩ := Trust.orderlyRun_append before after h.2
    ⟨⟨h.1, hbefore⟩, hafter⟩

theorem Trust.unverified_run {peerId did forwardKey : String} {decision : TrustDecision} (hne : nodeIdForDid did ≠ peerId) :
    ∀ (events : List TrustEvent) {t : Trust}, (∀ frame, t.calls[i]? = some (.rememberFor peerId (some did) forwardKey decision, frame) →
        frame = .remembered (some false)) →
      ∀ frame, (t.run nodeIdForDid events).calls[i]? = some (.rememberFor peerId (some did) forwardKey decision, frame) →
        frame = .remembered (some false)
  | [], _, h => h
  | e :: events, t, h => by
    refine Trust.unverified_run hne events (fun frame hframe => ?_)
    cases e with
    | issue call =>
      rcases get_append_call hframe with ⟨-, hcall, rfl⟩ | ⟨-, hframe⟩
      · rw [← hcall, TrustCall.start, verifiedDid, filter_some, decide_eq_false hne]
        rfl
      · exact h frame hframe
    | step k persisted =>
      cases hk : t.calls[k]? with
      | none =>
        rw [Trust.next_step_none hk] at hframe
        exact h frame hframe
      | some x =>
        rw [Trust.next_step_some hk] at hframe
        rcases get_set_call hk hframe with ⟨rfl, hcall, rfl⟩ | ⟨-, hframe⟩
        · rw [h x.2 (by rw [hk, hcall])]
          rfl
        · exact h frame hframe

theorem deny_stays (rows : TrustRows) (before after : List TrustEvent)
    (hok : (⟨rows, []⟩ : Trust).OrderlyRun nodeIdForDid (before ++ after)) :
    DenyStays nodeIdForDid ⟨rows, []⟩ before after := by
  intro i peerId did forwardKey hdid hi hlast j result hj hanswer
  obtain ⟨hbefore, hafter⟩ := Trust.orderlyRun_append before after hok
  have hsound : (⟨rows, []⟩ : Trust).Sound nodeIdForDid := fun _ _ _ h => by cases h
  by_cases hpeer : nodeIdForDid did = peerId
  · have hstart : (TrustCall.rememberFor peerId (some did) forwardKey .deny).start nodeIdForDid = .insert ⟨did, forwardKey⟩ .deny := by
      rw [TrustCall.start, verifiedDid, filter_some, decide_eq_true hpeer]
      rfl
    have hdenied : Trust.Denied ⟨rows, []⟩ i (.rememberFor peerId (some did) forwardKey .deny) ⟨did, forwardKey⟩ :=
      fun _ h => by cases h
    have hnoted : (Trust.run nodeIdForDid ⟨rows, []⟩ before).Noted ⟨did, forwardKey⟩ :=
      (hdenied.run hstart hdid before hsound hbefore (Trust.LastAt.of_run after hlast) _ hi).resolve_left nofun
    have hn := (List.getElem?_eq_some_iff.1 hi).1
    have hstarted : (Trust.run nodeIdForDid ⟨rows, []⟩ before).Answers ⟨did, forwardKey⟩ peerId _ :=
      ⟨hnoted, le_rfl, fun j frame hj hframe => absurd (List.getElem?_eq_some_iff.1 hframe).1 (not_lt.2 hj)⟩
    rcases (hstarted.run hpeer hdid hn after (hsound.run before) hafter hlast).asked j _ hj hanswer with h | h
    · cases h
    · cases h
      rfl
  · cases Trust.unverified_run hpeer before (fun _ h => by cases h) _ hi

/-! ## A remember that failed -/

/-- Two runs that agree but for where the `i`th call stands. -/
structure Trust.Twin (i : Nat) (t t' : Trust) : Prop where
  rows : t.rows = t'.rows
  length : t.calls.length = t'.calls.length
  calls : ∀ j ≠ i, t.calls[j]? = t'.calls[j]?

/-- That a call may still return an error, or has, and found its decision in the row. -/
def Frame.MayFail : Frame → Prop
  | .insert _ _ => True
  | .persist _ decision before => before = some decision
  | .remembered result => result = none
  | _ => False

theorem insert_same {rows : TrustRows} {decision : TrustDecision} (h : rows.get key = some decision) :
    rows.insert key decision = rows := by
  refine Table.ext (fun x => ?_)
  rw [get_insert]
  split
  · rename_i hx
    rw [hx, h]
  · rfl

theorem Frame.next_mayFail {rows : TrustRows} (h : (frame.next rows persisted).2.MayFail)
    (hok : ∀ key decision before, frame = .persist key decision before → persisted = false → before = some decision) :
    frame.MayFail ∧ (frame.next rows persisted).1 = rows := by
  cases frame with
  | insert key decision => exact ⟨trivial, insert_same h⟩
  | persist key decision before =>
    refine ⟨?_, rfl⟩
    cases persisted with
    | false => exact hok _ _ _ rfl rfl
    | true => cases h
  | remembered result => exact ⟨h, rfl⟩
  | readDid peerId did forwardKey =>
    simp only [Frame.next] at h
    split at h
    · cases h
    · split at h <;> cases h
  | readLegacy peerId did forwardKey | persistMigration peerId forwardKey decision
  | dropLegacy peerId forwardKey decision | erase key =>
    simp only [Frame.next] at h
    split at h <;> cases h
  | _ => cases h

theorem Trust.Twin.next (h : Trust.Twin i t t') (hok : t.Orderly e) :
    (∃ call frame, (t.next nodeIdForDid e).calls[i]? = some (call, frame) ∧ ¬ frame.MayFail) ∨
    Trust.Twin i (t.next nodeIdForDid e) (if e.notOf i then t'.next nodeIdForDid e else t') := by
  cases e with
  | issue call =>
    refine .inr ⟨h.rows, ?_, fun j hj => ?_⟩
    · show (t.calls ++ _).length = (t'.calls ++ _).length
      rw [length_append, length_append, h.length]
    · show (t.calls ++ _)[j]? = (t'.calls ++ _)[j]?
      by_cases hlt : j < t.calls.length
      · rw [getElem?_append_left hlt, getElem?_append_left (h.length ▸ hlt), h.calls j hj]
      · rw [getElem?_append_right (not_lt.1 hlt), getElem?_append_right (h.length ▸ not_lt.1 hlt), h.length]
  | step k persisted =>
    by_cases hki : k = i
    · subst hki
      have hskip : TrustEvent.notOf k (.step k persisted) = false := decide_eq_false (not_not.2 rfl)
      rw [hskip]
      cases hk : t.calls[k]? with
      | none =>
        rw [Trust.next_step_none hk]
        exact .inr h
      | some x =>
        obtain ⟨call, frame⟩ := x
        rw [Trust.next_step_some hk]
        by_cases hfail : (frame.next t.rows persisted).2.MayFail
        · obtain ⟨-, hrows⟩ := Frame.next_mayFail hfail (hok call frame hk).2.2
          refine .inr ⟨hrows.trans h.rows, (length_set ..).trans h.length, fun j hj => ?_⟩
          rw [getElem?_set_ne hj.symm]
          exact h.calls j hj
        · refine .inl ⟨call, _, ?_, hfail⟩
          rw [getElem?_set_self (List.getElem?_eq_some_iff.1 hk).1]
    · have hkeep : TrustEvent.notOf i (.step k persisted) = true := decide_eq_true hki
      rw [hkeep, if_pos rfl]
      right
      cases hk : t.calls[k]? with
      | none =>
        rw [Trust.next_step_none hk, Trust.next_step_none (h.calls k hki ▸ hk)]
        exact h
      | some x =>
        rw [Trust.next_step_some hk, Trust.next_step_some (h.calls k hki ▸ hk), h.rows]
        refine ⟨rfl, ?_, fun j hj => ?_⟩
        · rw [length_set, length_set, h.length]
        · rw [getElem?_set, getElem?_set, h.length, h.calls j hj]

theorem Trust.settled_next (h : t.calls[i]? = some (call, frame)) (hfail : ¬ frame.MayFail) (hok : t.Orderly e) :
    ∃ call frame, (t.next nodeIdForDid e).calls[i]? = some (call, frame) ∧ ¬ frame.MayFail := by
  cases e with
  | issue call' => exact ⟨call, frame, by rw [Trust.next, getElem?_append_left (List.getElem?_eq_some_iff.1 h).1, h], hfail⟩
  | step k persisted =>
    cases hk : t.calls[k]? with
    | none => exact ⟨call, frame, by rw [Trust.next_step_none hk, h], hfail⟩
    | some x =>
      rw [Trust.next_step_some hk]
      by_cases hki : k = i
      · subst hki
        obtain rfl := Option.some.inj (hk.symm.trans h)
        exact ⟨call, _, getElem?_set_self (List.getElem?_eq_some_iff.1 h).1,
          fun hm => hfail (Frame.next_mayFail hm (hok call frame h).2.2).1⟩
      · exact ⟨call, frame, by rw [getElem?_set_ne hki, h], hfail⟩

theorem Trust.twin_run : ∀ (events : List TrustEvent) {t t' : Trust}, t.OrderlyRun nodeIdForDid events →
    ((∃ call frame, t.calls[i]? = some (call, frame) ∧ ¬ frame.MayFail) ∨ Trust.Twin i t t') →
    (∃ call frame, (t.run nodeIdForDid events).calls[i]? = some (call, frame) ∧ ¬ frame.MayFail) ∨
      Trust.Twin i (t.run nodeIdForDid events) (t'.run nodeIdForDid (events.filter (TrustEvent.notOf i)))
  | [], _, _, _, h => h
  | e :: events, t, t', hok, h => by
    have hnext : (∃ call frame, (t.next nodeIdForDid e).calls[i]? = some (call, frame) ∧ ¬ frame.MayFail) ∨
        Trust.Twin i (t.next nodeIdForDid e) (if e.notOf i then t'.next nodeIdForDid e else t') := by
      rcases h with ⟨call, frame, hi, hfail⟩ | htwin
      · exact .inl (Trust.settled_next hi hfail hok.1)
      · exact htwin.next hok.1
    have hrun := Trust.twin_run events hok.2 hnext
    rw [filter_cons]
    cases hkeep : e.notOf i with
    | true =>
      rw [hkeep] at hrun
      exact hrun
    | false =>
      rw [hkeep] at hrun
      exact hrun

theorem failure_is_none (rows : TrustRows) (events : List TrustEvent)
    (hok : (⟨rows, []⟩ : Trust).OrderlyRun nodeIdForDid events) : FailureIsNone nodeIdForDid ⟨rows, []⟩ events := by
  intro i call hi
  have hself : Trust.Twin i ⟨rows, []⟩ ⟨rows, []⟩ := ⟨rfl, rfl, fun _ _ => rfl⟩
  rcases Trust.twin_run events hok (.inr hself) with ⟨_, _, hi', hfail⟩ | htwin
  · obtain ⟨-, rfl⟩ := Prod.mk.inj (Option.some.inj (hi.symm.trans hi'))
    exact absurd rfl hfail
  · refine ⟨htwin.calls, fun peerId did forwardKey => ?_⟩
    rw [htwin.rows]

/-- **Decisions are kept** in every orderly run: a deny that was remembered stays, and a remember that failed is none. -/
theorem decisions_kept (nodeIdForDid : String → String) (rows : TrustRows) (before after : List TrustEvent)
    (hok : (⟨rows, []⟩ : Trust).OrderlyRun nodeIdForDid (before ++ after)) :
    DenyStays nodeIdForDid ⟨rows, []⟩ before after ∧ FailureIsNone nodeIdForDid ⟨rows, []⟩ (before ++ after) :=
  ⟨deny_stays rows before after hok, failure_is_none rows (before ++ after) hok⟩

/-! ## Runs -/

/-- `node_id_for_did` on the DID of the runs. -/
def aliceNode : String → String := fun _ => "64e12049417a4f7a"

def aliceKey : TrustKey := ⟨"did:key:zAlice", "tcp:80"⟩

def aliceLookup : TrustCall := .lookup "64e12049417a4f7a" (some "did:key:zAlice") "tcp:80"

def aliceRemember (decision : TrustDecision) : TrustCall := .rememberFor "64e12049417a4f7a" (some "did:key:zAlice") "tcp:80" decision

theorem Trust.orderly_of (call : TrustCall) (frame : Frame) (h : t.calls[i]? = some (call, frame))
    (hidle : ∀ x ∈ t.calls.take i, x.2.pending = none)
    (hmigrate : ∀ peerId did forwardKey decision, frame = .migrate peerId did forwardKey decision → t.rows.get ⟨did, forwardKey⟩ = none)
    (hpersist : ∀ key decision before, frame = .persist key decision before → persisted = false →
      before = some decision) : t.Orderly (.step i persisted) := by
  intro call' frame' h'
  obtain ⟨-, rfl⟩ := Prod.mk.inj (Option.some.inj (h.symm.trans h'))
  refine ⟨hmigrate, fun key _ j hj callj framej hget hp => ?_, hpersist⟩
  have hmem : (callj, framej) ∈ t.calls.take i := mem_of_getElem? (show (t.calls.take i)[j]? = _ by rw [getElem?_take, if_pos hj, hget])
  rw [hidle _ hmem] at hp
  cases hp

/-- A lookup moves a legacy allow to the DID; a remember of the same decision is not persisted, and one of a deny is. -/
def aliceDenied : List TrustEvent :=
  [.issue aliceLookup, .step 0 true, .step 0 true, .step 0 true, .step 0 true, .step 0 true, .step 0 true,
    .issue (aliceRemember .allow), .step 1 true, .step 1 false, .issue (aliceRemember .deny), .step 2 true, .step 2 true]

def aliceLegacy : Trust := ⟨insert ∅ ⟨"64e12049417a4f7a", "tcp:80"⟩ .allow, []⟩

theorem aliceDenied_orderly : aliceLegacy.OrderlyRun aliceNode (aliceDenied ++ [.issue aliceLookup, .step 3 true]) := by
  refine ⟨trivial, ?_, ?_, ?_, ?_, ?_, ?_, trivial, ?_, ?_, trivial, ?_, ?_, trivial, ?_, trivial⟩
  · exact Trust.orderly_of aliceLookup (.readDid "64e12049417a4f7a" "did:key:zAlice" "tcp:80") (by decide) (by decide)
      nofun nofun
  · exact Trust.orderly_of aliceLookup (.readLegacy "64e12049417a4f7a" "did:key:zAlice" "tcp:80") (by decide) (by decide)
      nofun nofun
  · refine Trust.orderly_of aliceLookup (.migrate "64e12049417a4f7a" "did:key:zAlice" "tcp:80" .allow) (by decide) (by decide)
      (fun _ _ _ _ h => ?_) nofun
    cases h
    decide
  · exact Trust.orderly_of aliceLookup (.persistMigration "64e12049417a4f7a" "tcp:80" .allow) (by decide) (by decide)
      nofun nofun
  · exact Trust.orderly_of aliceLookup (.dropLegacy "64e12049417a4f7a" "tcp:80" .allow) (by decide) (by decide) nofun nofun
  · exact Trust.orderly_of aliceLookup (.persistDrop .allow) (by decide) (by decide) nofun nofun
  · exact Trust.orderly_of (aliceRemember .allow) (.insert aliceKey .allow) (by decide) (by decide) nofun nofun
  · refine Trust.orderly_of (aliceRemember .allow) (.persist aliceKey .allow (some .allow)) (by decide) (by decide) nofun
      (fun _ _ _ h _ => ?_)
    cases h
    rfl
  · exact Trust.orderly_of (aliceRemember .deny) (.insert aliceKey .deny) (by decide) (by decide) nofun nofun
  · exact Trust.orderly_of (aliceRemember .deny) (.persist aliceKey .deny (some .allow)) (by decide) (by decide) nofun nofun
  · exact Trust.orderly_of aliceLookup (.readDid "64e12049417a4f7a" "did:key:zAlice" "tcp:80") (by decide) (by decide)
      nofun nofun

theorem decisions_kept_alice : (aliceLegacy.run aliceNode aliceDenied).calls[0]? = some (aliceLookup, .answered (some .allow)) ∧
    (aliceLegacy.run aliceNode aliceDenied).calls[1]? = some (aliceRemember .allow, .remembered none) ∧
    ((aliceLegacy.run aliceNode aliceDenied).run aliceNode [.issue aliceLookup, .step 3 true]).calls[3]? =
      some (aliceLookup, .answered (some .deny)) ∧
    DenyStays aliceNode aliceLegacy aliceDenied [.issue aliceLookup, .step 3 true] ∧
    FailureIsNone aliceNode aliceLegacy (aliceDenied ++ [.issue aliceLookup, .step 3 true]) :=
  ⟨by decide, by decide, by decide, decisions_kept aliceNode _ _ _ aliceDenied_orderly⟩

/-- A lookup that moves a legacy allow over a deny that was remembered meanwhile. -/
theorem decisions_lost : ¬ ∀ (nodeIdForDid : String → String) (rows : TrustRows) (before after : List TrustEvent),
    DenyStays nodeIdForDid ⟨rows, []⟩ before after ∧ FailureIsNone nodeIdForDid ⟨rows, []⟩ (before ++ after) := by
  intro h
  have hdeny := (h aliceNode (insert ∅ ⟨"64e12049417a4f7a", "tcp:80"⟩ .allow)
    [.issue aliceLookup, .step 0 true, .step 0 true, .issue (aliceRemember .deny), .step 1 true, .step 1 true]
    [.step 0 true, .issue aliceLookup, .step 2 true]).1 1 "64e12049417a4f7a" "did:key:zAlice" "tcp:80" (by decide)
    (by decide) (fun j call frame hj hget => by
      have hlen := (List.getElem?_eq_some_iff.1 hget).1
      obtain rfl : j = 2 := by
        have : j < 3 := hlen
        omega
      cases hget
      nofun) 2 (some .allow) (by decide) (by decide)
  cases hdeny

end Mistl.Tunnel
