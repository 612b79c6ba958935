import Mistl.EscrowState
/-!
# EscrowRetry — a command that is refused, and one that is applied twice

`State::apply` checks everything before it changes anything: an error leaves the state (`attempt_error`).
-/
open Mistl.Table Option

namespace Mistl.Escrow

def isErrorReply (reply : Json) : Bool := reply.get? "type" == some (.str "escrow_error")

theorem isErrorReply_reply (e : Error) (id : String) : isErrorReply (e.reply id) = true := by
  unfold isErrorReply Error.reply
  split <;> simp [Json.get?]

variable {C : Crates} {maxSlots : Nat} {s t : State} {id : String} {reply : Json} {e : Error}

/-! ## What is refused -/

variable {head : Head}

theorem put_error (h : s.put C head id maxSlots = (t, .error e)) : t = s := by
  unfold State.put at h
  dsimp only at h
  repeat' split at h
  all_goals first | cases h; rfl | cases h

theorem delete_error {request : Delete} (h : s.delete C request id = (t, .error e)) : t = s := by
  unfold State.delete at h
  repeat' split at h
  all_goals first | cases h; rfl | cases h

variable {heads : List Head}

theorem bootstrap_error (h : s.bootstrap heads id maxSlots = (t, .error e)) : t = s := by
  unfold State.bootstrap at h
  dsimp only at h
  repeat' split at h
  all_goals first | cases h; rfl | cases h

variable {command : Command}

theorem attempt_error (h : s.attempt C command id maxSlots = (t, .error e)) : t = s := by
  unfold State.attempt at h
  split at h
  · cases h; rfl
  split at h
  · cases h; rfl
  cases command with
  | readBarrier _ => cases h
  | put _ head => exact put_error h
  | delete _ request => exact delete_error h
  | bootstrap _ heads => exact bootstrap_error h
  | bootstrapBegin _ | bootstrapComplete _ =>
    dsimp only [State.execute] at h
    split at h <;> cases h
    rfl

/-! ## What comes again -/

theorem put_current (hd : s.deleted.get head.slot = none) (hh : s.heads.get head.slot = some head) :
    s.put C head id maxSlots = (s, .ok (head.ack C id)) := by
  unfold State.put
  rw [hd]
  dsimp only
  split
  · rfl
  · rw [hh]
    simp [checkCas]

theorem put_again (h : s.put C head id maxSlots = (t, .ok reply)) : t.put C head id maxSlots = (t, .ok reply) := by
  have hsame := h
  unfold State.put at h
  dsimp only at h
  split at h
  · -- the slot was deleted, and the head recreates it
    repeat' split at h
    all_goals cases h
    exact put_current (get_erase_self _ _) (get_insert_self _ _ _)
  · rename_i hd
    split at h
    · cases h
      exact hsame
    split at h
    · cases h
    · cases h
      exact hsame
    · repeat' split at h
      all_goals cases h
      all_goals exact put_current hd (get_insert_self _ _ _)

theorem delete_again {request : Delete} (h : s.delete C request id = (t, .ok reply)) : t.delete C request id = (t, .ok reply) := by
  have hsame := h
  unfold State.delete at h
  split at h
  · cases h
    exact hsame
  · rename_i current hcurrent
    split at h
    · cases h
    rename_i hmatch
    split at h
    · cases h
    rename_i hverify
    split at h
    · rename_i head hhead
      rw [hhead] at hcurrent
      cases hcurrent
      cases h
      unfold State.delete
      simp only [get_erase_self, get_insert_self, none_or, if_neg hmatch, hverify]
    · cases h
      exact hsame

theorem bootstrap_present (hphase : ¬ (s.migrationStarted = false ∨ s.migrationFinished = true))
    (hget : ∀ head ∈ heads, s.heads.get head.slot = some head) (hslots : satAdd s.heads.size 0 ≤ maxSlots)
    (hbytes : s.metadataBytes + 128 ≤ snapshotBytes) :
    s.bootstrap heads id maxSlots = (s, .ok (bootstrapped id)) := by
  have hmissing : s.missing heads = [] := List.filter_eq_nil_iff.2 (fun head hmem => by
    rw [contains_iff.2 ⟨head, hget head hmem⟩]
    decide)
  have hagree : ¬ (heads.any fun h => (s.heads.get h.slot).any fun existing => existing != h) = true := by
    rw [List.any_eq_true]
    rintro ⟨head, hmem, hany⟩
    simp [hget head hmem] at hany
  unfold State.bootstrap
  rw [if_neg hphase, if_neg hagree, hmissing, List.length_nil, if_neg (Nat.not_lt.2 hslots)]
  simp only [List.map_nil, List.sum_nil, Nat.add_zero, if_neg (Nat.not_lt.2 hbytes), insertAll_of_get Head.slot heads hget]

theorem bootstrap_again (hnd : (heads.map Head.slot).Nodup)
    (h : s.bootstrap heads id maxSlots = (t, .ok reply)) : t.bootstrap heads id maxSlots = (t, .ok reply) := by
  unfold State.bootstrap at h
  dsimp only at h
  split at h
  · cases h
  rename_i hphase
  split at h
  · cases h
  rename_i hsame
  split at h
  · cases h
  rename_i hslots
  split at h
  · cases h
  rename_i hbytes
  cases h
  have hagree : ∀ head ∈ heads, ∀ existing, s.heads.get head.slot = some existing → existing = head := by
    intro head hmem existing hexisting
    by_contra hne
    exact hsame (List.any_eq_true.2 ⟨head, hmem, by simp [hexisting, hne]⟩)
  have hsize := size_insertAll Head.slot heads s.heads hnd hagree
  refine bootstrap_present hphase (fun head hmem => get_insertAll_of_mem Head.slot heads s.heads hnd hmem) ?_
    (Nat.not_lt.1 hbytes)
  rw [hsize]
  exact Nat.not_lt.1 hslots

theorem execute_migrating (hclient : command.isClient = true) : (s.execute C command id maxSlots).1.migrating = s.migrating := by
  cases command with
  | readBarrier _ => rfl
  | put _ head =>
    unfold State.execute State.put
    dsimp only
    repeat' split
    all_goals rfl
  | delete _ request =>
    unfold State.execute State.delete
    dsimp only
    repeat' split
    all_goals rfl
  | _ => cases hclient

theorem execute_again (hvalid : validate C command gib = .ok ())
    (h : s.execute C command id maxSlots = (t, .ok reply)) : t.execute C command id maxSlots = (t, .ok reply) := by
  cases command with
  | readBarrier _ =>
    cases h
    rfl
  | put _ head => exact put_again h
  | delete _ request => exact delete_again h
  | bootstrap _ heads =>
    unfold validate at hvalid
    split at hvalid
    · cases hvalid
    dsimp only at hvalid
    split at hvalid
    · cases hvalid
    exact bootstrap_again (validateHeads_ok C gib heads [] hvalid).2 h
  | bootstrapBegin _ =>
    dsimp only [State.execute] at h ⊢
    split at h
    · cases h
    rename_i hphase
    cases h
    rw [if_neg]
    rintro (hfinished | ⟨hstarted, -⟩)
    · exact hphase (.inl hfinished)
    · cases hstarted
  | bootstrapComplete _ =>
    dsimp only [State.execute] at h ⊢
    split at h
    · cases h
    rename_i hphase
    cases h
    rw [if_neg hphase]

theorem attempt_again (h : s.attempt C command id maxSlots = (t, .ok reply)) : t.attempt C command id maxSlots = (t, .ok reply) := by
  unfold State.attempt at h ⊢
  cases hvalid : validate C command gib with
  | error e =>
    rw [hvalid] at h
    cases h
  | ok _ =>
    rw [hvalid] at h
    dsimp only at h ⊢
    split at h
    · cases h
    rename_i hphase
    have hphase' : ¬ (t.migrating && command.isClient) = true := by
      cases hclient : command.isClient with
      | false => simp
      | true =>
        have hkeeps := @execute_migrating C maxSlots s id command hclient
        rw [h] at hkeeps
        rw [show t.migrating = s.migrating from hkeeps]
        rwa [hclient] at hphase
    rw [if_neg hphase']
    exact execute_again hvalid h

theorem attempt_reply (h : s.attempt C command id maxSlots = (t, .ok reply)) : isErrorReply reply = false := by
  unfold State.attempt at h
  split at h
  · cases h
  split at h
  · cases h
  cases command with
  | readBarrier _ =>
    cases h
    rfl
  | put _ head =>
    dsimp only [State.execute, State.put] at h
    repeat' split at h
    all_goals first | cases h; rfl | cases h
  | delete _ request =>
    dsimp only [State.execute, State.delete] at h
    repeat' split at h
    all_goals first | cases h; rfl | cases h
  | bootstrap _ heads =>
    dsimp only [State.execute, State.bootstrap] at h
    repeat' split at h
    all_goals first | cases h; rfl | cases h
  | bootstrapBegin _ | bootstrapComplete _ =>
    dsimp only [State.execute] at h
    split at h <;> cases h
    rfl

/-- **`apply` is atomic, and a retry of what it did does nothing**: an escrow error leaves the state; after any other reply the
same command gets the same reply and leaves the state. -/
theorem apply_atomic_idempotent (C : Crates) (maxSlots : Nat) (s : State) (command : Command) (id : String) :
    (isErrorReply (s.apply C command id maxSlots).2 = true → (s.apply C command id maxSlots).1 = s) ∧
    (isErrorReply (s.apply C command id maxSlots).2 = false →
      (s.apply C command id maxSlots).1.apply C command id maxSlots = s.apply C command id maxSlots) := by
  cases hattempt : s.attempt C command id maxSlots with
  | mk t result =>
    cases result with
    | error e =>
      have happly : s.apply C command id maxSlots = (t, e.reply id) := by rw [State.apply, hattempt]
      rw [happly]
      refine ⟨fun _ => attempt_error hattempt, fun herror => ?_⟩
      rw [isErrorReply_reply] at herror
      cases herror
    | ok reply =>
      have happly : s.apply C command id maxSlots = (t, reply) := by rw [State.apply, hattempt]
      rw [happly]
      refine ⟨fun herror => ?_, fun _ => by rw [State.apply, attempt_again hattempt]⟩
      rw [attempt_reply hattempt] at herror
      cases herror

end Mistl.Escrow
