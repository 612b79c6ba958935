import Mistl.EscrowProtocol
/-!
# EscrowState — the replicated state machine of a room

`escrow/replication/state.rs`: the visible heads of the committed log, and their snapshot.  Every operation returns the state
it leaves, also where it fails; a snapshot writes the maps in an order of their own (`Iteration`).  Every invariant is proved
from `apply_step`.
-/
namespace Mistl.Escrow

/-! ## Commands -/

inductive Command where
  | readBarrier (ticket : String)
  | put (ticket : String) (head : Head)
  | delete (ticket : String) (request : Delete)
  | bootstrap (ticket : String) (heads : List Head)
  | bootstrapBegin (ticket : String)
  | bootstrapComplete (ticket : String)
  deriving DecidableEq

def Command.ticket : Command → String
  | .readBarrier t | .put t _ | .delete t _ | .bootstrap t _ | .bootstrapBegin t | .bootstrapComplete t => t

def Command.isClient : Command → Bool
  | .readBarrier _ | .put _ _ | .delete _ _ => true
  | _ => false

variable (C : Crates)

/-- The heads of a bootstrap, checked in order; `seen` holds the slots before. -/
def validateHeads (maxBlob : Nat) : List String → List Head → Except Error Unit
  | _, [] => .ok ()
  | seen, head :: heads =>
    match head.validate C maxBlob with
    | .error e => .error e
    | .ok () =>
      match head.verify C with
      | .error e => .error e
      | .ok () => if head.slot ∈ seen then .error (.new .badRequest) else validateHeads maxBlob (head.slot :: seen) heads

def validate (command : Command) (maxBlob : Nat) : Except Error Unit :=
  if command.ticket.utf8ByteSize = 0 ∨ 64 < command.ticket.utf8ByteSize then .error (.new .badRequest)
  else match command with
    | .readBarrier _ | .bootstrapBegin _ | .bootstrapComplete _ => .ok ()
    | .put _ head =>
      match head.validate C maxBlob with
      | .error e => .error e
      | .ok () => head.verify C
    | .delete _ request => request.validate
    | .bootstrap _ heads => if 65536 < heads.length then .error (.new .quota) else validateHeads C maxBlob [] heads

/-- `command_heads`: the generations a command refers to. -/
def commandHeads : Command → List Head
  | .put _ head => [head]
  | .bootstrap _ heads => heads
  | _ => []

/-! ## The state -/

def snapshotBytes : Nat := 64 * 1024 * 1024

/-- `head_bytes`: a head in a snapshot, with the slot that keys it. -/
def headBytes (h : Head) : Nat := h.toJson.size + 36

structure State where
  metadataBytes : Nat
  heads : Table String Head
  previous : Table String Head
  deleted : Table String Head
  migrationStarted : Bool
  migrationFinished : Bool

def State.default : State := ⟨0, ∅, ∅, ∅, false, false⟩

def State.isEmpty (s : State) : Bool := s.heads.size == 0 && s.deleted.size == 0

def State.migrating (s : State) : Bool := s.migrationStarted && !s.migrationFinished

def bootstrapped (id : String) : Json := .obj [("v", .int 1), ("type", .str "escrow_bootstrapped"), ("id", .str id)]

def State.put (s : State) (head : Head) (id : String) (maxSlots : Nat) : State × Except Error Json :=
  match s.deleted.get head.slot with
  | some deleted =>
    if head.writer ≠ deleted.writer then (s, .error (.new .writerMismatch))
    else if head.seq ≠ satAdd deleted.seq 1 ∨ head.parent ≠ some (deleted.hash C) then
      (s, .error { Error.conflict deleted with code := .deleted })
    else
      let nextBytes := s.metadataBytes - headBytes deleted + headBytes head
      if snapshotBytes < nextBytes + 128 then (s, .error (.new .quota))
      else
        ({ s with metadataBytes := nextBytes, deleted := s.deleted.erase head.slot,
                  heads := s.heads.insert head.slot head }, .ok (head.ack C id))
  | none =>
    let current := s.heads.get head.slot
    if s.previous.get head.slot = some head then (s, .ok (head.ack C id))
    else match checkCas C head current with
      | .error e => (s, .error e)
      | .ok true => (s, .ok (head.ack C id))
      | .ok false =>
        if current.isNone ∧ maxSlots ≤ s.heads.size + s.deleted.size then (s, .error (.new .quota))
        else
          let nextBytes := s.metadataBytes + headBytes head - ((s.previous.get head.slot).map headBytes).getD 0
          if snapshotBytes < nextBytes + 128 then (s, .error (.new .quota))
          else
            ({ s with metadataBytes := nextBytes, heads := s.heads.insert head.slot head, previous := match current with
                        | some previous => s.previous.insert head.slot previous
                        | none => s.previous }, .ok (head.ack C id))

def State.delete (s : State) (request : Delete) (id : String) : State × Except Error Json :=
  match (s.heads.get request.slot).or (s.deleted.get request.slot) with
  | none => (s, .ok (request.reply id))
  | some current =>
    if request.seq ≠ current.seq ∨ request.head ≠ current.hash C then (s, .error (.conflict current))
    else match request.verify C current.writer with
      | .error e => (s, .error e)
      | .ok () =>
        match s.heads.get request.slot with
        | some head =>
          ({ s with heads := s.heads.erase request.slot, deleted := s.deleted.insert request.slot head,
                    previous := s.previous.erase request.slot,
                    metadataBytes := s.metadataBytes - ((s.previous.get request.slot).map headBytes).getD 0 },
            .ok (request.reply id))
        | none => (s, .ok (request.reply id))

def State.missing (s : State) (heads : List Head) : List Head := heads.filter fun h => !s.heads.contains h.slot

def State.bootstrap (s : State) (heads : List Head) (id : String) (maxSlots : Nat) : State × Except Error Json :=
  if s.migrationStarted = false ∨ s.migrationFinished = true then (s, .error (.new .conflict))
  else if heads.any (fun h => (s.heads.get h.slot).any (fun existing => existing != h)) then
    (s, .error (.new .conflict))
  else if maxSlots < satAdd s.heads.size (s.missing heads).length then (s, .error (.new .quota))
  else
    let added := ((s.missing heads).map headBytes).sum
    if snapshotBytes < s.metadataBytes + added + 128 then (s, .error (.new .quota))
    else
      ({ s with metadataBytes := s.metadataBytes + added, heads := Table.insertAll Head.slot heads s.heads }, .ok (bootstrapped id))

def State.execute (s : State) (command : Command) (id : String) (maxSlots : Nat) : State × Except Error Json :=
  match command with
  | .readBarrier _ => (s, .ok (.obj [("v", .int 1), ("type", .str "escrow_read_ready"), ("id", .str id)]))
  | .put _ head => s.put C head id maxSlots
  | .delete _ request => s.delete C request id
  | .bootstrap _ heads => s.bootstrap heads id maxSlots
  | .bootstrapBegin _ =>
    if s.migrationFinished = true ∨ (s.migrationStarted = false ∧ s.isEmpty = false) then (s, .error (.new .conflict))
    else ({ s with migrationStarted := true }, .ok (bootstrapped id))
  | .bootstrapComplete _ =>
    if s.migrationStarted = false then (s, .error (.new .conflict))
    else ({ s with migrationFinished := true }, .ok (bootstrapped id))

def State.attempt (s : State) (command : Command) (id : String) (maxSlots : Nat) : State × Except Error Json :=
  match validate C command gib with
  | .error e => (s, .error e)
  | .ok () => if s.migrating && command.isClient then (s, .error (.new .migrating)) else s.execute C command id maxSlots

def State.apply (s : State) (command : Command) (id : String) (maxSlots : Nat) : State × Json :=
  match s.attempt C command id maxSlots with
  | (s, .ok reply) => (s, reply)
  | (s, .error e) => (s, e.reply id)

/-- A log of commands, each with the id it is answered under. -/
abbrev Log := List (Command × String)

def State.run (maxSlots : Nat) (s : State) (log : Log) : State := log.foldl (fun s c => (s.apply C c.1 c.2 maxSlots).1) s

def State.replies (maxSlots : Nat) : State → Log → List Json
  | _, [] => []
  | s, c :: log => (s.apply C c.1 c.2 maxSlots).2 :: State.replies maxSlots (s.apply C c.1 c.2 maxSlots).1 log

@[simp] theorem State.run_nil (maxSlots : Nat) (s : State) : s.run C maxSlots [] = s := rfl

@[simp] theorem State.run_cons (maxSlots : Nat) (s : State) (c : Command × String) (log : Log) :
    s.run C maxSlots (c :: log) = (s.apply C c.1 c.2 maxSlots).1.run C maxSlots log := rfl

theorem State.run_append (maxSlots : Nat) (s : State) (a b : Log) :
    s.run C maxSlots (a ++ b) = (s.run C maxSlots a).run C maxSlots b := by
  unfold State.run
  rw [List.foldl_append]

/-! ## What a step can do -/

/-- **One applied command**: it leaves the state, recreates a deleted slot, creates or extends a live one, turns a live
one into a tombstone, adds migrated heads, or moves the migration flags. -/
inductive Step (maxSlots : Nat) (s : State) : State → Prop
  | stay : Step maxSlots s s
  | recreate (head old : Head) (hv : head.Valid C gib) (hm : s.migrating = false)
      (hold : s.deleted.get head.slot = some old) (hx : Extends C head old)
      (hb : s.metadataBytes - headBytes old + headBytes head + 128 ≤ snapshotBytes) :
      Step maxSlots s { s with
        metadataBytes := s.metadataBytes - headBytes old + headBytes head,
        deleted := s.deleted.erase head.slot,
        heads := s.heads.insert head.slot head }
  | create (head : Head) (hv : head.Valid C gib) (hm : s.migrating = false) (hd : s.deleted.get head.slot = none)
      (hh : s.heads.get head.slot = none) (hq : s.heads.size + s.deleted.size < maxSlots)
      (hb : s.metadataBytes + headBytes head - ((s.previous.get head.slot).map headBytes).getD 0 + 128
        ≤ snapshotBytes) :
      Step maxSlots s { s with
        metadataBytes := s.metadataBytes + headBytes head - ((s.previous.get head.slot).map headBytes).getD 0,
        heads := s.heads.insert head.slot head }
  | extend (head old : Head) (hv : head.Valid C gib) (hm : s.migrating = false) (hd : s.deleted.get head.slot = none)
      (hh : s.heads.get head.slot = some old) (hx : Extends C head old)
      (hb : s.metadataBytes + headBytes head - ((s.previous.get head.slot).map headBytes).getD 0 + 128
        ≤ snapshotBytes) :
      Step maxSlots s { s with
        metadataBytes := s.metadataBytes + headBytes head - ((s.previous.get head.slot).map headBytes).getD 0,
        heads := s.heads.insert head.slot head,
        previous := s.previous.insert head.slot old }
  | remove (slot : String) (head : Head) (hm : s.migrating = false) (hh : s.heads.get slot = some head) : Step maxSlots s { s with
        heads := s.heads.erase slot,
        deleted := s.deleted.insert slot head,
        previous := s.previous.erase slot,
        metadataBytes := s.metadataBytes - ((s.previous.get slot).map headBytes).getD 0 }
  | bootstrap (heads : List Head) (hv : ∀ h ∈ heads, h.Valid C gib) (hnd : (heads.map Head.slot).Nodup)
      (hm : s.migrating = true) (hsame : ∀ h ∈ heads, ∀ e, s.heads.get h.slot = some e → e = h)
      (hq : satAdd s.heads.size (s.missing heads).length ≤ maxSlots) (hlen : heads.length ≤ 65536)
      (hb : s.metadataBytes + ((s.missing heads).map headBytes).sum + 128 ≤ snapshotBytes) :
      Step maxSlots s { s with
        metadataBytes := s.metadataBytes + ((s.missing heads).map headBytes).sum,
        heads := Table.insertAll Head.slot heads s.heads }
  | begin (hf : s.migrationFinished = false) (h : s.migrationStarted = true ∨ s.isEmpty = true) :
      Step maxSlots s { s with migrationStarted := true }
  | complete (h : s.migrationStarted = true) : Step maxSlots s { s with migrationFinished := true }

theorem validateHeads_ok (maxBlob : Nat) : ∀ (heads : List Head) (seen : List String), validateHeads C maxBlob seen heads = .ok () →
      (∀ h ∈ heads, h.Valid C maxBlob ∧ h.slot ∉ seen) ∧ (heads.map Head.slot).Nodup
  | [], _, _ => ⟨fun _ h => (by cases h), List.nodup_nil⟩
  | head :: heads, seen, h => by
    rw [validateHeads] at h
    split at h
    · cases h
    · rename_i hv
      split at h
      · cases h
      · rename_i hs
        split at h
        · cases h
        · rename_i hn
          obtain ⟨h1, h2⟩ := validateHeads_ok maxBlob heads (head.slot :: seen) h
          refine ⟨fun x hx => ?_, ?_⟩
          · rcases List.mem_cons.1 hx with rfl | hx
            · exact ⟨Head.valid_of_checks C hv hs, hn⟩
            · exact ⟨(h1 x hx).1, fun hmem => (h1 x hx).2 (List.mem_cons_of_mem _ hmem)⟩
          · rw [List.map_cons, List.nodup_cons]
            refine ⟨fun hmem => ?_, h2⟩
            obtain ⟨x, hx, hxs⟩ := List.mem_map.1 hmem
            exact (h1 x hx).2 (hxs ▸ List.mem_cons_self)

theorem seq_of_satAdd {head : Head} (hv : head.Valid C gib) {n : Nat} (h : head.seq = satAdd n 1) : head.seq = n + 1 := by
  have hle := hv.seq_le
  unfold satAdd u64Max at h
  unfold maxSafe at hle
  omega

theorem put_step (maxSlots : Nat) (s : State) (head : Head) (id : String) (hv : head.Valid C gib)
    (hm : s.migrating = false) : Step C maxSlots s (s.put C head id maxSlots).1 := by
  unfold State.put
  split
  · rename_i old hold
    split
    · exact .stay
    · rename_i hw
      split
      · exact .stay
      · rename_i hp
        rw [not_or, not_not, not_not] at hp
        dsimp only
        split
        · exact .stay
        · rename_i hb
          exact .recreate head old hv hm hold ⟨not_not.1 hw, seq_of_satAdd C hv hp.1, hp.2⟩ (Nat.not_lt.1 hb)
  · rename_i hd
    dsimp only
    split
    · exact .stay
    · split
      · exact .stay
      · exact .stay
      · rename_i hcas
        split
        · exact .stay
        · rename_i hq
          split
          · exact .stay
          · rename_i hb
            cases hh : s.heads.get head.slot with
            | none =>
              rw [hh] at hq
              simp only [Option.isNone_none, true_and, Nat.not_le] at hq
              exact .create head hv hm hd hh hq (Nat.not_lt.1 hb)
            | some old =>
              rw [hh] at hcas
              exact .extend head old hv hm hd hh (checkCas_false C hcas) (Nat.not_lt.1 hb)

theorem delete_step (maxSlots : Nat) (s : State) (request : Delete) (id : String) (hm : s.migrating = false) :
    Step C maxSlots s (s.delete C request id).1 := by
  unfold State.delete
  split
  · exact .stay
  · split
    · exact .stay
    · split
      · exact .stay
      · split
        · rename_i head hh
          exact .remove request.slot head hm hh
        · exact .stay

theorem bootstrap_step (maxSlots : Nat) (s : State) (heads : List Head) (id : String)
    (hv : validateHeads C gib [] heads = .ok ()) (hlen : heads.length ≤ 65536) :
    Step C maxSlots s (s.bootstrap heads id maxSlots).1 := by
  obtain ⟨hvalid, hnd⟩ := validateHeads_ok C gib heads [] hv
  unfold State.bootstrap
  split
  · exact .stay
  · rename_i hst
    split
    · exact .stay
    · rename_i hsame
      split
      · exact .stay
      · rename_i hq
        dsimp only
        split
        · exact .stay
        · rename_i hb
          rw [not_or] at hst
          refine .bootstrap heads (fun h hh => (hvalid h hh).1) hnd (by simp [State.migrating, hst]) ?_
            (Nat.not_lt.1 hq) hlen (Nat.not_lt.1 hb)
          intro h hh e he
          by_contra hne
          exact hsame (List.any_eq_true.2 ⟨h, hh, by simp [he, hne]⟩)

theorem apply_step (maxSlots : Nat) (s : State) (command : Command) (id : String) :
    Step C maxSlots s (s.apply C command id maxSlots).1 := by
  have hfst : (s.apply C command id maxSlots).1 = (s.attempt C command id maxSlots).1 := by
    unfold State.apply
    split <;> (rename_i h; rw [h])
  rw [hfst, State.attempt]
  split
  · exact .stay
  · rename_i hv
    split
    · exact .stay
    · rename_i hm
      have hclient : command.isClient = true → s.migrating = false := by
        intro hc
        rw [hc, Bool.and_true] at hm
        exact Bool.eq_false_iff.2 hm
      unfold validate at hv
      split at hv
      · cases hv
      · cases command with
        | readBarrier t => exact .stay
        | put t head =>
          dsimp only at hv
          split at hv
          · cases hv
          · rename_i hval
            exact put_step C maxSlots s head id (Head.valid_of_checks C hval hv) (hclient rfl)
        | delete t request => exact delete_step C maxSlots s request id (hclient rfl)
        | bootstrap t heads =>
          dsimp only at hv
          split at hv
          · cases hv
          · rename_i hlen
            exact bootstrap_step C maxSlots s heads id hv (Nat.not_lt.1 hlen)
        | bootstrapBegin t =>
          unfold State.execute
          dsimp only
          split
          · exact .stay
          · rename_i h
            simp only [not_or, not_and, Bool.not_eq_true, Bool.not_eq_false] at h
            refine .begin h.1 ?_
            cases hst : s.migrationStarted with
            | true => exact .inl rfl
            | false => exact .inr (h.2 hst)
        | bootstrapComplete t =>
          unfold State.execute
          dsimp only
          split
          · exact .stay
          · rename_i h
            exact .complete (Bool.not_eq_false _ ▸ h)

end Mistl.Escrow
