import Mistl.FolderOwner
/-!
# FolderClock — the clock of an owner's announcements

An envelope is stamped in milliseconds, and a receiver takes it only if its stamp is later than all it has taken.  What
`storage/folder_owner.rs` sends is set beside a receiver of `storage/folder_sync.rs` that takes it in order.
-/
open List

namespace Mistl.Folder

/-! ## What the owner sends -/

/-- What makes an owner announce: the share itself, a tick, or the `hello` of a peer. -/
inductive OwnerEvent where
  | shared (send : Int × Bool)
  | tick (t : Tick)
  | hello (send : Int × Bool)

namespace Owner

def event (env : Setting) (x : Owner) : OwnerEvent → Owner × List Envelope
  | .shared send => (x, announceAll (fun _ => send) 0 [folderShare env x.entry])
  | .tick t => (tick env x t, (rescanAndAnnounce env x t).2)
  | .hello send => (x, announceFolderState env x.entry false fun _ => send)

def emitted (env : Setting) : Owner → List OwnerEvent → List Envelope
  | _, [] => []
  | x, e :: events => (event env x e).2 ++ emitted env (event env x e).1 events

end Owner

structure Envelope.For (envelope : Envelope) (did folderId roomId : String) : Prop where
  sender : envelope.sender = did
  folderId : envelope.folderId = some folderId
  roomId : envelope.roomId = roomId
  kind : envelope.kind ∈ clockedKinds

variable {e : Envelope}

namespace Owner

variable {env : Setting} {x : Owner} {folderId roomId : String}

theorem announceAll_mem {sends : Nat → Int × Bool} : ∀ {k : Nat} {l : List (Int → Envelope)} {e : Envelope},
    e ∈ announceAll sends k l → ∃ f ∈ l, ∃ clock, e = f clock
  | _, [], _, h => (not_mem_nil h).elim
  | k, f :: l, e, h => by
    unfold announceAll at h
    split at h
    · rcases mem_cons.1 h with rfl | h
      · exact ⟨f, mem_cons_self, _, rfl⟩
      · obtain ⟨g, hg, clock, he⟩ := announceAll_mem h
        exact ⟨g, mem_cons_of_mem _ hg, clock, he⟩
    · cases h

theorem folderState_for (entry : SharedFolder) (cid : String) (clock : Int) :
    (folderState env entry cid clock).For env.did entry.folderId entry.roomId :=
  ⟨rfl, rfl, rfl, by show "folder-state" ∈ clockedKinds; decide⟩

theorem folderShare_for (entry : SharedFolder) (clock : Int) : (folderShare env entry clock).For env.did entry.folderId entry.roomId :=
  ⟨rfl, rfl, rfl, by show "folder-share" ∈ clockedKinds; decide⟩

theorem folderChange_for (entry : SharedFolder) (changeType : String) (file : FileRecord) (clock : Int) :
    (folderChange env entry changeType file clock).For env.did entry.folderId entry.roomId :=
  ⟨rfl, rfl, rfl, by show "folder-change" ∈ clockedKinds; decide⟩

theorem announceFolderState_for {entry : SharedFolder} {skip : Bool} {sends : Nat → Int × Bool}
    (h : e ∈ announceFolderState env entry skip sends) : e.For env.did entry.folderId entry.roomId := by
  unfold announceFolderState at h
  split at h
  · cases h
  · split at h
    · cases h
    · obtain ⟨f, hf, clock, rfl⟩ := announceAll_mem h
      rw [mem_singleton.1 hf]
      exact folderState_for entry _ clock

variable {result : RescanResult}

theorem announcements_for {entry : SharedFolder} {f : Int → Envelope}
    (h : f ∈ announcements env entry result) (clock : Int) : (f clock).For env.did entry.folderId entry.roomId := by
  rcases mem_cons.1 h with rfl | h
  · exact folderShare_for entry clock
  · rcases mem_append.1 h with h | h
    all_goals
      obtain ⟨file, -, rfl⟩ := mem_map.1 h
      exact folderChange_for entry _ file clock

theorem publishFiles_folder {adds : Nat → Bool} : ∀ (ids : List String) (k : Nat) (x : Owner),
    (publishFiles env adds result k ids x).1.entry.folderId = x.entry.folderId ∧
      (publishFiles env adds result k ids x).1.entry.roomId = x.entry.roomId
  | [], _, _ => ⟨rfl, rfl⟩
  | id :: ids, k, x => by
    unfold publishFiles
    split
    · split
      · exact publishFiles_folder ids (k + 1) _
      · exact ⟨rfl, rfl⟩
    · exact publishFiles_folder ids k x

theorem republish_folder {adds : Nat → Bool} (x : Owner) : (republish env adds result x).1.entry.folderId = x.entry.folderId ∧
      (republish env adds result x).1.entry.roomId = x.entry.roomId := by
  have hfiles := @publishFiles_folder env result adds result.upsertedFileIds 0 x
  unfold republish
  split
  · exact ⟨rfl, rfl⟩
  · split
    · rename_i hrun
      rw [hrun] at hfiles
      exact hfiles
    · rename_i hrun
      rw [hrun] at hfiles
      split
      · exact hfiles
      · exact hfiles

theorem rescanAndAnnounce_for (x : Owner) (t : Tick) : (rescanAndAnnounce env x t).1.entry.folderId = x.entry.folderId ∧
      (rescanAndAnnounce env x t).1.entry.roomId = x.entry.roomId ∧
      ∀ e ∈ (rescanAndAnnounce env x t).2, e.For env.did x.entry.folderId x.entry.roomId := by
  have hfrom := @rescanLocalDir_from env.sha256Hex env.uuid x.entry x.drawn t.toFound
  unfold rescanAndAnnounce
  split
  · rename_i s hscan
    rw [hscan] at hfrom
    exact ⟨hfrom.folderId, hfrom.roomId, nofun⟩
  · rename_i s hscan
    rw [hscan] at hfrom
    split
    · refine ⟨hfrom.folderId, hfrom.roomId, fun e he => ?_⟩
      rw [← hfrom.folderId, ← hfrom.roomId]
      exact announceFolderState_for he
    · obtain ⟨hfolder, hroom⟩ := @republish_folder env s.result t.adds { x with entry := s.entry, drawn := s.drawn }
      split
      · rename_i y hrun
        rw [hrun] at hfolder hroom
        exact ⟨hfolder.trans hfrom.folderId, hroom.trans hfrom.roomId, nofun⟩
      · rename_i y hrun
        rw [hrun] at hfolder hroom
        refine ⟨hfolder.trans hfrom.folderId, hroom.trans hfrom.roomId, fun e he => ?_⟩
        obtain ⟨f, hf, clock, rfl⟩ := announceAll_mem he
        rw [← hfrom.folderId, ← hfrom.roomId, ← hfolder, ← hroom]
        exact announcements_for hf clock

theorem event_for (x : Owner) (e : OwnerEvent) :
    (event env x e).1.entry.folderId = x.entry.folderId ∧ (event env x e).1.entry.roomId = x.entry.roomId ∧
      ∀ envelope ∈ (event env x e).2, envelope.For env.did x.entry.folderId x.entry.roomId := by
  cases e with
  | shared send =>
    refine ⟨rfl, rfl, fun envelope h => ?_⟩
    obtain ⟨f, hf, clock, rfl⟩ := announceAll_mem h
    rw [mem_singleton.1 hf]
    exact folderShare_for x.entry clock
  | hello send => exact ⟨rfl, rfl, fun envelope h => announceFolderState_for h⟩
  | tick t =>
    obtain ⟨hfolder, hroom, hsent⟩ := @rescanAndAnnounce_for env x t
    refine ⟨?_, ?_, hsent⟩
    · show (if t.persisted then (rescanAndAnnounce env x t).1.entry else x.entry).folderId = _
      split
      · exact hfolder
      · rfl
    · show (if t.persisted then (rescanAndAnnounce env x t).1.entry else x.entry).roomId = _
      split
      · exact hroom
      · rfl

theorem emitted_for : ∀ (events : List OwnerEvent) (x : Owner) {envelope : Envelope}, envelope ∈ emitted env x events →
    envelope.For env.did x.entry.folderId x.entry.roomId
  | [], _, _, h => (not_mem_nil h).elim
  | e :: events, x, envelope, h => by
    obtain ⟨hfolder, hroom, hsent⟩ := @event_for env x e
    rcases mem_append.1 h with h | h
    · exact hsent envelope h
    · have := emitted_for events _ h
      rwa [hfolder, hroom] at this

end Owner

/-! ## What the receiver takes -/

/-- The receiver takes the envelopes one after the other, and does its work in between. -/
inductive Takes (sha256Hex : Bytes → String) : Sync → List Envelope → Sync → Prop where
  | refl {x : Sync} : Takes sha256Hex x [] x
  | work {x y z : Sync} {act : Act} {taken : List Envelope} : Takes sha256Hex x taken y → (∀ e, act ≠ .deliver e) →
      Step sha256Hex y act z → Takes sha256Hex x taken z
  | take {x y z : Sync} {envelope : Envelope} {taken : List Envelope} : Takes sha256Hex x taken y →
      Step sha256Hex y (.deliver envelope) z → Takes sha256Hex x (taken ++ [envelope]) z

def Task.due (lastClock : Int) : Task → Int
  | .found envelope _ => if 0 < envelope.clock ∧ envelope.kind ∈ clockedKinds then max lastClock envelope.clock else lastClock
  | _ => lastClock

def Task.Noted (task : Task) : Prop := ∀ lastClock, task.due lastClock = lastClock

def Sync.clockDue (x : Sync) : Int := (x.tasks .handler).due x.entry.lastClock

structure Sync.SameFolder (x y : Sync) : Prop where
  folderId : y.entry.folderId = x.entry.folderId
  ownerNodeId : y.entry.ownerNodeId = x.entry.ownerNodeId
  roomId : y.entry.roomId = x.entry.roomId

theorem handle_noted (snapshot : SyncEntry) (envelope : Envelope) : (handle snapshot envelope).2.Noted := fun _ => by
  rcases handle_opening snapshot envelope with h | ⟨-, job, h, -⟩ <;> rw [h] <;> rfl

namespace Sync

variable {sha256Hex : Bytes → String} {x y : Sync} {act : Act}

theorem clockDue_move {who : Who} {task : Task} (htasks : y.tasks = Function.update x.tasks who task)
    (hclock : y.entry.lastClock = x.entry.lastClock) (hold : (x.tasks who).Noted) (hnew : task.Noted) :
    y.clockDue = x.clockDue := by
  unfold clockDue
  rw [htasks, hclock]
  cases who with
  | handler => rw [Function.update_self, hnew, hold]
  | retry => rw [Function.update_of_ne (by decide)]

theorem step_clockDue (h : Step sha256Hex x act y) (hno : ∀ e, act ≠ .deliver e) : y.clockDue = x.clockDue ∧ x.SameFolder y := by
  have hjob : ∀ {who : Who} {e : Envelope} {job : Job}, x.tasks who = .job e job → (x.tasks who).Noted :=
    fun htask _ => by rw [htask]; rfl
  have hwait : ∀ {snapshot : SyncEntry} {granted : Option String}, x.tasks .retry = .waiting snapshot granted →
    (x.tasks .retry).Noted := fun htask _ => by rw [htask]; rfl
  have hrfl : x.SameFolder x := ⟨rfl, rfl, rfl⟩
  cases h with
  | deliver => exact absurd rfl (hno _)
  | clock htask =>
    refine ⟨?_, ?_⟩
    · unfold clockDue
      rw [htask]
      split
      · rename_i hpos
        exact (if_pos hpos).symm
      · rename_i hpos
        exact (if_neg hpos).symm
    · have hentry : ∀ c : Prop, ∀ [Decidable c], ∀ clock : Int, x.SameFolder
          { x with entry := if c then { x.entry with lastClock := clock } else x.entry } := fun c _ clock => by
        by_cases hc : c
        · simp only [hc]
          exact ⟨rfl, rfl, rfl⟩
        · simp only [hc]
          exact hrfl
      exact ⟨(hentry _ _).folderId, (hentry _ _).ownerNodeId, (hentry _ _).roomId⟩
  | dispatch htask =>
    have hentry : ∀ c : Prop, ∀ [Decidable c], ∀ sig : Option String,
        (if c then { x.entry with lastFolderSignature := sig } else x.entry).lastClock = x.entry.lastClock ∧
        x.SameFolder { x with entry := if c then { x.entry with lastFolderSignature := sig } else x.entry } :=
      fun c _ sig => by
        by_cases hc : c
        · simp only [hc, if_true]
          exact ⟨trivial, rfl, rfl, rfl⟩
        · simp only [hc, if_false]
          exact ⟨trivial, hrfl⟩
    refine ⟨clockDue_move rfl (hentry _ _).1 (fun _ => by rw [htask]; rfl) (handle_noted _ _), ?_⟩
    exact ⟨(hentry _ _).2.folderId, (hentry _ _).2.ownerNodeId, (hentry _ _).2.roomId⟩
  | start htask | fail htask => exact ⟨clockDue_move rfl rfl (fun _ => by rw [htask]; rfl) fun _ => rfl, ⟨rfl, rfl, rfl⟩⟩
  | granted htask | grantedAlone htask | stateGranted htask | state htask | fallback htask =>
    exact ⟨clockDue_move rfl rfl (hwait htask) fun _ => rfl, ⟨rfl, rfl, rfl⟩⟩
  | @giveUp who hcan =>
    refine ⟨clockDue_move rfl rfl (fun _ => ?_) fun _ => rfl, ⟨rfl, rfl, rfl⟩⟩
    cases htask : x.tasks who with
    | found e snapshot =>
      rw [htask] at hcan
      cases hcan
    | _ => rfl
  | fetched htask | item htask | remove htask | record htask | upsertFetch htask | upsertRemove htask
  | upsertRecord htask | deleteRemove htask | deleteRecord htask =>
    exact ⟨clockDue_move rfl rfl (hjob htask) fun _ => rfl, ⟨rfl, rfl, rfl⟩⟩
  | upsertWrite htask =>
    refine ⟨clockDue_move rfl rfl (hjob htask) fun _ => ?_, ⟨rfl, rfl, rfl⟩⟩
    split <;> rfl

theorem takes_sameFolder {taken : List Envelope} (h : Takes sha256Hex x taken y) : x.SameFolder y := by
  induction h with
  | refl => exact ⟨rfl, rfl, rfl⟩
  | work _ hno hstep ih =>
    obtain ⟨-, hsame⟩ := step_clockDue hstep hno
    exact ⟨hsame.folderId.trans ih.folderId, hsame.ownerNodeId.trans ih.ownerNodeId, hsame.roomId.trans ih.roomId⟩
  | take _ hstep ih =>
    cases hstep with
    | deliver => exact ⟨ih.folderId, ih.ownerNodeId, ih.roomId⟩

theorem takes_clockDue {taken : List Envelope} (h : Takes sha256Hex x taken y) {bound : Int} (hbound : x.clockDue < bound) :
    (∀ e ∈ taken, e.clock < bound) → y.clockDue < bound := by
  induction h with
  | refl => exact fun _ => hbound
  | work _ hno hstep ih => exact fun hall => (step_clockDue hstep hno).1 ▸ ih hall
  | @take y z envelope taken _ hstep ih =>
    intro hall
    have hdue := ih fun e he => hall e (mem_append_left _ he)
    have hlast := hall envelope (mem_append_right _ mem_cons_self)
    cases hstep with
    | deliver hidle _ _ _ =>
      have hkept : y.entry.lastClock < bound := by
        unfold clockDue at hdue
        rwa [hidle] at hdue
      unfold clockDue
      show (if _ then _ else _ : Int) < bound
      split
      · exact max_lt hkept hlast
      · exact hkept

end Sync

/-! ## The law -/

/-- **Every announcement is accepted** by a receiver that takes them in order, provided that no two of them are stamped in the
same millisecond. -/
theorem announcements_accepted (env : Setting) (sha256Hex : Bytes → String) (owner : Owner) (events : List OwnerEvent)
    (x : Sync) (hfolder : x.entry.folderId = owner.entry.folderId) (howner : x.entry.ownerNodeId = env.did)
    (hroom : x.entry.roomId = owner.entry.roomId)
    (hclock : ((Owner.emitted env owner events).map Envelope.clock).Pairwise (· ≤ ·))
    (hstart : ∀ e ∈ Owner.emitted env owner events, 0 < e.clock → x.clockDue ≤ e.clock)
    (hstamps : ((x.clockDue :: (Owner.emitted env owner events).map Envelope.clock).filter (0 < ·)).Nodup) :
    ∀ pre e post, Owner.emitted env owner events = pre ++ e :: post → ∀ y, Takes sha256Hex x pre y →
      y.tasks .handler = .idle → Step sha256Hex y (.deliver e) (y.setTask .handler (.found e y.entry)) := by
  intro pre e post hsplit y htakes hidle
  have hfor := Owner.emitted_for events owner (hsplit ▸ mem_append_right pre mem_cons_self)
  have hsame := Sync.takes_sameFolder htakes
  refine .deliver hidle ?_ ?_ ?_
  · rw [hfor.folderId, hsame.folderId, hfolder]
  · unfold envelopeFromOwner
    rw [hfor.sender, hfor.roomId, hsame.ownerNodeId, hsame.roomId, howner, hroom]
    simp
  · by_cases hpos : 0 < e.clock
    · -- the stamps that came before are another's, and none of them is later
      rw [hsplit] at hclock hstart hstamps
      rw [map_append, pairwise_append] at hclock
      rw [map_append, ← cons_append, filter_append, nodup_append] at hstamps
      have hother : ∀ c ∈ x.clockDue :: pre.map Envelope.clock, 0 < c → c ≠ e.clock := fun c hc hcpos =>
        hstamps.2.2 c (mem_filter.2 ⟨hc, decide_eq_true hcpos⟩) e.clock
          (mem_filter.2 ⟨mem_cons_self, decide_eq_true hpos⟩)
      have hbefore : ∀ c ∈ x.clockDue :: pre.map Envelope.clock, c ≤ e.clock → c < e.clock := fun c hc hle => by
        rcases lt_or_ge 0 c with hcpos | hcpos
        · exact lt_of_le_of_ne hle (hother c hc hcpos)
        · exact lt_of_le_of_lt hcpos hpos
      have hdue := Sync.takes_clockDue htakes
        (hbefore _ mem_cons_self (hstart e (mem_append_right _ mem_cons_self) hpos)) fun e' he' =>
          hbefore _ (mem_cons_of_mem _ (mem_map_of_mem he'))
            (hclock.2.2 _ (mem_map_of_mem he') _ mem_cons_self)
      unfold Sync.clockDue at hdue
      rw [hidle] at hdue
      exact Bool.or_eq_true_iff.2 (.inr (decide_eq_true hdue))
    · exact Bool.or_eq_true_iff.2 (.inl (decide_eq_true (not_lt.1 hpos)))

/-! ## Two announcements in one millisecond -/

theorem Sync.exists_dispatch (sha256Hex : Bytes → String) {x : Sync} {snapshot : SyncEntry}
    (h : x.tasks .handler = .found e snapshot) : ∃ y z, Step sha256Hex x .clock y ∧ Step sha256Hex y .dispatch z ∧
      z.tasks .handler = (handle snapshot e).2 :=
  ⟨_, _, .clock h, .dispatch (Sync.tasks_setTask ..), Sync.tasks_setTask ..⟩

theorem Sync.exists_idle (sha256Hex : Bytes → String) {x : Sync} {job : Job}
    (h : x.tasks .handler = .job e job) (hopening : job.opening = true) :
    ∃ y z, Step sha256Hex x (.giveUp .handler) y ∧ Step sha256Hex y (.fail .handler) z ∧ z.tasks .handler = .idle := by
  refine ⟨_, _, .giveUp ?_, .fail (Sync.tasks_setTask ..), Sync.tasks_setTask ..⟩
  rw [h]
  cases job <;> first | rfl | cases hopening

theorem Sync.takes_one {sha256Hex : Bytes → String} {x : Sync}
    (hstep : Step sha256Hex x (.deliver e) (x.setTask .handler (.found e x.entry))) :
    ∃ y, Takes sha256Hex x [e] y ∧ y.tasks .handler = .idle ∧ y.clockDue = (Task.found e x.entry).due x.entry.lastClock := by
  have hfound := Sync.tasks_setTask x .handler (.found e x.entry)
  obtain ⟨y, z, hclock, hdispatch, hz⟩ := Sync.exists_dispatch sha256Hex hfound
  have htakes : Takes sha256Hex x [e] z := (Takes.work (.take .refl hstep) (fun _ h => Act.noConfusion h) hclock).work (fun _ h => Act.noConfusion h) hdispatch
  have hdue : z.clockDue = (Task.found e x.entry).due x.entry.lastClock := by
    rw [(Sync.step_clockDue hdispatch fun _ h => Act.noConfusion h).1, (Sync.step_clockDue hclock fun _ h => Act.noConfusion h).1, Sync.clockDue]
    rfl
  rcases handle_opening x.entry e with hnone | ⟨-, job, hjob, hopening⟩
  · exact ⟨z, htakes, hz.trans hnone, hdue⟩
  · obtain ⟨v, w, hgive, hfail, hw⟩ := Sync.exists_idle sha256Hex (hz.trans hjob) hopening
    refine ⟨w, (htakes.work (fun _ h => Act.noConfusion h) hgive).work (fun _ h => Act.noConfusion h) hfail, hw, ?_⟩
    rw [(Sync.step_clockDue hfail fun _ h => Act.noConfusion h).1, (Sync.step_clockDue hgive fun _ h => Act.noConfusion h).1, hdue]

def sampleChange (first second : Int) : Tick :=
  { sampleTick 2 [98] true with sends := fun k => (if k = 0 then first else second, true) }

def sampleReceiver : Sync :=
  let x := Sync.initial "u" "did:owner" "room" ∅
  { x with entry := { x.entry with status := .synced, lastClock := 4 } }

def sampleShare (clock : Int) : Envelope :=
  ⟨"folder-share", "did:owner", "room", clock, none, some "", some "u", none, none, some "ccc"⟩

def sampleUpsert (clock : Int) : Envelope :=
  ⟨"folder-change", "did:owner", "room", clock, some "file-upserted", none, some "u", some "uu",
    some ⟨"uu", "u", "a", sumB, some "cc", some "cc", none⟩, some "cc"⟩

theorem emitted_apart : Owner.emitted sampleSetting sampleOwner [.tick (sampleChange 5 6)] = [sampleShare 5, sampleUpsert 6] := by
  decide +kernel

theorem emitted_together : Owner.emitted sampleSetting sampleOwner [.tick (sampleChange 5 5)] =
    [sampleShare 5, sampleUpsert 5] := by decide +kernel

theorem announcements_accepted_apart : Step sampleSha sampleReceiver (.deliver (sampleShare 5))
    (sampleReceiver.setTask .handler (.found (sampleShare 5) sampleReceiver.entry)) := by
  have h := announcements_accepted sampleSetting sampleSha sampleOwner [.tick (sampleChange 5 6)] sampleReceiver
    (by decide +kernel) rfl (by decide +kernel) (by rw [emitted_apart]; decide) (by rw [emitted_apart]; decide +kernel)
    (by rw [emitted_apart]; decide)
  rw [emitted_apart] at h
  exact h [] _ _ rfl sampleReceiver .refl rfl

/-- **A change of a file is dropped** where it is announced in the millisecond of the folder itself. -/
theorem change_dropped : ¬ ∀ (env : Setting) (sha256Hex : Bytes → String) (owner : Owner) (events : List OwnerEvent) (x : Sync),
    x.entry.folderId = owner.entry.folderId → x.entry.ownerNodeId = env.did → x.entry.roomId = owner.entry.roomId →
    ((Owner.emitted env owner events).map Envelope.clock).Pairwise (· ≤ ·) →
    (∀ e ∈ Owner.emitted env owner events, 0 < e.clock → x.clockDue ≤ e.clock) →
    ∀ pre e post, Owner.emitted env owner events = pre ++ e :: post → ∀ y, Takes sha256Hex x pre y →
      y.tasks .handler = .idle → Step sha256Hex y (.deliver e) (y.setTask .handler (.found e y.entry)) := by
  intro h
  have hall := h sampleSetting sampleSha sampleOwner [.tick (sampleChange 5 5)] sampleReceiver (by decide +kernel) rfl
    (by decide +kernel) (by rw [emitted_together]; decide) (by rw [emitted_together]; decide +kernel)
  rw [emitted_together] at hall
  have hshare := hall [] _ _ rfl sampleReceiver .refl rfl
  obtain ⟨y, htakes, hidle, hdue⟩ := Sync.takes_one hshare
  have hclock : y.entry.lastClock = 5 := by
    unfold Sync.clockDue at hdue
    rw [hidle] at hdue
    exact hdue.trans (by decide)
  cases hall [sampleShare 5] _ _ rfl y htakes hidle with
  | deliver _ _ _ hfresh =>
    unfold envelopeClockFresh at hfresh
    rw [hclock] at hfresh
    cases hfresh

end Mistl.Folder
