import Mistl.FolderSync
/-!
# FolderOrder — a synced folder and the order of its announcements

A run in which what a retry takes is an announcement of the owner that is not behind what was applied or is being applied never
rolls the folder back.
-/
open List Option

namespace Mistl.Folder

variable {sha256Hex : Bytes → String} {x x' : Sync} {act : Act} {ownerNodeId roomId : String}

/-! ## Announcements -/

def Task.inHand : Task → Option Envelope
  | .found envelope _ => if envelope.kind ∈ clockedKinds then some envelope else none
  | .accepted envelope _ => if envelope.kind ∈ clockedKinds then some envelope else none
  | .job announcement _ => some announcement
  | _ => none

def Envelope.By (envelope : Envelope) (ownerNodeId roomId : String) : Prop := envelope.sender = ownerNodeId ∧ envelope.roomId = roomId

/-- **What was applied is the owner's, in the room, and in the order of its clocks.** -/
structure Sync.NeverRollsBack (x : Sync) (ownerNodeId roomId : String) : Prop where
  origin : ∀ e ∈ x.applied, e.2.By ownerNodeId roomId
  order : (x.applied.map fun e => e.2.clock).Pairwise (· ≤ ·)

def Act.envelope : Act → Option Envelope
  | .deliver envelope => some envelope
  | .grant envelope _ => some envelope
  | .state envelope => some envelope
  | _ => none

def Stamped (announced : List Envelope) (x : Sync) (act : Act) : Prop :=
  ∀ envelope, act.envelope = some envelope → envelope.sender = x.entry.ownerNodeId → envelope.kind ∈ clockedKinds → envelope ∈ announced

/-- An announcement that is not behind what a retry has applied, while the other task has no other one in hand. -/
def Sync.Fits (x : Sync) (envelope : Envelope) (other : Who) : Prop :=
  (∀ e, (x.tasks other).inHand = some e → e.clock = envelope.clock) ∧ ∀ e, (Who.retry, e) ∈ x.applied → e.clock ≤ envelope.clock

/-- **What a retry takes is the owner's, and not behind**, and neither is what the handler takes behind a retry. -/
def Ordered (x : Sync) : Act → Prop
  | .deliver envelope => envelope.kind ∈ clockedKinds → x.Fits envelope .retry
  | .grant envelope _ => envelope.roomId = x.entry.roomId ∧ x.entry.lastClock ≤ envelope.clock ∧ x.Fits envelope .handler
  | .state envelope => envelope.By x.entry.ownerNodeId x.entry.roomId ∧ x.entry.lastClock ≤ envelope.clock ∧ x.Fits envelope .handler
  | .fallback => ∀ snapshot granted envelope, x.tasks .retry = .waiting snapshot granted →
      snapshot.announced = some envelope → x.entry.lastClock ≤ envelope.clock ∧ x.Fits envelope .handler
  | _ => True

/-! ## The invariant -/

def Sync.Next (x : Sync) (ownerNodeId roomId : String) (envelope : Envelope) : Prop :=
  envelope.By ownerNodeId roomId ∧ ∀ e ∈ x.applied, e.2.clock ≤ envelope.clock

def SyncEntry.AnnouncedBy (entry : SyncEntry) (ownerNodeId roomId : String) : Prop :=
  entry.ownerNodeId = ownerNodeId ∧ entry.roomId = roomId ∧ ∀ envelope, entry.announced = some envelope → envelope.By ownerNodeId roomId

/-- **The invariant of an ordered run.** -/
structure Sync.InOrder (x : Sync) (ownerNodeId roomId : String) : Prop where
  never : x.NeverRollsBack ownerNodeId roomId
  handled : ∀ e, (Who.handler, e) ∈ x.applied → e.clock ≤ x.entry.lastClock
  entry : x.entry.AnnouncedBy ownerNodeId roomId
  waiting : ∀ snapshot granted, x.tasks .retry = .waiting snapshot granted → snapshot.AnnouncedBy ownerNodeId roomId
  inHand : ∀ who e, (x.tasks who).inHand = some e → x.Next ownerNodeId roomId e
  found : ∀ e snapshot, x.tasks .handler = .found e snapshot → e.kind ∈ clockedKinds → 0 < e.clock
  accepted : ∀ e, (x.tasks .handler).inHand = some e → (∀ snapshot, x.tasks .handler ≠ .found e snapshot) → e.clock ≤ x.entry.lastClock
  same : ∀ e e', (x.tasks .handler).inHand = some e → (x.tasks .retry).inHand = some e' → e.clock = e'.clock

variable {announced : List Envelope}

namespace Sync

variable {who : Who} {task : Task}

theorem InOrder.other (h : x.InOrder ownerNodeId roomId) {e e' : Envelope} (he : (x.tasks who).inHand = some e)
    (he' : (x.tasks who.other).inHand = some e') : e.clock = e'.clock := by
  cases who with
  | handler => exact h.same e e' he he'
  | retry => exact (h.same e' e he' he).symm

theorem InOrder.move (h : x.InOrder ownerNodeId roomId) (who : Who) (task : Task)
    (htasks : x'.tasks = Function.update x.tasks who task)
    (happlied : x'.applied = x.applied) (howner : x'.entry.ownerNodeId = x.entry.ownerNodeId)
    (hroom : x'.entry.roomId = x.entry.roomId) (hannounced : x'.entry.announced = x.entry.announced)
    (hclock : x.entry.lastClock ≤ x'.entry.lastClock)
    (hhand : ∀ e, task.inHand = some e → x.Next ownerNodeId roomId e ∧
      (who = .handler → (∀ snapshot, task ≠ .found e snapshot) → e.clock ≤ x'.entry.lastClock) ∧
      ∀ e', (x.tasks who.other).inHand = some e' → e.clock = e'.clock)
    (hfound : ∀ e snapshot, task = .found e snapshot → e.kind ∈ clockedKinds → 0 < e.clock)
    (hwaiting : ∀ snapshot granted, task = .waiting snapshot granted → snapshot.AnnouncedBy ownerNodeId roomId) :
    x'.InOrder ownerNodeId roomId := by
  have hself : x'.tasks who = task := by rw [htasks, Function.update_self]
  have hother : x'.tasks who.other = x.tasks who.other := by rw [htasks, Function.update_of_ne who.other_ne]
  have hcases : ∀ w, (w = who ∧ x'.tasks w = task) ∨ (w = who.other ∧ x'.tasks w = x.tasks w) := fun w => by
    rcases who.eq_or_other w with rfl | rfl
    · exact .inl ⟨rfl, hself⟩
    · exact .inr ⟨rfl, hother⟩
  refine ⟨⟨?_, ?_⟩, fun e he => ?_, ?_, fun snapshot granted hw => ?_, fun w e he => ?_, fun e snapshot hf => ?_,
    fun e he hnot => ?_, fun e e' he he' => ?_⟩
  · rw [happlied]
    exact h.never.origin
  · rw [happlied]
    exact h.never.order
  · rw [happlied] at he
    exact (h.handled e he).trans hclock
  · rw [SyncEntry.AnnouncedBy, howner, hroom, hannounced]
    exact h.entry
  · rcases hcases .retry with ⟨-, heq⟩ | ⟨-, heq⟩
    · exact hwaiting snapshot granted (heq.symm.trans hw)
    · exact h.waiting snapshot granted (heq.symm.trans hw)
  · rw [Next, happlied]
    rcases hcases w with ⟨-, heq⟩ | ⟨-, heq⟩
    · exact (hhand e (heq ▸ he)).1
    · exact h.inHand w e (heq ▸ he)
  · rcases hcases .handler with ⟨-, heq⟩ | ⟨-, heq⟩
    · exact hfound e snapshot (heq.symm.trans hf)
    · exact h.found e snapshot (heq.symm.trans hf)
  · rcases hcases .handler with ⟨hwho, heq⟩ | ⟨-, heq⟩
    · exact (hhand e (heq ▸ he)).2.1 hwho.symm (fun snapshot hs => hnot snapshot (heq.trans hs))
    · exact (h.accepted e (heq ▸ he) fun snapshot hs => hnot snapshot (heq.trans hs)).trans hclock
  · rcases hcases .handler with ⟨hwho, heq⟩ | ⟨hwho, heq⟩
    · subst hwho
      rw [heq] at he
      exact (hhand e he).2.2 e' (hother ▸ he')
    · have hretry : who = .retry := by cases who <;> cases hwho; rfl
      subst hretry
      rw [hself] at he'
      exact ((hhand e' he').2.2 e (hother ▸ he)).symm

theorem Task.nothing {task : Task} (hnone : task.inHand = none) {p : Envelope → Prop} (e : Envelope)
    (he : task.inHand = some e) : p e := absurd (he.symm.trans hnone) (some_ne_none e)

theorem InOrder.keep (h : x.InOrder ownerNodeId roomId) (who : Who) (task : Task)
    (htasks : x'.tasks = Function.update x.tasks who task)
    (happlied : x'.applied = x.applied) (howner : x'.entry.ownerNodeId = x.entry.ownerNodeId)
    (hroom : x'.entry.roomId = x.entry.roomId) (hannounced : x'.entry.announced = x.entry.announced)
    (hclock : x'.entry.lastClock = x.entry.lastClock)
    (hhand : ∀ e, task.inHand = some e → (x.tasks who).inHand = some e ∧ ∀ e' snapshot, x.tasks who ≠ .found e' snapshot)
    (hplain : ∀ e snapshot, task ≠ .found e snapshot)
    (hwaiting : ∀ snapshot granted, task = .waiting snapshot granted → snapshot.AnnouncedBy ownerNodeId roomId) :
    x'.InOrder ownerNodeId roomId := by
  refine h.move who task htasks happlied howner hroom hannounced hclock.ge (fun e he => ?_)
    (fun e s hf => absurd hf (hplain e s)) hwaiting
  obtain ⟨hold, hnot⟩ := hhand e he
  refine ⟨h.inHand who e hold, fun hwho _ => ?_, fun e' he' => h.other hold he'⟩
  subst hwho
  rw [hclock]
  exact h.accepted e hold fun s => hnot e s

variable {e : Envelope}

section

variable (h : x.InOrder ownerNodeId roomId)

include h

theorem InOrder.apply {job : Job} (hjob : x.tasks who = .job e job)
    (htasks : x'.tasks = Function.update x.tasks who .idle) (happlied : x'.applied = x.applied ++ [(who, e)])
    (howner : x'.entry.ownerNodeId = x.entry.ownerNodeId) (hroom : x'.entry.roomId = x.entry.roomId)
    (hannounced : x'.entry.announced = x.entry.announced ∨ x'.entry.announced = some e)
    (hclock : x'.entry.lastClock = x.entry.lastClock) : x'.InOrder ownerNodeId roomId := by
  have hhand : (x.tasks who).inHand = some e := by rw [hjob]; rfl
  obtain ⟨hby, hle⟩ := h.inHand who e hhand
  have hself : x'.tasks who = .idle := by rw [htasks, Function.update_self]
  have hother : x'.tasks who.other = x.tasks who.other := by rw [htasks, Function.update_of_ne who.other_ne]
  have hcases : ∀ w, x'.tasks w = .idle ∨ (w = who.other ∧ x'.tasks w = x.tasks w) := fun w => by
    rcases who.eq_or_other w with rfl | rfl
    · exact .inl hself
    · exact .inr ⟨rfl, hother⟩
  refine ⟨⟨?_, ?_⟩, fun e' he' => ?_, ?_, fun snapshot granted hw => ?_, fun w e' he' => ?_, fun e' snapshot hf => ?_,
    fun e' he' hnot => ?_, fun a b ha hb => ?_⟩
  · rw [happlied]
    intro p hp
    rcases mem_append.1 hp with hp | hp
    · exact h.never.origin p hp
    · rw [mem_singleton.1 hp]
      exact hby
  · rw [happlied, map_append, pairwise_append]
    refine ⟨h.never.order, pairwise_singleton _ _, fun a ha b hb => ?_⟩
    obtain ⟨p, hp, rfl⟩ := List.mem_map.1 ha
    rw [map_singleton, mem_singleton] at hb
    rw [hb]
    exact hle p hp
  · rw [hclock]
    rw [happlied] at he'
    rcases mem_append.1 he' with he' | he'
    · exact h.handled e' he'
    · obtain ⟨rfl, rfl⟩ := Prod.mk.inj (mem_singleton.1 he')
      exact h.accepted e' hhand fun snapshot hs => Task.noConfusion (hjob.symm.trans hs)
  · rw [SyncEntry.AnnouncedBy, howner, hroom]
    obtain ⟨h1, h2, h3⟩ := h.entry
    refine ⟨h1, h2, fun a ha => ?_⟩
    rcases hannounced with hsame | hnew
    · exact h3 a (hsame ▸ ha)
    · obtain rfl := Option.some.inj (hnew.symm.trans ha)
      exact hby
  · rcases hcases .retry with hidle | ⟨-, heq⟩
    · rw [hidle] at hw
      cases hw
    · exact h.waiting snapshot granted (heq.symm.trans hw)
  · rcases hcases w with hidle | ⟨hwho, heq⟩
    · rw [hidle] at he'
      cases he'
    · subst hwho
      rw [heq] at he'
      obtain ⟨hby', hle'⟩ := h.inHand _ e' he'
      refine ⟨hby', fun p hp => ?_⟩
      rw [happlied] at hp
      rcases mem_append.1 hp with hp | hp
      · exact hle' p hp
      · rw [mem_singleton.1 hp]
        exact (h.other hhand he').le
  · rcases hcases .handler with hidle | ⟨-, heq⟩
    · rw [hidle] at hf
      cases hf
    · exact h.found e' snapshot (heq.symm.trans hf)
  · rcases hcases .handler with hidle | ⟨-, heq⟩
    · rw [hidle] at he'
      cases he'
    · rw [hclock]
      exact h.accepted e' (heq ▸ he') fun snapshot hs => hnot snapshot (heq.trans hs)
  · rcases hcases .handler with hidle | ⟨hwho, heq⟩
    · rw [hidle] at ha
      cases ha
    · rcases hcases .retry with hidle | ⟨hwho', heq'⟩
      · rw [hidle] at hb
        cases hb
      · rw [← hwho'] at hwho
        cases hwho

theorem InOrder.take {job : Job} (hby : e.By ownerNodeId roomId)
    (hclock : x.entry.lastClock ≤ e.clock) (hfits : x.Fits e .handler) :
    (x.setTask .retry (.job e job)).InOrder ownerNodeId roomId := by
  refine h.move .retry (.job e job) rfl rfl rfl rfl rfl le_rfl (fun e' he' => ?_) (fun _ _ h _ => Task.noConfusion h)
    (fun _ _ h => Task.noConfusion h)
  obtain rfl := Option.some.inj he'
  refine ⟨⟨hby, fun p hp => ?_⟩, nofun, fun e' he' => (hfits.1 e' he').symm⟩
  obtain ⟨w, a⟩ := p
  cases w with
  | handler => exact (h.handled a hp).trans hclock
  | retry => exact hfits.2 a hp

theorem InOrder.deliver (hfrom : envelopeFromOwner x.entry e = true)
    (hfresh : envelopeClockFresh x.entry e = true) (hpos : e.kind ∈ clockedKinds → 0 < e.clock)
    (hfits : e.kind ∈ clockedKinds → x.Fits e .retry) :
    (x.setTask .handler (.found e x.entry)).InOrder ownerNodeId roomId := by
  refine h.move .handler (.found e x.entry) rfl rfl rfl rfl rfl le_rfl (fun e' he' => ?_) (fun e' snapshot hf hk => ?_)
    (fun _ _ h => Task.noConfusion h)
  · simp only [Task.inHand] at he'
    split at he'
    · rename_i hk
      obtain rfl := Option.some.inj he'
      obtain ⟨hsender, hroom⟩ := Bool.and_eq_true_iff.1 hfrom
      obtain ⟨howner, hroomId, -⟩ := h.entry
      have hlt : x.entry.lastClock < e.clock := by
        rcases Bool.or_eq_true_iff.1 hfresh with hle | hlt
        · exact absurd (hpos hk) (not_lt.2 (of_decide_eq_true hle))
        · exact of_decide_eq_true hlt
      refine ⟨⟨⟨(of_decide_eq_true hsender).trans howner, (of_decide_eq_true hroom).trans hroomId⟩, fun p hp => ?_⟩,
        fun _ hnot => absurd rfl (hnot x.entry), fun e' he' => ((hfits hk).1 e' he').symm⟩
      obtain ⟨w, a⟩ := p
      cases w with
      | handler => exact (h.handled a hp).trans hlt.le
      | retry => exact (hfits hk).2 a hp
    · cases he'
  · obtain ⟨rfl, rfl⟩ := Task.found.inj hf
    exact hpos hk

theorem InOrder.clock {snapshot : SyncEntry} (hf : x.tasks .handler = .found e snapshot) : (({ x with
        entry := if 0 < e.clock ∧ e.kind ∈ clockedKinds then
            { x.entry with lastClock := max x.entry.lastClock e.clock }
          else x.entry } : Sync).setTask .handler (.accepted e snapshot)).InOrder ownerNodeId roomId := by
  have hle : x.entry.lastClock ≤ (if 0 < e.clock ∧ e.kind ∈ clockedKinds then
      { x.entry with lastClock := max x.entry.lastClock e.clock } else x.entry : SyncEntry).lastClock := by
    split
    · exact le_max_left _ _
    · exact le_rfl
  refine h.move .handler (.accepted e snapshot) rfl rfl ?_ ?_ ?_ hle (fun e' he' => ?_)
    (fun _ _ h _ => Task.noConfusion h) (fun _ _ h => Task.noConfusion h)
  · split <;> rfl
  · split <;> rfl
  · split <;> rfl
  · simp only [Task.inHand] at he'
    split at he'
    · rename_i hk
      obtain rfl := Option.some.inj he'
      have hold : (x.tasks .handler).inHand = some e := by
        rw [hf, Task.inHand, if_pos hk]
      refine ⟨h.inHand _ e hold, fun _ _ => ?_, fun e' he' => h.same e e' hold he'⟩
      rw [if_pos ⟨h.found e snapshot hf hk, hk⟩]
      exact le_max_right _ _
    · cases he'

theorem InOrder.dispatch {snapshot : SyncEntry} (ha : x.tasks .handler = .accepted e snapshot) : (({ x with
        entry := if (handle snapshot e).1.isSome then { x.entry with lastFolderSignature := (handle snapshot e).1 }
          else x.entry } : Sync).setTask .handler (handle snapshot e).2).InOrder ownerNodeId roomId := by
  have hentry : ∀ {α : Type} (f : SyncEntry → α), (∀ y s, f { y with lastFolderSignature := s } = f y) →
      f (if (handle snapshot e).1.isSome then { x.entry with lastFolderSignature := (handle snapshot e).1 } else x.entry) =
        f x.entry := fun f hf => by
    split
    · exact hf _ _
    · rfl
  have hplain : ∀ e' s, (handle snapshot e).2 ≠ .found e' s := fun e' s heq => by
    rcases handle_opening snapshot e with hidle | ⟨-, job, hjob, -⟩
    · exact Task.noConfusion (hidle.symm.trans heq)
    · exact Task.noConfusion (hjob.symm.trans heq)
  refine h.keep .handler (handle snapshot e).2 rfl rfl (hentry SyncEntry.ownerNodeId fun _ _ => rfl) (hentry SyncEntry.roomId fun _ _ => rfl)
    (hentry SyncEntry.announced fun _ _ => rfl) (hentry SyncEntry.lastClock fun _ _ => rfl) (fun e' he' => ?_) hplain
    (fun s granted heq => ?_)
  · rcases handle_opening snapshot e with hidle | ⟨hk, job, hjob, -⟩
    · rw [hidle] at he'
      cases he'
    · rw [hjob] at he'
      obtain rfl := Option.some.inj he'
      exact ⟨by rw [ha, Task.inHand, if_pos hk], fun e' s hs => Task.noConfusion (ha.symm.trans hs)⟩
  · rcases handle_opening snapshot e with hidle | ⟨-, job, hjob, -⟩
    · exact Task.noConfusion (hidle.symm.trans heq)
    · exact Task.noConfusion (hjob.symm.trans heq)

theorem InOrder.work {job job' : Job} (hjob : x.tasks who = .job e job)
    (htasks : x'.tasks = Function.update x.tasks who (.job e job')) (happlied : x'.applied = x.applied)
    (hentry : x'.entry = x.entry) : x'.InOrder ownerNodeId roomId := by
  refine h.keep who (.job e job') htasks happlied (by rw [hentry]) (by rw [hentry]) (by rw [hentry]) (by rw [hentry]) (fun e' he' => ?_)
    (fun _ _ h => Task.noConfusion h) (fun _ _ h => Task.noConfusion h)
  refine ⟨by rw [hjob]; exact he', fun e' s hs => Task.noConfusion (hjob.symm.trans hs)⟩

theorem InOrder.drop (who : Who) (task : Task) (hnone : task = .idle ∨ task = .failing)
    (htasks : x'.tasks = Function.update x.tasks who task) (happlied : x'.applied = x.applied)
    (howner : x'.entry.ownerNodeId = x.entry.ownerNodeId) (hroom : x'.entry.roomId = x.entry.roomId)
    (hannounced : x'.entry.announced = x.entry.announced) (hclock : x'.entry.lastClock = x.entry.lastClock) :
    x'.InOrder ownerNodeId roomId := by
  rcases hnone with rfl | rfl
  all_goals
    exact h.keep who _ htasks happlied howner hroom hannounced hclock (Task.nothing rfl)
      (fun _ _ h => Task.noConfusion h) fun _ _ h => Task.noConfusion h

end

theorem InOrder.step (hpos : ∀ e ∈ announced, 0 < e.clock) (h : x.InOrder ownerNodeId roomId)
    (hstamped : Stamped announced x act) (hok : Ordered x act) (hstep : Step sha256Hex x act x') :
    x'.InOrder ownerNodeId roomId := by
  cases hstep with
  | @deliver e hidle hfolder hfrom hfresh =>
    refine h.deliver hfrom hfresh (fun hk => hpos e (hstamped e rfl ?_ hk)) hok
    exact of_decide_eq_true (Bool.and_eq_true_iff.1 hfrom).1
  | clock hf => exact h.clock hf
  | dispatch ha => exact h.dispatch ha
  | start hidle hstatus =>
    refine h.keep .retry (.waiting x.entry none) rfl rfl rfl rfl rfl rfl (Task.nothing rfl) (fun _ _ h => Task.noConfusion h) (fun s granted heq => ?_)
    obtain ⟨rfl, -⟩ := Task.waiting.inj heq
    exact h.entry
  | granted hw hkey hgranted hkind hsender hcid =>
    obtain ⟨howner, -, -⟩ := h.waiting _ _ hw
    exact h.take ⟨hsender.trans howner, hok.1.trans h.entry.2.1⟩ hok.2.1 hok.2.2
  | @grantedAlone snapshot e folderKey hw hkey hgranted hkind hsender hcid =>
    refine h.keep .retry (.waiting snapshot (some folderKey)) rfl rfl rfl rfl rfl rfl (Task.nothing rfl) (fun _ _ h => Task.noConfusion h) (fun s granted heq => ?_)
    obtain ⟨rfl, -⟩ := Task.waiting.inj heq
    exact h.waiting _ _ hw
  | stateGranted hw hkind hfolder hcid | state hw hkey hkind hfolder hcid =>
    exact h.take ⟨hok.1.1.trans h.entry.1, hok.1.2.trans h.entry.2.1⟩ hok.2.1 hok.2.2
  | fallback hw hkey hcid hannounced =>
    obtain ⟨hclock, hfits⟩ := hok _ _ _ hw hannounced
    exact h.take ((h.waiting _ _ hw).2.2 _ hannounced) hclock hfits
  | @giveUp who hcan => exact h.drop who .failing (.inr rfl) rfl rfl rfl rfl rfl rfl
  | @fail who hf => exact h.drop who .idle (.inl rfl) rfl rfl rfl rfl rfl rfl
  | fetched hjob | item hjob | remove hjob | upsertFetch hjob hrel hcid hdata hsum | upsertRemove hjob
  | deleteRemove hjob => exact h.work hjob rfl rfl rfl
  | record hjob => exact h.apply hjob rfl rfl rfl rfl (.inr rfl) rfl
  | @upsertWrite announcement file rel data path io hjob hpath =>
    cases hstored : (x.disk.store io path data).2 with
    | true => exact h.work hjob (by dsimp only [setTask]; rw [hstored]; rfl) rfl rfl
    | false => exact h.drop .handler .failing (.inr rfl) (by dsimp only [setTask]; rw [hstored]; rfl) rfl rfl rfl rfl rfl
  | upsertRecord hjob | deleteRecord hjob => exact h.apply hjob rfl rfl rfl rfl (.inl rfl) rfl

theorem inOrder_initial (folderId ownerNodeId roomId : String) (disk : Disk) :
    (initial folderId ownerNodeId roomId disk).InOrder ownerNodeId roomId where
  never := ⟨fun _ he => absurd he not_mem_nil, .nil⟩
  handled _ he := absurd he not_mem_nil
  entry := ⟨rfl, rfl, fun _ he => absurd he.symm (some_ne_none _)⟩
  waiting _ _ h := Task.noConfusion h
  inHand _ _ he := absurd he.symm (some_ne_none _)
  found _ _ h _ := Task.noConfusion h
  accepted _ he _ := absurd he.symm (some_ne_none _)
  same _ _ he _ := absurd he.symm (some_ne_none _)

end Sync

/-- **In an ordered run a synced folder never rolls back.** -/
theorem never_rolls_back (sha256Hex : Bytes → String) (folderId ownerNodeId roomId : String) (disk : Disk)
    (announced : List Envelope) (hpos : ∀ e ∈ announced, 0 < e.clock) (x : Sync)
    (h : Reach sha256Hex (Sync.initial folderId ownerNodeId roomId disk) (fun y act => Stamped announced y act ∧ Ordered y act)
      x) : x.NeverRollsBack ownerNodeId roomId := by
  have horder : x.InOrder ownerNodeId roomId := by
    induction h with
    | refl => exact Sync.inOrder_initial folderId ownerNodeId roomId disk
    | tail _ hok hstep ih => exact ih.step hpos hok.1 hok.2 hstep
  exact horder.never

/-! ## A granted folder, a replay and a forgery -/

theorem stamped_of_none (hnone : act.envelope = none) : Stamped announced x act := by
  intro e he
  rw [hnone] at he
  cases he

theorem stamped_grant : Stamped announced x (.grant sampleGrant "key") := by
  intro e he _ hk
  cases he
  exact absurd hk (by decide)

theorem stamped_state {envelope : Envelope} (hmem : envelope ∈ announced) :
    Stamped announced x (.state envelope) ∧ Stamped announced x (.deliver envelope) :=
  ⟨fun _ he _ _ => Option.some.inj he ▸ hmem, fun _ he _ _ => Option.some.inj he ▸ hmem⟩

theorem reach_granted {ok : Sync → Act → Prop} (announcement : Envelope) (hkind : announcement.kind = "folder-state")
    (hfolder : announcement.folderId = some "f") (hcid : announcement.newCid = some "cid-1")
    (hfree : ∀ y act, act.envelope = none → ok y act ∨ act = .fallback)
    (hgrant : ∀ y : Sync, y.entry = sampleStart.entry → y.applied = [] → y.tasks .handler = .idle →
      ok y (.grant sampleGrant "key") ∧ ok y (.state announcement)) :
    ∃ x, Reach sampleSha sampleStart ok x ∧ x.tasks .handler = .idle ∧ x.entry.ownerNodeId = "did:owner" ∧
      x.entry.folderId = "f" ∧ x.entry.roomId = "room" ∧ x.entry.lastClock = 0 ∧ x.entry.lastCid = some "cid-1" ∧
      x.entry.files = [] ∧ x.tasks .retry = .idle ∧ x.applied = [(.retry, announcement)] := by
  have h0 : Reach sampleSha sampleStart ok sampleStart := .refl
  have h1 := h0.tail ((hfree _ .start rfl).resolve_right nofun) (.start rfl (by decide))
  have h2 := h1.tail (hgrant (sampleStart.setTask ..) rfl rfl rfl).1
    (.grantedAlone rfl rfl (show ¬ "key" = "" by decide) rfl rfl rfl)
  have h3 := h2.tail (hgrant ((sampleStart.setTask ..).setTask ..) rfl rfl rfl).2 (.stateGranted rfl hkind hfolder hcid)
  have h4 := h3.tail ((hfree _ (.fetched .retry (sampleBundle [])) rfl).resolve_right nofun) (.fetched rfl)
  have h5 := h4.tail ((hfree _ (.record .retry) rfl).resolve_right nofun) (.record rfl)
  exact ⟨_, h5, rfl, rfl, rfl, rfl, rfl, rfl, rfl, rfl, rfl⟩

theorem reach_granted_state {ok : Sync → Act → Prop} {clock : Int} (hpos : 0 < clock)
    (hfree : ∀ y act, act.envelope = none → ok y act ∨ act = .fallback)
    (h : Reach sampleSha sampleStart ok x) (hidle : x.tasks .handler = .idle) (howner : x.entry.ownerNodeId = "did:owner")
    (hfolder : x.entry.folderId = "f") (hroom : x.entry.roomId = "room") (hclock : x.entry.lastClock = 0)
    (hcid : x.entry.lastCid = some "cid-1") (hfiles : x.entry.files = []) (hdeliver : ok x (.deliver (sampleState "did:owner" clock "cid-2"))) :
    ∃ y, Reach sampleSha sampleStart ok y ∧ y.applied = x.applied ++ [(.handler, sampleState "did:owner" clock "cid-2")] := by
  have hfresh : envelopeClockFresh x.entry (sampleState "did:owner" clock "cid-2") = true := by
    rw [envelopeClockFresh, hclock, Bool.or_eq_true]
    exact .inr (decide_eq_true hpos)
  obtain ⟨z, h1, htask, -, -, -, happlied⟩ := h.announced hidle (by rw [hfolder]; rfl)
    (by rw [envelopeFromOwner, howner, hroom]; rfl) hfresh rfl (show Envelope.newCid _ = some "cid-2" from rfl)
    (by rw [hcid]; decide) hdeliver
    fun y => ⟨(hfree _ .clock rfl).resolve_right nofun, (hfree _ .dispatch rfl).resolve_right nofun⟩
  rw [fullResync, hfiles] at htask
  have h2 := h1.tail ((hfree _ (.fetched .handler (sampleBundle [])) rfl).resolve_right nofun) (.fetched htask)
  have h3 := h2.tail ((hfree _ (.record .handler) rfl).resolve_right nofun) (.record rfl)
  exact ⟨_, h3, congrArg (· ++ _) happlied⟩

/-- The owner's state of the handshake, and the next. -/
abbrev sampleStates (first second : Int) : List Envelope :=
  [sampleState "did:owner" first "cid-1", sampleState "did:owner" second "cid-2"]

theorem never_rolls_back_granted : ∃ x, Reach sampleSha sampleStart
      (fun y act => Stamped (sampleStates 5 7) y act ∧ Ordered y act) x ∧
    x.applied.length = 2 ∧ x.NeverRollsBack "did:owner" "room" := by
  have hfree : ∀ y act, act.envelope = none → (Stamped (sampleStates 5 7) y act ∧ Ordered y act) ∨ act = .fallback := by
    intro y act hnone
    cases act <;> first | exact .inr rfl | exact .inl ⟨stamped_of_none hnone, trivial⟩ | cases hnone
  obtain ⟨x, hx, hidle, howner, hfolder, hroom, hclock, hcid, hfiles, hretry, happlied⟩ :=
    reach_granted (sampleState "did:owner" 5 "cid-1") rfl rfl rfl hfree fun y hentry hnone hidle => by
      have hfits : ∀ envelope, y.Fits envelope .handler := by
        refine fun envelope => ⟨fun e he => ?_, fun e he => ?_⟩
        · rw [hidle] at he
          cases he
        · rw [hnone] at he
          cases he
      have hzero : y.entry.lastClock = 0 := by rw [hentry]; rfl
      refine ⟨⟨stamped_grant, ?_, hzero.le, hfits _⟩, (stamped_state (mem_cons_self ..)).1, ⟨?_, ?_⟩, ?_, hfits _⟩
      · rw [hentry]; rfl
      · rw [hentry]; rfl
      · rw [hentry]; rfl
      · rw [hzero]; decide
  have hdeliver : Ordered x (.deliver (sampleState "did:owner" 7 "cid-2")) := fun _ => by
    refine ⟨fun e he => ?_, fun e he => ?_⟩
    · rw [hretry] at he
      cases he
    · rw [happlied, mem_singleton] at he
      obtain ⟨-, rfl⟩ := Prod.mk.inj he
      decide
  obtain ⟨y, hy, hlist⟩ := reach_granted_state (by decide) hfree hx hidle howner hfolder hroom hclock hcid hfiles
    ⟨(stamped_state (mem_cons_of_mem _ (mem_singleton_self _))).2, hdeliver⟩
  refine ⟨y, hy, by rw [hlist, happlied]; rfl, ?_⟩
  exact never_rolls_back sampleSha "f" "did:owner" "room" ∅ (sampleStates 5 7) (by decide) y hy

/-- A state that another room member forged ends the handshake; and a replay of the owner's older state after the handshake
rolls the folder back. -/
theorem rolls_back : (¬ ∀ announced : List Envelope, announced.Pairwise (·.clock < ·.clock) → (∀ e ∈ announced, 0 < e.clock) → ∀ x,
      Reach sampleSha sampleStart (Stamped announced) x → ∀ e ∈ x.applied, e.2.By "did:owner" "room") ∧
    ¬ ∀ announced : List Envelope, announced.Pairwise (·.clock < ·.clock) → (∀ e ∈ announced, 0 < e.clock) → ∀ x,
      Reach sampleSha sampleStart (Stamped announced) x → (x.applied.map fun e => e.2.clock).Pairwise (· ≤ ·) := by
  refine ⟨fun hall => ?_, fun hall => ?_⟩
  · have hforged : ∀ y : Sync, y.entry.ownerNodeId = "did:owner" → Stamped [] y (.state (sampleState "did:mallory" 9 "cid-1")) := by
      intro y hy e he hsender
      cases he
      rw [hy] at hsender
      exact absurd hsender (by decide)
    obtain ⟨x, hx, -, -, -, -, -, -, -, -, happlied⟩ := @reach_granted (Stamped []) (sampleState "did:mallory" 9 "cid-1") rfl rfl rfl
        (fun _ _ hnone => .inl (stamped_of_none hnone)) fun y hentry _ _ => ⟨stamped_grant, hforged y (by rw [hentry]; rfl)⟩
    have hby := hall [] .nil nofun x hx (.retry, sampleState "did:mallory" 9 "cid-1")
      (by rw [happlied]; exact mem_singleton_self _)
    exact absurd hby.1 (by decide)
  · let announced := [sampleState "did:owner" 3 "cid-2", sampleState "did:owner" 5 "cid-1"]
    have hfree : ∀ y act, act.envelope = none → Stamped announced y act ∨ act = .fallback :=
      fun _ _ hnone => .inl (stamped_of_none hnone)
    obtain ⟨x, hx, hidle, howner, hfolder, hroom, hclock, hcid, hfiles, -, happlied⟩ :=
      reach_granted (sampleState "did:owner" 5 "cid-1") rfl rfl rfl hfree fun y _ _ _ =>
        ⟨stamped_grant, (stamped_state (mem_cons_of_mem _ (mem_singleton_self _))).1⟩
    obtain ⟨y, hy, hlist⟩ := reach_granted_state (by decide) hfree hx hidle howner hfolder hroom hclock hcid hfiles
      (stamped_state (mem_cons_self ..)).2
    have horder := hall announced (by decide) (by decide) y hy
    rw [hlist, happlied] at horder
    exact absurd horder (by decide)

end Mistl.Folder
