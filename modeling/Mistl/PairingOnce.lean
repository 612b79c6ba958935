import Mistl.Pairing
/-!
# PairingOnce — one delegation for a pairing code

What holds of overlapping requests, cancellations and timeouts where no request goes on past a session that is not its own,
and what happens where one does.
-/
open List

namespace Mistl.Pairing

section Orderly
variable {C : Crates} {K : Keys} {x x' : Pairings} {act : Act} {id : Nat} {call : Call} {env : Env}

/-! ## Every code is installed in its room -/

/-- Where codes and rooms are in a state, there is the room of a code that was installed. -/
structure Pairings.Roomed (C : Crates) (x : Pairings) : Prop where
  calls : ∀ id, x.next ≤ id → x.calls.get id = none
  session : ∀ s, x.session = some s → s.room = roomId C s.code ∧ .installed s.code ∈ x.log
  carried : ∀ id call p, x.calls.get id = some call → call.carried = some p → p.1 = roomId C p.2.code ∧ .installed p.2.code ∈ x.log
  events : ∀ e ∈ x.log, ∀ code, e.broadcastCode = some code ∨ e.closedCode = some code → .installed code ∈ x.log

theorem empty_roomed : Pairings.empty.Roomed C :=
  ⟨fun _ _ => rfl, fun _ h => (by cases h), fun _ _ _ h => (by cases h), fun _ h => (by cases h)⟩

theorem Pairings.Roomed.id_lt (h : x.Roomed C) (hcall : x.calls.get id = some call) : id < x.next := by
  by_contra hle
  rw [h.calls id (Nat.le_of_not_lt hle)] at hcall
  cases hcall

theorem Pairings.Roomed.turn (h : x.Roomed C) (hcall : x.calls.get id = some call) :
    (x.turned id (call.turn C K env x.session)).Roomed C := by
  have hid := h.id_lt hcall
  have hevents := @turn_events C K call env x.session
  have hmono : ∀ {e : Event}, e ∈ x.log → e ∈ (x.turned id (call.turn C K env x.session)).log := by
    intro e he
    rw [turned_log]
    exact mem_append_left _ he
  refine ⟨fun k hk => ?_, fun s hs => ?_, fun k call' p hcall' hp => ?_, fun e he code hcode => ?_⟩
  · have hnext := @turned_next x id (call.turn C K env x.session)
    rw [turned_get]
    by_cases hspawned : k = x.next ∧ (call.turn C K env x.session).spawned.isSome
    · have hlt : (x.turned id (call.turn C K env x.session)).next = x.next + 1 := by
        unfold Pairings.turned
        obtain ⟨call', hcall'⟩ := Option.isSome_iff_exists.1 hspawned.2
        rw [hcall']
        rfl
      omega
    · rw [if_neg hspawned, if_neg (by omega)]
      exact h.calls k (by omega)
  · rw [turned_session] at hs
    rcases turn_session s hs with hs | ⟨s₀, room, req, d, -, hs₀, -, rfl⟩ | ⟨s₀, room, -, hs₀, -, -, rfl⟩ |
        ⟨ttl, timeout, rfl, hjoined, hcode, hroom⟩
    · exact (h.session s hs).imp_right hmono
    · exact (h.session s₀ hs₀).imp_right hmono
    · exact (h.session s₀ hs₀).imp_right hmono
    · refine ⟨hroom, ?_⟩
      rw [hcode]
      simp only [Call.turn, hjoined]
      exact mem_append_right _ mem_cons_self
  · rw [turned_get] at hcall'
    split at hcall'
    · rw [(turn_spawned hcall').1] at hp
      cases hp
    · split at hcall'
      · rcases turn_carried hcall' hp with hp | ⟨s, hs, hroom, hcode⟩
        · exact (h.carried id call p hcall hp).imp_right hmono
        · rw [← hroom, hcode]
          exact (h.session s hs).imp_right hmono
      · exact (h.carried k call' p hcall' hp).imp_right hmono
  · rw [turned_log] at he
    rcases mem_append.1 he with he | he
    · exact hmono (h.events e he code hcode)
    · rcases hevents with hnone | ⟨room, req, d, recorded, rfl, -, -, -, hnew, hrecorded⟩ | ⟨s, room, rfl, hs, -, -, hnew⟩ |
          ⟨ttl, timeout, rfl, -, hnew⟩
      · rw [hnone] at he
        cases he
      · rw [hnew] at he
        rcases mem_cons.1 he with rfl | he
        · simp only [Event.broadcastCode, Event.closedCode, Option.some.injEq, reduceCtorEq, or_false] at hcode
          subst hcode
          exact hmono (h.carried id _ (room, req) hcall rfl).2
        · rcases hrecorded with rfl | rfl
          · cases he
          · rw [mem_singleton.1 he] at hcode
            simp [Event.broadcastCode, Event.closedCode] at hcode
      · rw [hnew] at he
        rw [mem_singleton.1 he] at hcode
        simp only [Event.broadcastCode, Event.closedCode, Option.some.injEq, reduceCtorEq, false_or] at hcode
        subst hcode
        exact hmono (h.session s hs).2
      · rw [hnew] at he
        rw [mem_singleton.1 he] at hcode
        simp [Event.broadcastCode, Event.closedCode] at hcode

theorem Pairings.Roomed.step (h : x.Roomed C) (hstep : x.step C K act = some x') : x'.Roomed C := by
  rcases step_cases hstep with rfl | ⟨call, rfl, hcarried, -⟩ | ⟨-, rfl⟩ | ⟨id, env, call, -, hcall, rfl⟩
  · exact h
  · refine ⟨fun k hk => ?_, h.session, fun k call' p hcall' hp => ?_, h.events⟩
    · change x.next + 1 ≤ k at hk
      rw [spawn_get, if_neg (by omega)]
      exact h.calls k (by omega)
    · rw [spawn_get] at hcall'
      split at hcall'
      · cases hcall'
        rw [hcarried] at hp
        cases hp
      · exact h.carried k call' p hcall' hp
  · rcases @cancel_cases x with hsame | ⟨s, hs, -, hcancel⟩
    · rw [hsame]
      exact h
    · rw [hcancel]
      refine ⟨h.calls, fun s' hs' => ?_, fun k call p hcall hp => ?_, fun e he code hcode => ?_⟩
      · cases hs'
        exact (h.session s hs).imp_right (mem_append_left _)
      · exact (h.carried k call p hcall hp).imp_right (mem_append_left _)
      · rcases mem_append.1 he with he | he
        · exact mem_append_left _ (h.events e he code hcode)
        · rw [mem_singleton.1 he] at hcode
          simp only [Event.broadcastCode, Event.closedCode, Option.some.injEq, reduceCtorEq, false_or] at hcode
          subst hcode
          exact mem_append_left _ (h.session s hs).2
  · exact h.turn hcall

/-! ## Orderly steps -/

theorem turn_waiting {code : String} (horderly : x.orderly C (.turn id env) = true) (hcall : x.calls.get id = some call)
    (hinstalled : .installed code ∈ x.log) {s : Session} (hs : (call.turn C K env x.session).session = some s)
    (hroom : s.room = roomId C code) (hwaits : s.status = .waiting) : x.session = some s := by
  rcases turn_session s hs with hs | ⟨s₀, room, req, d, -, -, -, rfl⟩ | ⟨s₀, room, -, -, -, -, rfl⟩ |
      ⟨ttl, timeout, rfl, hjoined, hcode, hroom'⟩
  · exact hs
  · cases hwaits
  · cases hwaits
  · simp only [Pairings.orderly, hcall, hjoined] at horderly
    have hne := of_decide_eq_true (List.all_eq_true.1 horderly _ hinstalled)
    exact absurd (hroom.symm.trans (hroom'.trans (by rw [hcode]))) hne

theorem status_stays (h : x.Roomed C) (horderly : x.orderly C act = true) (hstep : x.step C K act = some x') {s : Session}
    (hs : x.session = some s) (hstatus : s.status ≠ .waiting) :
    x'.session = some s ∨ ∃ s', x'.session = some s' ∧ s'.room ≠ s.room := by
  rcases step_cases hstep with rfl | ⟨call, rfl, -, -⟩ | ⟨-, rfl⟩ | ⟨id, env, call, rfl, hcall, rfl⟩
  · exact .inl hs
  · exact .inl hs
  · rcases @cancel_cases x with hsame | ⟨s₀, hs₀, hwaits, -⟩
    · rw [hsame]
      exact .inl hs
    · rw [hs] at hs₀
      cases hs₀
      exact absurd hwaits hstatus
  · rw [turned_session]
    cases hs' : (call.turn C K env x.session).session with
    | none =>
      cases call with
      | settle room req d =>
        rw [hs] at hs'
        cases hs'
      | request | identify | send | start | expire =>
        simp only [Call.turn] at hs'
        repeat' split at hs'
        all_goals first | (rw [hs] at hs'; cases hs') | cases hs'
    | some s' =>
      rcases turn_session s' hs' with hsame | ⟨s₀, room, req, d, rfl, hs₀, hroom, rfl⟩ |
          ⟨s₀, room, -, hs₀, -, hwaits, -⟩ | ⟨ttl, timeout, rfl, hjoined, hcode, hroom⟩
      · rw [hs] at hsame
        exact .inl hsame.symm
      · rw [hs] at hs₀
        cases hs₀
        simp only [Pairings.orderly, hcall, hs, Option.all_some, decide_eq_true_eq] at horderly
        exact absurd (horderly hroom) hstatus
      · rw [hs] at hs₀
        cases hs₀
        exact absurd hwaits hstatus
      · obtain ⟨hsroom, hinstalled⟩ := h.session s hs
        simp only [Pairings.orderly, hcall, hjoined] at horderly
        have hne := of_decide_eq_true (List.all_eq_true.1 horderly _ hinstalled)
        exact .inr ⟨s', rfl, by rw [hroom, hcode, hsroom]; exact hne.symm⟩

/-- What was broadcast and closed so far, and what is left of it in the session and the calls. -/
structure Pairings.Spent (C : Crates) (x : Pairings) : Prop where
  /-- A code that a delegation was broadcast for is not waiting any more, or a call is about to write so. -/
  broadcast : ∀ e ∈ x.log, ∀ code, e.broadcastCode = some code →
    (∀ s, x.session = some s → s.room = roomId C code → s.status ≠ .waiting) ∨
      ∃ id call, x.calls.get id = some call ∧ call.settles (roomId C code) = true
  closed : ∀ e ∈ x.log, ∀ code, e.closedCode = some code → ∀ s, x.session = some s → s.room = roomId C code → s.status ≠ .waiting
  once : (x.log.filterMap Event.broadcastCode).Nodup
  recorded : (x.log.filterMap Event.recordedCode).Sublist (x.log.filterMap Event.broadcastCode)
  silent : x.log.Pairwise fun a b => ∀ code, a.closedCode = some code → b.broadcastCode ≠ some code

theorem empty_spent : Pairings.empty.Spent C := ⟨fun _ h => (by cases h), fun _ h => (by cases h), .nil, .slnil, .nil⟩

theorem Pairings.Spent.quiet (h : x.Spent C) (hroomed : x.Roomed C) (horderly : x.orderly C (.turn id env) = true)
    (hcall : x.calls.get id = some call)
    (hquiet : (call.turn C K env x.session).events.filterMap Event.broadcastCode = [])
    (hrecorded : (call.turn C K env x.session).events.filterMap Event.recordedCode = [])
    (hclosed : ∀ e ∈ (call.turn C K env x.session).events, ∀ code, e.closedCode = some code →
      ∀ s, (call.turn C K env x.session).session = some s → s.room = roomId C code → s.status ≠ .waiting) :
    (x.turned id (call.turn C K env x.session)).Spent C := by
  have hnone : ∀ e ∈ (call.turn C K env x.session).events, e.broadcastCode = none := fun e he => filterMap_eq_nil_iff.1 hquiet e he
  refine ⟨fun e he code hcode => ?_, fun e he code hcode s hs hroom hwaits => ?_, ?_, ?_, ?_⟩
  · rw [turned_log] at he
    rcases mem_append.1 he with he | he
    · have hinstalled := hroomed.events e he code (.inl hcode)
      rcases h.broadcast e he code hcode with hnot | ⟨k, call', hcall', hsettles⟩
      · refine .inl (fun s hs hroom hwaits => ?_)
        rw [turned_session] at hs
        exact hnot s (turn_waiting horderly hcall hinstalled hs hroom hwaits) hroom hwaits
      · by_cases hk : k = id
        · -- the call that settles writes the status
          subst hk
          rw [hcall] at hcall'
          cases hcall'
          refine .inl (fun s hs hroom hwaits => ?_)
          cases call with
          | settle room req d =>
            rw [of_decide_eq_true hsettles] at hs
            obtain ⟨s₀, -, hs⟩ := Option.map_eq_some_iff.1 hs
            split at hs
            · subst hs
              cases hwaits
            · rename_i hne
              subst hs
              exact hne hroom
          | request | identify | send | start | expire => cases hsettles
        · have hlt := hroomed.id_lt hcall'
          refine .inr ⟨k, call', ?_, hsettles⟩
          rw [turned_get, if_neg (fun hnew => Nat.ne_of_lt hlt hnew.1), if_neg hk]
          exact hcall'
    · rw [hnone e he] at hcode
      cases hcode
  · rw [turned_session] at hs
    rw [turned_log] at he
    rcases mem_append.1 he with he | he
    · have hinstalled := hroomed.events e he code (.inr hcode)
      exact h.closed e he code hcode s (turn_waiting horderly hcall hinstalled hs hroom hwaits) hroom hwaits
    · exact hclosed e he code hcode s hs hroom hwaits
  · rw [turned_log, filterMap_append, hquiet, append_nil]
    exact h.once
  · rw [turned_log, filterMap_append, filterMap_append, hquiet, hrecorded, append_nil, append_nil]
    exact h.recorded
  · rw [turned_log]
    refine pairwise_append.2 ⟨h.silent, ?_, fun a ha b hb code _ => by rw [hnone b hb]; nofun⟩
    exact pairwise_of_forall_mem_list fun a _ b hb code _ => by rw [hnone b hb]; nofun

theorem Pairings.Spent.turn (h : x.Spent C) (hroomed : x.Roomed C) (horderly : x.orderly C (.turn id env) = true)
    (hcall : x.calls.get id = some call) : (x.turned id (call.turn C K env x.session)).Spent C := by
  have hid := hroomed.id_lt hcall
  rcases @turn_events C K call env x.session with hnone | ⟨room, req, d, recorded, rfl, hsent, hrest, hsession, hnew, hrecorded⟩ |
      ⟨s₀, room, rfl, hs₀, hroom₀, hsession, hnew⟩ | ⟨ttl, timeout, rfl, -, hnew⟩
  · exact h.quiet hroomed horderly hcall (by rw [hnone]; rfl) (by rw [hnone]; rfl) (fun e he => by
      rw [hnone] at he
      cases he)
  · obtain ⟨hroom, -⟩ := hroomed.carried id _ (room, req) hcall rfl
    simp only [Pairings.orderly, hcall, hsent, Bool.not_true, Bool.false_or, Bool.and_eq_true] at horderly
    obtain ⟨hwaits, halone⟩ := horderly
    obtain ⟨s, hs, hsroom, hstatus⟩ := waitsIn_iff.1 hwaits
    have hfirst : req.code ∉ x.log.filterMap Event.broadcastCode := by
      intro hmem
      obtain ⟨e, he, hcode⟩ := mem_filterMap.1 hmem
      rcases h.broadcast e he _ hcode with hnot | ⟨k, call', hcall', hsettles⟩
      · exact hnot s hs (hsroom.trans hroom) hstatus
      · have hnone := Table.all_eq_true.1 halone _ _ hcall'
        rw [show room = roomId C req.code from hroom, hsettles] at hnone
        cases hnone
    have hbroadcast : (.broadcast req.code (response C K req d).toVec :: recorded : List Event).filterMap
        Event.broadcastCode = [req.code] := by
      rcases hrecorded with rfl | rfl <;> rfl
    refine ⟨fun e he code hcode => ?_, fun e he code hcode s' hs' => ?_, ?_, ?_, ?_⟩
    · by_cases hsame : roomId C code = roomId C req.code
      · refine .inr ⟨id, .settle room req d, ?_, decide_eq_true (hroom.trans hsame.symm)⟩
        rw [turned_get, if_neg (fun hnew => Nat.ne_of_lt hid hnew.1), if_pos rfl, hrest]
      · rw [turned_log, hnew] at he
        rcases mem_append.1 he with he | he
        · rcases h.broadcast e he code hcode with hnot | ⟨k, call', hcall', hsettles⟩
          · refine .inl (fun s' hs' => ?_)
            rw [turned_session, hsession] at hs'
            exact hnot s' hs'
          · refine .inr ⟨k, call', ?_, hsettles⟩
            have hk : k ≠ id := by
              rintro rfl
              rw [hcall] at hcall'
              cases hcall'
              cases hsettles
            rw [turned_get, if_neg (fun hnew => Nat.ne_of_lt (hroomed.id_lt hcall') hnew.1), if_neg hk]
            exact hcall'
        · have hcode' : code ∈ (.broadcast req.code (response C K req d).toVec :: recorded : List Event).filterMap
              Event.broadcastCode := mem_filterMap.2 ⟨e, he, hcode⟩
          rw [hbroadcast] at hcode'
          exact absurd (by rw [mem_singleton.1 hcode']) hsame
    · rw [turned_session, hsession] at hs'
      rw [turned_log, hnew] at he
      rcases mem_append.1 he with he | he
      · exact h.closed e he code hcode s' hs'
      · rcases mem_cons.1 he with rfl | he
        · cases hcode
        · rcases hrecorded with rfl | rfl
          · cases he
          · rw [mem_singleton.1 he] at hcode
            cases hcode
    · rw [turned_log, hnew, filterMap_append, hbroadcast]
      exact nodup_append.2 ⟨h.once, nodup_singleton _, fun a ha b hb => by
        rintro rfl
        rw [mem_singleton.1 hb] at ha
        exact hfirst ha⟩
    · rw [turned_log, hnew, filterMap_append, filterMap_append]
      refine h.recorded.append ?_
      rcases hrecorded with rfl | rfl
      · exact nil_sublist _
      · exact Sublist.refl _
    · rw [turned_log, hnew]
      refine pairwise_append.2 ⟨h.silent, ?_, fun a ha b hb code hcode hcode' => ?_⟩
      · rcases hrecorded with rfl | rfl
        · exact pairwise_singleton _ _
        · exact pairwise_pair.2 (fun _ h => by cases h)
      · have hmem : code ∈ (.broadcast req.code (response C K req d).toVec :: recorded : List Event).filterMap
            Event.broadcastCode := mem_filterMap.2 ⟨b, hb, hcode'⟩
        rw [hbroadcast] at hmem
        rw [mem_singleton.1 hmem] at hcode
        exact h.closed a ha _ hcode s hs (hsroom.trans hroom) hstatus
  · refine h.quiet hroomed horderly hcall (by rw [hnew]; rfl) (by rw [hnew]; rfl) (fun e he code hcode s hs hroom hwaits => ?_)
    rw [hsession] at hs
    cases hs
    cases hwaits
  · refine h.quiet hroomed horderly hcall (by rw [hnew]; rfl) (by rw [hnew]; rfl) (fun e he code hcode => ?_)
    rw [hnew] at he
    rw [mem_singleton.1 he] at hcode
    cases hcode

theorem Pairings.Spent.step (h : x.Spent C) (hroomed : x.Roomed C) (horderly : x.orderly C act = true)
    (hstep : x.step C K act = some x') : x'.Spent C := by
  rcases step_cases hstep with rfl | ⟨call, rfl, hcarried, hsettles⟩ | ⟨-, rfl⟩ | ⟨id, env, call, rfl, hcall, rfl⟩
  · exact h
  · refine ⟨fun e he code hcode => (h.broadcast e he code hcode).imp_right ?_, h.closed, h.once, h.recorded, h.silent⟩
    rintro ⟨k, call', hcall', hsettles'⟩
    refine ⟨k, call', ?_, hsettles'⟩
    rw [spawn_get, if_neg (Nat.ne_of_lt (hroomed.id_lt hcall'))]
    exact hcall'
  · rcases @cancel_cases x with hsame | ⟨s, hs, hwaits, hcancel⟩
    · rw [hsame]
      exact h
    · rw [hcancel]
      refine ⟨fun e he code hcode => .inl (fun s' hs' _ hwaits' => ?_), fun e he code hcode s' hs' _ hwaits' => ?_, ?_, ?_, ?_⟩
      · cases hs'
        cases hwaits'
      · cases hs'
        cases hwaits'
      · rw [filterMap_append, show [Event.cancelled s.code].filterMap Event.broadcastCode = [] from rfl, append_nil]
        exact h.once
      · rw [filterMap_append, filterMap_append, show [Event.cancelled s.code].filterMap Event.broadcastCode = [] from rfl,
          show [Event.cancelled s.code].filterMap Event.recordedCode = [] from rfl, append_nil, append_nil]
        exact h.recorded
      · refine pairwise_append.2 ⟨h.silent, pairwise_singleton _ _, fun a ha b hb code _ => ?_⟩
        rw [mem_singleton.1 hb]
        nofun
  · exact h.turn hroomed horderly hcall

/-- **A pairing code issues at most one delegation**, in every run whose steps are orderly: what is recorded was
broadcast, none is broadcast for a code that was cancelled or expired, and a status that is not waiting stays until
another session. -/
theorem issued_once (C : Crates) (K : Keys) : ∀ acts x, Pairings.run C K acts = some x →
    Runs.along (Pairings.step C K) (Pairings.orderly C) .empty acts = true →
    (x.log.filterMap Event.broadcastCode).Nodup ∧
    (x.log.filterMap Event.recordedCode).Sublist (x.log.filterMap Event.broadcastCode) ∧
    x.log.Pairwise (fun a b => ∀ code, a.closedCode = some code → b.broadcastCode ≠ some code) ∧
    ∀ act x', x.step C K act = some x' → x.orderly C act = true → ∀ s, x.session = some s → s.status ≠ .waiting →
      x'.session = some s ∨ ∃ s', x'.session = some s' ∧ s'.room ≠ s.room := by
  intro acts x hrun halong
  obtain ⟨hroomed, hspent⟩ := @Runs.invariant Pairings Act (Pairings.step C K) (Pairings.orderly C)
    (fun x => x.Roomed C ∧ x.Spent C) (fun x x' act h hok hstep => ⟨h.1.step hstep, h.2.step h.1 hok hstep⟩)
    acts .empty x ⟨empty_roomed, empty_spent⟩ halong hrun
  exact ⟨hspent.once, hspent.recorded, hspent.silent, fun act x' hstep horderly s hs hstatus =>
    status_stays hroomed horderly hstep hs hstatus⟩

end Orderly

/-! ## Two runs -/

def sampleKeys : Keys := ⟨fun _ => List.replicate 32 0, fun _ _ => List.replicate 32 0, fun _ => "2026-07-28T00:00:00.000Z"⟩

def sampleIdentity : Identity := ⟨"did:key:z6MkonMAySXtmMvcMvxJZM1G5tTyPXCvr3zwPjzP98wbfv1H", fun _ => List.replicate 64 0⟩

def sampleEnv : Env := ⟨some sampleIdentity, 0, .replicate codeLen 0, true, true, true⟩

def sampleRoom : String := "tc-did-pair-00000000000000000000000000000000"

def sampleRequest : Json :=
  .obj [("v", .int 1), ("type", .str wireRequest), ("leaf", .str "did:key:z6MkvRXNYcE7MMduynWTgeKbDaT1iijDSC8pZqXZc8rHPrf2"),
    ("nonce", .str "bm9uY2U"), ("mac", .str (String.ofList (List.replicate 43 'A')))]

/-- A request is answered; a second one, that came before, and a third one find the session issued, as a cancel does. -/
def orderlyActs : List Act := [.start (24 * 3600 * 10 ^ 9) (300 * 10 ^ 9), .turn 0 sampleEnv, .receive sampleRoom sampleRequest,
    .receive sampleRoom sampleRequest, .turn 2 sampleEnv, .turn 2 sampleEnv, .turn 2 sampleEnv, .turn 2 sampleEnv,
    .turn 3 sampleEnv, .receive sampleRoom sampleRequest, .cancel]

/-- A second request comes while the first is answered, and the session is cancelled while both are about to be. -/
def overlappingActs : List Act := [.start (24 * 3600 * 10 ^ 9) (300 * 10 ^ 9), .turn 0 sampleEnv, .receive sampleRoom sampleRequest,
    .receive sampleRoom sampleRequest, .turn 2 sampleEnv, .turn 3 sampleEnv, .turn 2 sampleEnv, .turn 3 sampleEnv, .cancel,
    .turn 2 sampleEnv, .turn 3 sampleEnv, .turn 2 sampleEnv]

theorem issued_once_answered : ∃ x, Pairings.run (sampleCrates []) sampleKeys orderlyActs = some x ∧
    x.next = 4 ∧ x.calls.size = 1 ∧ (x.log.filterMap Event.broadcastCode).length = 1 ∧
    (x.log.filterMap Event.broadcastCode).Nodup := by
  have hrun : ∃ x, Pairings.run (sampleCrates []) sampleKeys orderlyActs = some x ∧ x.next = 4 ∧ x.calls.size = 1 ∧
      (x.log.filterMap Event.broadcastCode).length = 1 := by
    refine ⟨_, rfl, ?_⟩
    decide
  obtain ⟨x, hrun, hnext, hcalls, hlength⟩ := hrun
  exact ⟨x, hrun, hnext, hcalls, hlength, (issued_once (sampleCrates []) sampleKeys _ x hrun (by decide)).1⟩

/-- **Two delegations are broadcast for one code**, both after the session was cancelled, and its status is not cancelled at
the end. -/
theorem code_issues_twice : ∃ x earlier later, Pairings.run (sampleCrates []) sampleKeys overlappingActs = some x ∧
    x.log = earlier ++ later ∧ earlier.filterMap Event.closedCode = ["0000000000000000"] ∧
    later.filterMap Event.broadcastCode = ["0000000000000000", "0000000000000000"] ∧
    x.session.any (fun s => decide (s.code = "0000000000000000" ∧ s.status ≠ .cancelled)) = true := by
  refine ⟨_, _, _, rfl, (take_append_drop 2 _).symm, ?_, ?_, ?_⟩
  · decide
  · decide
  · decide

end Mistl.Pairing
