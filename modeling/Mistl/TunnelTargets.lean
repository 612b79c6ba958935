import Mistl.AuthzPersist
/-!
# TunnelTargets — node-scoped targets, what is advertised and who gets a message

`tunnel/forward_args.rs`, `tunnel/rtc/manager.rs`, `tunnel/rtc/event.rs`.  A serve forward advertises its target, also scoped
to this node, and the two spellings match each other.  `Apart`: no two running forwards differ only by this node's scope.
-/
open List

namespace Mistl.Tunnel

/-- `target.rsplit_once('@')` -/
def rsplitAt (target : String) : Option (String × String) :=
  (splitLast '@' target.toList).map (fun p => (String.ofList p.1, String.ofList p.2))

def splitNodeScope (target : String) : String × Option String :=
  match rsplitAt target with
  | some (base, scope) => if scope ≠ "" ∧ base ≠ "" then (base, some scope) else (target, none)
  | none => (target, none)

def nodeScopedTarget (base peerId : String) : String := (splitNodeScope base).1 ++ "@" ++ peerId

/-- `base.split_once(':')` -/
def splitColon (base : String) : Option (String × String) :=
  match base.toList.span (· ≠ ':') with
  | (proto, _ :: port) => some (String.ofList proto, String.ofList port)
  | (_, []) => none

def decimal (digits : String) : Nat := digits.toList.foldl (fun n c => 10 * n + (c.toNat - '0'.toNat)) 0

def isValidRemoteTarget (target : String) : Bool :=
  let split := splitNodeScope target
  decide (target.utf8ByteSize ≤ 300) &&
    split.2.all (fun s => decide (s.utf8ByteSize ≤ 256) && s.toList.all (fun c => !Authz.isWhitespace c)) &&
    (splitColon split.1).any (fun p =>
      (p.1 == "tcp" || p.1 == "udp") && p.2 != "" && decide (p.2.utf8ByteSize ≤ 5) && p.2.toList.all Char.isDigit &&
        decide (1 ≤ decimal p.2 ∧ decimal p.2 ≤ 65535))

structure NodeId where
  text : String
  nonempty : text ≠ ""
  plain : '@' ∉ text.toList

/-! ## Advertisement -/

def advertised (selfId : NodeId) (target : String) : Finset String :=
  if (splitNodeScope target).2 = none then {target, nodeScopedTarget target selfId.text} else {target}

/-- `self_forward_keys`, and the targets of the serve forwards that run. -/
structure Router where
  keys : Finset String
  published : List String

namespace Router

def initial : Router := ⟨∅, []⟩

/-- `publish_tunnel_target`, for a serve forward that is added -/
def publish (selfId : NodeId) (r : Router) (target : String) : Router :=
  let keys := insert target r.keys
  { keys := if (splitNodeScope target).2 = none then insert (nodeScopedTarget target selfId.text) keys else keys
    published := r.published ++ [target] }

/-- `unpublish_tunnel_target`, for a serve forward that is removed -/
def unpublish (selfId : NodeId) (r : Router) (target : String) : Router :=
  let keys := r.keys.erase target
  { keys := if (splitNodeScope target).2 = none then keys.erase (nodeScopedTarget target selfId.text) else keys
    published := r.published.erase target }

end Router

/-! ## Dispatch -/

/-- `tunnel_handler_matches`, for a handler that has a target -/
def tunnelHandlerMatches (target msgTarget : String) (defaultTarget : Option String) (selfId from_ : String) : Bool :=
  msgTarget == target || splitNodeScope msgTarget == (target, some selfId) ||
    splitNodeScope target == (msgTarget, some from_) || (msgTarget == "" && defaultTarget == some target)

/-- The serve forwards whose handlers `handle_payload` hands a message to; what this node sent itself is dropped. -/
def Router.dispatch (selfId : NodeId) (r : Router) (defaultTarget : Option String) (from_ msgTarget : String) : List String :=
  if from_ = selfId.text then []
  else r.published.filter fun target => tunnelHandlerMatches target msgTarget defaultTarget selfId.text from_

/-! ## Runs -/

/-- Serve forwards are added and removed, with distinct targets that name this node or none. -/
inductive Router.Reach (selfId : NodeId) (ok : Router → String → Prop) : Router → Prop where
  | init : Router.Reach selfId ok .initial
  | add {r : Router} {target : String} : Router.Reach selfId ok r → target ≠ "" → target ∉ r.published →
      ((splitNodeScope target).2 = none ∨ (splitNodeScope target).2 = some selfId.text) → ok r target →
      Router.Reach selfId ok (r.publish selfId target)
  | remove {r : Router} {target : String} : Router.Reach selfId ok r → target ∈ r.published →
      Router.Reach selfId ok (r.unpublish selfId target)

/-- **A target is added while no running forward has it with this node's scope more or less.** -/
def Router.Apart (selfId : NodeId) (r : Router) (target : String) : Prop :=
  ∀ other ∈ r.published, splitNodeScope other ≠ (target, some selfId.text) ∧ splitNodeScope target ≠ (other, some selfId.text)

/-- **Every running serve forward is advertised, and no other, and a message goes to one of them at most.** -/
structure Router.Exact (selfId : NodeId) (r : Router) : Prop where
  keys : ∀ key, key ∈ r.keys ↔ ∃ target ∈ r.published, key ∈ advertised selfId target
  dispatch : ∀ defaultTarget from_ msgTarget, (r.dispatch selfId defaultTarget from_ msgTarget).length ≤ 1

/-! ## Scopes -/

theorem rsplitAt_eq_some {target base scope : String} :
    rsplitAt target = some (base, scope) ↔ target = base ++ "@" ++ scope ∧ '@' ∉ scope.toList :=
  splitLast_text (by decide)

theorem splitNodeScope_eq_some {target base scope : String} : splitNodeScope target = (base, some scope) ↔
    target = base ++ "@" ++ scope ∧ '@' ∉ scope.toList ∧ base ≠ "" ∧ scope ≠ "" := by
  unfold splitNodeScope
  cases hsplit : rsplitAt target with
  | none =>
    refine ⟨nofun, fun ⟨h, hscope, _⟩ => ?_⟩
    rw [rsplitAt_eq_some.2 ⟨h, hscope⟩] at hsplit
    cases hsplit
  | some p =>
    obtain ⟨heq, hs⟩ := rsplitAt_eq_some.1 hsplit
    dsimp only
    constructor
    · intro h
      split at h
      · rename_i hne
        cases h
        exact ⟨heq, hs, hne.2, hne.1⟩
      · cases h
    · rintro ⟨h, hscope, hbase, hne⟩
      rw [rsplitAt_eq_some.2 ⟨h, hscope⟩] at hsplit
      cases hsplit
      rw [if_pos ⟨hne, hbase⟩]

theorem splitNodeScope_none {target : String} (h : (splitNodeScope target).2 = none) : splitNodeScope target = (target, none) := by
  unfold splitNodeScope at h ⊢
  split at h
  · split at h
    · cases h
    · rename_i hne
      rw [if_neg hne]
  · rfl

theorem nodeScopedTarget_of_none {target : String} (h : (splitNodeScope target).2 = none) (peerId : String) :
    nodeScopedTarget target peerId = target ++ "@" ++ peerId := by
  rw [nodeScopedTarget, splitNodeScope_none h]

theorem splitNodeScope_scoped (selfId : NodeId) {target : String} (hne : target ≠ "") :
    splitNodeScope (target ++ "@" ++ selfId.text) = (target, some selfId.text) :=
  splitNodeScope_eq_some.2 ⟨rfl, selfId.plain, hne, selfId.nonempty⟩

theorem mem_advertised {selfId : NodeId} {key target : String} : key ∈ advertised selfId target ↔
    key = target ∨ (splitNodeScope target).2 = none ∧ key = target ++ "@" ++ selfId.text := by
  unfold advertised
  split
  · rename_i h
    rw [Finset.mem_insert, Finset.mem_singleton, nodeScopedTarget_of_none h]
    exact ⟨Or.imp_right (⟨h, ·⟩), Or.imp_right And.right⟩
  · rename_i h
    rw [Finset.mem_singleton]
    exact ⟨.inl, fun hk => hk.resolve_right (fun hs => h hs.1)⟩

theorem self_mem_advertised (selfId : NodeId) (target : String) : target ∈ advertised selfId target := mem_advertised.2 (.inl rfl)

theorem append_scope_inj {a b scope : String} (h : a ++ "@" ++ scope = b ++ "@" ++ scope) : a = b := by
  have hlist := congrArg String.toList h
  simp only [String.toList_append, append_assoc] at hlist
  exact String.toList_inj.1 (append_cancel_right hlist)

/-! ## Apart targets -/

/-- What the running forwards of an apart run have in common. -/
structure Router.Local (selfId : NodeId) (r : Router) : Prop where
  keys : ∀ key, key ∈ r.keys ↔ ∃ target ∈ r.published, key ∈ advertised selfId target
  nodup : r.published.Nodup
  nonempty : ∀ target ∈ r.published, target ≠ ""
  scope : ∀ target ∈ r.published, (splitNodeScope target).2 = none ∨ (splitNodeScope target).2 = some selfId.text
  apart : ∀ target ∈ r.published, ∀ other ∈ r.published, splitNodeScope other ≠ (target, some selfId.text)

namespace Router

variable {selfId : NodeId} {r : Router} {target : String}

theorem mem_keys_publish {key : String} : key ∈ (r.publish selfId target).keys ↔ key ∈ advertised selfId target ∨ key ∈ r.keys := by
  unfold publish advertised
  split
  · rw [Finset.mem_insert, Finset.mem_insert, Finset.mem_insert, Finset.mem_singleton]
    exact ⟨fun h => h.elim (fun h => .inl (.inr h)) (Or.imp_left .inl), fun h =>
      h.elim (fun h => h.elim (fun h => .inr (.inl h)) .inl) (fun h => .inr (.inr h))⟩
  · rw [Finset.mem_insert, Finset.mem_singleton]

theorem mem_keys_unpublish {key : String} : key ∈ (r.unpublish selfId target).keys ↔ key ∉ advertised selfId target ∧ key ∈ r.keys := by
  unfold unpublish advertised
  split
  · rw [Finset.mem_erase, Finset.mem_erase, Finset.mem_insert, Finset.mem_singleton, not_or]
    exact ⟨fun h => ⟨⟨h.2.1, h.1⟩, h.2.2⟩, fun h => ⟨h.1.2, h.1.1, h.2⟩⟩
  · rw [Finset.mem_erase, Finset.mem_singleton]

section

variable (h : r.Local selfId)

include h

theorem Local.disjoint {other key : String} (ht : target ∈ r.published) (ho : other ∈ r.published)
    (hne : other ≠ target) (hkey : key ∈ advertised selfId other) : key ∉ advertised selfId target := by
  intro hkey'
  rcases mem_advertised.1 hkey with rfl | ⟨-, rfl⟩
  · rcases mem_advertised.1 hkey' with heq | ⟨-, heq⟩
    · exact hne heq
    · exact h.apart target ht _ ho (by rw [heq]; exact splitNodeScope_scoped selfId (h.nonempty target ht))
  · rcases mem_advertised.1 hkey' with heq | ⟨-, heq⟩
    · exact h.apart other ho target ht (by rw [← heq]; exact splitNodeScope_scoped selfId (h.nonempty other ho))
    · exact hne (append_scope_inj heq)

theorem Local.add (hne : target ≠ "") (hnew : target ∉ r.published)
    (hscope : (splitNodeScope target).2 = none ∨ (splitNodeScope target).2 = some selfId.text)
    (hapart : Apart selfId r target) : (r.publish selfId target).Local selfId := by
  have hmem : ∀ t, t ∈ (r.publish selfId target).published ↔ t ∈ r.published ∨ t = target := fun t => by
    rw [publish, mem_append, mem_singleton]
  refine ⟨fun key => ?_, ?_, fun t ht => ?_, fun t ht => ?_, fun t ht o ho => ?_⟩
  · rw [mem_keys_publish, h.keys]
    constructor
    · rintro (hk | ⟨t, ht, hk⟩)
      · exact ⟨target, (hmem _).2 (.inr rfl), hk⟩
      · exact ⟨t, (hmem _).2 (.inl ht), hk⟩
    · rintro ⟨t, ht, hk⟩
      rcases (hmem t).1 ht with ht | rfl
      · exact .inr ⟨t, ht, hk⟩
      · exact .inl hk
  · exact h.nodup.append (nodup_singleton _) (disjoint_singleton.2 hnew)
  · rcases (hmem t).1 ht with ht | rfl
    · exact h.nonempty t ht
    · exact hne
  · rcases (hmem t).1 ht with ht | rfl
    · exact h.scope t ht
    · exact hscope
  · rcases (hmem t).1 ht with ht' | rfl
    · rcases (hmem o).1 ho with ho' | rfl
      · exact h.apart t ht' o ho'
      · exact (hapart t ht').2
    · rcases (hmem o).1 ho with ho' | rfl
      · exact (hapart o ho').1
      · intro hsplit
        obtain ⟨heq, -⟩ := splitNodeScope_eq_some.1 hsplit
        have hlen := congrArg (fun s => s.toList.length) heq
        simp only [String.toList_append, length_append] at hlen
        have : ("@" : String).toList.length = 1 := rfl
        omega

theorem Local.remove (ht : target ∈ r.published) : (r.unpublish selfId target).Local selfId := by
  have hmem : ∀ t, t ∈ (r.unpublish selfId target).published ↔ t ≠ target ∧ t ∈ r.published := fun t => h.nodup.mem_erase_iff
  refine ⟨fun key => ?_, h.nodup.erase _, fun t ht' => h.nonempty t ((hmem t).1 ht').2,
    fun t ht' => h.scope t ((hmem t).1 ht').2, fun t ht' o ho => h.apart t ((hmem t).1 ht').2 o ((hmem o).1 ho).2⟩
  rw [mem_keys_unpublish, h.keys]
  constructor
  · rintro ⟨hnot, t, ht', hk⟩
    refine ⟨t, (hmem t).2 ⟨fun he => hnot (he ▸ hk), ht'⟩, hk⟩
  · rintro ⟨t, ht', hk⟩
    obtain ⟨hne, ht'⟩ := (hmem t).1 ht'
    exact ⟨h.disjoint ht ht' hne hk, t, ht', hk⟩

theorem Local.match_unique {a b from_ msgTarget : String} {defaultTarget : Option String}
    (hfrom : from_ ≠ selfId.text) (ha : a ∈ r.published) (hb : b ∈ r.published)
    (hma : tunnelHandlerMatches a msgTarget defaultTarget selfId.text from_ = true)
    (hmb : tunnelHandlerMatches b msgTarget defaultTarget selfId.text from_ = true) : a = b := by
  have hcases : ∀ t ∈ r.published, tunnelHandlerMatches t msgTarget defaultTarget selfId.text from_ = true →
      (msgTarget ≠ "" ∧ (msgTarget = t ∨ splitNodeScope msgTarget = (t, some selfId.text))) ∨
        msgTarget = "" ∧ defaultTarget = some t := by
    intro t ht hm
    simp only [tunnelHandlerMatches, Bool.or_eq_true, Bool.and_eq_true, beq_iff_eq] at hm
    rcases hm with ((rfl | hm) | hm) | hm
    · exact .inl ⟨h.nonempty _ ht, .inl rfl⟩
    · refine .inl ⟨?_, .inr hm⟩
      rintro rfl
      revert hm
      nofun
    · rcases h.scope t ht with hscope | hscope
      · rw [hm] at hscope
        cases hscope
      · rw [hm] at hscope
        exact absurd (Option.some.inj hscope) hfrom
    · exact .inr hm
  rcases hcases a ha hma with ⟨hne, rfl | hsa⟩ | ⟨hempty, hda⟩
  · rcases hcases b hb hmb with ⟨-, rfl | hsb⟩ | ⟨hempty, -⟩
    · rfl
    · exact absurd hsb (h.apart b hb _ ha)
    · exact absurd hempty hne
  · rcases hcases b hb hmb with ⟨-, rfl | hsb⟩ | ⟨hempty, -⟩
    · exact absurd hsa (h.apart a ha _ hb)
    · rw [hsa] at hsb
      exact (Prod.mk.inj hsb).1
    · exact absurd hempty hne
  · rcases hcases b hb hmb with ⟨hne, -⟩ | ⟨-, hdb⟩
    · exact absurd hempty hne
    · exact Option.some.inj (hda.symm.trans hdb)

theorem Local.dispatch_le (defaultTarget : Option String) (from_ msgTarget : String) :
    (r.dispatch selfId defaultTarget from_ msgTarget).length ≤ 1 := by
  unfold Router.dispatch
  split
  · exact Nat.zero_le _
  · rename_i hfrom
    cases hl : r.published.filter (fun t => tunnelHandlerMatches t msgTarget defaultTarget selfId.text from_) with
    | nil => exact Nat.zero_le _
    | cons a rest =>
      cases rest with
      | nil => exact le_rfl
      | cons b rest =>
        have hmem : ∀ t ∈ a :: b :: rest, t ∈ r.published ∧
            tunnelHandlerMatches t msgTarget defaultTarget selfId.text from_ = true := fun t ht => by
          rw [← hl, mem_filter] at ht
          exact ht
        have hnodup : (a :: b :: rest).Nodup := hl ▸ h.nodup.filter _
        have ha := hmem a mem_cons_self
        have hb := hmem b (mem_cons_of_mem _ mem_cons_self)
        exact absurd (h.match_unique hfrom ha.1 hb.1 ha.2 hb.2) (ne_of_not_mem_cons (nodup_cons.1 hnodup).1)

end

end Router

/-- **Advertisement and dispatch are exact** in every run that keeps the two spellings of a target apart. -/
theorem advertised_exactly (selfId : NodeId) (r : Router) (h : Router.Reach selfId (Router.Apart selfId) r) : r.Exact selfId := by
  have hlocal : r.Local selfId := by
    induction h with
    | init => exact ⟨fun _ => ⟨nofun, nofun⟩, nodup_nil, nofun, nofun, nofun⟩
    | add _ hne hnew hscope hok ih => exact ih.add hne hnew hscope hok
    | remove _ ht ih => exact ih.remove ht
  exact ⟨hlocal.keys, hlocal.dispatch_le⟩

/-! ## Runs -/

def alice : NodeId := ⟨"64e12049417a4f7a", by decide, by decide⟩

theorem advertised_exactly_alice : Router.Exact alice
    ⟨{"tcp:80", "tcp:80@64e12049417a4f7a", "tcp:22@64e12049417a4f7a"}, ["tcp:80", "tcp:22@64e12049417a4f7a"]⟩ := by
  have h1 : Router.Reach alice (Router.Apart alice) (Router.initial.publish alice "tcp:80") :=
    .add .init (by decide) nofun (by decide) nofun
  have h2 : Router.Reach alice (Router.Apart alice)
      ((Router.initial.publish alice "tcp:80").publish alice "tcp:22@64e12049417a4f7a") := by
    refine .add h1 (by decide) (by decide) (by decide) (fun other ho => ?_)
    rw [mem_singleton.1 ho]
    decide
  have hrun := advertised_exactly alice _ h2
  have heq : (Router.initial.publish alice "tcp:80").publish alice "tcp:22@64e12049417a4f7a" =
      ⟨{"tcp:80", "tcp:80@64e12049417a4f7a", "tcp:22@64e12049417a4f7a"}, ["tcp:80", "tcp:22@64e12049417a4f7a"]⟩ :=
    congrArg₂ Router.mk (by decide) rfl
  rw [heq] at hrun
  exact hrun

/-- A target in both spellings, of which the plain one is removed: the other runs on and is advertised no more. -/
theorem unadvertised : ¬ ∀ (selfId : NodeId) (r : Router), Router.Reach selfId (fun _ _ => True) r → r.Exact selfId := by
  intro h
  have h1 : Router.Reach alice (fun _ _ => True) (Router.initial.publish alice "tcp:80") :=
    .add .init (by decide) nofun (by decide) trivial
  have h2 : Router.Reach alice (fun _ _ => True)
      ((Router.initial.publish alice "tcp:80").publish alice "tcp:80@64e12049417a4f7a") :=
    .add h1 (by decide) (by decide) (by decide) trivial
  have heq : ((Router.initial.publish alice "tcp:80").publish alice "tcp:80@64e12049417a4f7a").unpublish alice "tcp:80" =
      ⟨∅, ["tcp:80@64e12049417a4f7a"]⟩ := congrArg₂ Router.mk (by decide) (by decide)
  have h3 : Router.Reach alice (fun _ _ => True) ⟨∅, ["tcp:80@64e12049417a4f7a"]⟩ := heq ▸ .remove h2 (by decide)
  have hkeys := (h alice _ h3).keys
  obtain ⟨target, htarget⟩ : ∃ target, target = "tcp:80@64e12049417a4f7a" := ⟨_, rfl⟩
  rw [← htarget] at hkeys
  exact Finset.notMem_empty _ ((hkeys target).2 ⟨target, mem_singleton_self _, self_mem_advertised alice target⟩)

end Mistl.Tunnel
