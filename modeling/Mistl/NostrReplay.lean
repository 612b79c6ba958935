import Mistl.NostrConverge
/-!
# NostrReplay — the store's log, and reopening it

`take_pending`, `Pending::apply` and `Store::open`: what the store records is appended to a log, or the log is replaced by
a snapshot of the stored events, oldest first; opening inserts the log's events again.
-/
open List Mistl.Table Option

namespace Mistl.Nostr

/-! ## Lines of the log -/

namespace Line

def toJson : Line → Json
  | .ev e => .obj [("ev", e.toJson)]
  | .del id => .obj [("del", .str id)]

/-- `write_to`, for one line. -/
def write (line : Line) : List UInt8 := Json.toVec line.toJson ++ [Json.newline]

def ofJson : Json → Option Line
  | .obj [("ev", value)] => (Event.parse value).toOption.map .ev
  | .obj [("del", .str id)] => some (.del id)
  | _ => none

def read (bytes : List UInt8) : Option Line := (Json.fromSlice bytes).bind ofJson

end Line

/-- The lines of a text as `read_until` hands them out, each with its line break. -/
def lines (bytes : List UInt8) : List (List UInt8) := bytes.foldr (fun b rest =>
    if b = Json.newline then [b] :: rest
    else match rest with
      | [] => [[b]]
      | line :: rest => (b :: line) :: rest) []

/-! ## Opening -/

def Store.absorb (now : Nat) (s : Store) : Line → Store
  | .ev ev =>
    if expired ev now then { s with rewrite := true }
    else
      let r := s.insert ev
      if r.2 ≠ .stored ∨ r.1.len ≠ satAdd s.len 1 then { r.1 with rewrite := true } else r.1
  | .del id => { s.remove id with rewrite := true }

/-- One round of the loop of `open`. -/
def openLine (now : Nat) (s : Store) (line : List UInt8) : Store :=
  let s := { s with logLines := satAdd s.logLines 1 }
  let s := if line.getLast? = some Json.newline then s else { s with rewrite := true }
  match Line.read line with
  | some line => s.absorb now line
  | none => { s with rewrite := true }

/-- `Store::open` of a directory, by what its log holds. -/
def openLog (log : Option (List UInt8)) (maxEvents now : Nat) : Store :=
  { (lines (log.getD [])).foldl (openLine now) (Store.fresh maxEvents false) with persistent := true }

/-- `Pending::apply` -/
def applyPending (log : Option (List UInt8)) (rewrite : Bool) (pending : List Line) : Option (List UInt8) :=
  if rewrite = false ∧ pending = [] then log
  else if rewrite then some (pending.flatMap Line.write)
  else some (log.getD [] ++ pending.flatMap Line.write)

/-! ## Runs -/

structure Shelf where
  store : Store
  log : Option (List UInt8)

inductive Op where
  | insert (ev : Event)
  | markAllDirty
  | flush

namespace Shelf

def start (maxEvents now : Nat) : Shelf := ⟨openLog none maxEvents now, none⟩

def step (shelf : Shelf) : Op → Shelf
  | .insert ev => { shelf with store := (shelf.store.insert ev).1 }
  | .markAllDirty => { shelf with store := shelf.store.markAllDirty }
  | .flush =>
    let p := shelf.store.takePending
    ⟨p.1, applyPending shelf.log p.2.1 p.2.2⟩

def run (shelf : Shelf) (ops : List Op) : Shelf := ops.foldl step shelf

end Shelf

/-- No table of deletions drops an entry for what a new deletion request adds to it. -/
def Store.HasRoom (s : Store) (ev : Event) : Prop := s.contains ev.id = false → ev.kind = 5 →
    (s.deletedIds.values.keys ∪ (ev.names.map (fun id => (id, ev.pubkey))).toFinset).card ≤ s.maxEvents ∧
    (s.deletedAddresses.values.keys ∪ ev.targets.toFinset).card ≤ s.maxEvents

instance (s : Store) (ev : Event) : Decidable (s.HasRoom ev) := by
  unfold Store.HasRoom
  infer_instance

def Shelf.Roomy : Shelf → List Op → Prop
  | _, [] => True
  | shelf, .insert ev :: ops => shelf.store.HasRoom ev ∧ Roomy (shelf.step (.insert ev)) ops
  | shelf, op :: ops => Roomy (shelf.step op) ops

/-- The events inserted have the shape `Event::parse` gives them. -/
def Op.Shaped : Op → Prop
  | .insert ev => ev.Shaped
  | _ => True

/-! ## Reading the log back -/

def Line.Shaped : Line → Prop
  | .ev e => e.Shaped
  | .del _ => True

theorem Line.integral {line : Line} (h : line.Shaped) : Json.Integral line.toJson := by
  cases line with
  | ev e => exact ⟨Event.Shaped.integral h, trivial⟩
  | del id => exact ⟨trivial, trivial⟩

theorem Line.nesting (line : Line) : Json.nesting line.toJson < Json.maxDepth := by
  cases line with
  | ev e =>
    have := Event.nesting_toJson e
    simp only [toJson, Json.nesting, Json.nestingFields, Json.maxDepth]
    omega
  | del id =>
    simp only [toJson, Json.nesting, Json.nestingFields, Json.maxDepth]
    omega

theorem Line.read_write {line : Line} (h : line.Shaped) : Line.read line.write = some line := by
  rw [read, write, Json.fromSlice_line (integral h) (nesting line)]
  cases line with
  | ev e =>
    show (Event.parse e.toJson).toOption.map Line.ev = _
    rw [Event.Shaped.parse h]
    rfl
  | del id => rfl

theorem lines_cons {text : List UInt8} (h : Json.newline ∉ text) (rest : List UInt8) :
    lines (text ++ Json.newline :: rest) = (text ++ [Json.newline]) :: lines rest := by
  induction text with
  | nil => rfl
  | cons b text ih =>
    rw [mem_cons, not_or] at h
    have := ih h.2
    rw [lines] at this ⊢
    rw [cons_append, foldr_cons, this, if_neg (Ne.symm h.1)]
    rfl

theorem lines_write : ∀ {log : List Line}, (∀ line ∈ log, line.Shaped) → lines (log.flatMap Line.write) = log.map Line.write
  | [], _ => rfl
  | line :: log, h => by
    have hline := Json.newline_notMem_toVec (Line.integral (h line mem_cons_self))
    rw [flatMap_cons, Line.write, append_assoc, singleton_append, lines_cons hline,
      lines_write (fun l hl => h l (mem_cons_of_mem _ hl)), map_cons, Line.write]

theorem openLine_write {line : Line} (h : line.Shaped) (now : Nat) (s : Store) :
    openLine now s line.write = ({ s with logLines := satAdd s.logLines 1 } : Store).absorb now line := by
  unfold openLine
  rw [Line.read_write h, show line.write.getLast? = some Json.newline from getLast?_concat]
  rfl

def replay (now : Nat) (s : Store) (log : List Line) : Store :=
  log.foldl (fun s line => ({ s with logLines := satAdd s.logLines 1 } : Store).absorb now line) s

theorem replay_cons (now : Nat) (s : Store) (line : Line) (log : List Line) :
    replay now s (line :: log) = replay now (replay now s [line]) log := rfl

theorem replay_append (now : Nat) (s : Store) (log log' : List Line) :
    replay now s (log ++ log') = replay now (replay now s log) log' := foldl_append

theorem openLines_write {now : Nat} : ∀ {log : List Line} (s : Store), (∀ line ∈ log, line.Shaped) →
    (log.map Line.write).foldl (openLine now) s = replay now s log
  | [], _, _ => rfl
  | line :: log, s, h => by
    rw [map_cons, foldl_cons, openLine_write (h line mem_cons_self), openLines_write _ (fun l hl => h l (mem_cons_of_mem _ hl))]
    rfl

theorem openLog_write {log : List Line} (h : ∀ line ∈ log, line.Shaped) {bytes : Option (List UInt8)}
    (hbytes : bytes.getD [] = log.flatMap Line.write) (maxEvents now : Nat) :
    openLog bytes maxEvents now = { replay now (Store.fresh maxEvents false) log with persistent := true } := by
  rw [openLog, hbytes, lines_write h, openLines_write _ h]

/-! ## What a line does to the store it is replayed onto -/

theorem Store.Same.refl (s : Store) : Store.Same s s := ⟨rfl, rfl, rfl, rfl, rfl, rfl, rfl⟩

theorem Store.Sound.congr {s s' : Store} (h : s.Sound) (hs : Store.Same s s') : s'.Sound := ⟨h.indexed.congr hs, by
    show s'.events.size ≤ s'.maxEvents
    rw [hs.events, hs.maxEvents]
    exact h.len⟩

theorem absorb_ev (e : Event) (now : Nat) (s : Store) : (expired e now = true → Store.Same s (s.absorb now (.ev e))) ∧
    (expired e now = false → Store.Same (s.insert e).1 (s.absorb now (.ev e))) := by
  refine ⟨fun hx => ?_, fun hx => ?_⟩
  · rw [Store.absorb, if_pos hx]
    exact ⟨rfl, rfl, rfl, rfl, rfl, rfl, rfl⟩
  · rw [Store.absorb, if_neg (Bool.not_eq_true _ ▸ hx)]
    simp only
    split <;> exact ⟨rfl, rfl, rfl, rfl, rfl, rfl, rfl⟩

/-! ## A store and its replay -/

/-- A replay has those of some events that have not expired, and no deletions but those of two tables. -/
structure Mirrors (now cap : Nat) (events : Table String Event) (ids : Table (String × String) Unit)
    (addresses : Table Address Nat) (r : Store) : Prop where
  sound : r.Sound
  events : ∀ id e, r.events.get id = some e ↔ events.get id = some e ∧ expired e now = false
  ids : ∀ k, r.deletedIds.values.get k = some () → ids.get k = some ()
  addresses : ∀ a t, r.deletedAddresses.values.get a = some t → ∃ t', addresses.get a = some t' ∧ t ≤ t'
  maxEvents : r.maxEvents = cap

section Mirrors

variable {now cap : Nat} {events : Table String Event} {r : Store} {ids ids' : Table (String × String) Unit}
  {addresses addresses' : Table Address Nat}

section

variable (h : Mirrors now cap events ids addresses r)

include h

theorem Mirrors.congr {r' : Store} (hr : Store.Same r r') : Mirrors now cap events ids addresses r' := by
  obtain ⟨h1, h2, h3, h4, h5⟩ := h
  refine ⟨h1.congr hr, ?_, ?_, ?_, ?_⟩
  · rw [hr.events]; exact h2
  · rw [hr.deletedIds]; exact h3
  · rw [hr.deletedAddresses]; exact h4
  · rw [hr.maxEvents]; exact h5

theorem Mirrors.logLines (n : Nat) :
    Mirrors now cap events ids addresses { r with logLines := n } := h.congr ⟨rfl, rfl, rfl, rfl, rfl, rfl, rfl⟩

theorem Mirrors.remove (id : String) : Mirrors now cap (events.erase id) ids addresses (r.remove id) := by
  have hr := Store.remove_removed r id
  have hget : ∀ x, (r.remove id).events.get x = if x = id then none else r.events.get x := fun x => by
    rw [hr.events, get_erase]
  refine ⟨⟨h.sound.indexed.remove id, ?_⟩, fun x e => ?_, ?_, ?_, ?_⟩
  · rw [hr.maxEvents]
    refine le_trans (size_le_of_keys (fun x e he => ?_)) h.sound.len
    rw [hget] at he
    split at he
    · cases he
    · rw [he]
      exact some_ne_none e
  · rw [hget, get_erase]
    split
    · exact ⟨(fun hx => by cases hx), fun hx => hx.1⟩
    · exact h.events x e
  · rw [hr.deletedIds]; exact h.ids
  · rw [hr.deletedAddresses]; exact h.addresses
  · rw [hr.maxEvents]; exact h.maxEvents

theorem Mirrors.del (id : String) : Mirrors now cap (events.erase id) ids addresses (replay now r [.del id]) :=
  ((h.logLines _).remove id).congr ⟨rfl, rfl, rfl, rfl, rfl, rfl, rfl⟩

end

/-- What an event finds when it is let in, and what the tables have of it afterwards. -/
structure Joins (events : Table String Event) (ids ids' : Table (String × String) Unit)
    (addresses addresses' : Table Address Nat) (ev : Event) : Prop where
  shaped : ev.Shaped
  new : events.get ev.id = none
  lasting : ev.kindClass ≠ .ephemeral
  kept : ev.kind ≠ 5 → ids.get (ev.id, ev.pubkey) = none
  later : ∀ a t, addressOf ev = some a → addresses.get a = some t → t < ev.createdAt
  free : ∀ id e, events.get id = some e → ¬ev.Displaces e
  ids : ∀ k, ids.get k = some () ∨ (ev.kind = 5 ∧ k.1 ∈ ev.names ∧ k.2 = ev.pubkey) → ids'.get k = some ()
  addresses : ∀ a t, addresses.get a = some t ∨ (ev.kind = 5 ∧ a ∈ ev.targets ∧ t = ev.createdAt) →
    ∃ t', addresses'.get a = some t' ∧ t ≤ t'

theorem Mirrors.welcome (h : Mirrors now cap events ids addresses r) {ev : Event}
    (hj : Joins events ids ids' addresses addresses' ev) : r.Welcome ev := by
  refine ⟨?_, hj.lasting, fun hk => ?_, fun a t ha ht => ?_, fun a old ha hold => ?_⟩
  · cases he : r.events.get ev.id with
    | none => rfl
    | some e =>
      have := ((h.events _ _).1 he).1
      rw [hj.new] at this
      cases this
  · cases hid : r.deletedIds.values.get (ev.id, ev.pubkey) with
    | none => rfl
    | some u =>
      have := h.ids _ hid
      rw [hj.kept hk] at this
      cases this
  · obtain ⟨t', ht', hle⟩ := h.addresses a t ht
    exact hle.trans_lt (hj.later a t' ha ht')
  · obtain ⟨hin, hao⟩ := h.sound.indexed.current_eq_some.1 hold
    exact absurd (Or.inl ⟨a, ha, hao⟩) (hj.free _ _ ((h.events _ _).1 hin).1)

theorem Mirrors.grown (h : Mirrors now cap events ids addresses r) {ev : Event} (hx : expired ev now = false)
    (hj : Joins events ids ids' addresses addresses' ev) :
    Store.Grown r ev (r.grown ev) ∧
    (∀ id e, (r.grown ev).events.get id = some e ↔ (events.insert ev.id ev).get id = some e ∧ expired e now = false) ∧
    (∀ k, (r.grown ev).deletedIds.values.get k = some () → ids'.get k = some ()) ∧
    (∀ a t, (r.grown ev).deletedAddresses.values.get a = some t → ∃ t', addresses'.get a = some t' ∧ t ≤ t') := by
  have hg := Store.grown_spec h.sound.indexed (h.welcome hj)
  refine ⟨hg, fun id e => ?_, fun k hk => ?_, fun a t ht => ?_⟩
  · rw [hg.events, h.events, get_insert]
    constructor
    · rintro (⟨rfl, rfl⟩ | ⟨⟨he, hxe⟩, -⟩)
      · rw [if_pos rfl]
        exact ⟨rfl, hx⟩
      · rw [if_neg]
        · exact ⟨he, hxe⟩
        · rintro rfl
          rw [hj.new] at he
          cases he
    · rintro ⟨he, hxe⟩
      split at he
      · rename_i hid
        cases he
        exact Or.inl ⟨hid, rfl⟩
      · exact Or.inr ⟨⟨he, hxe⟩, hj.free _ _ he⟩
  · rw [hg.deletedIds] at hk
    split at hk
    · rename_i hkind
      rcases Store.get_foldl_ids _ hk with hname | hold
      · exact hj.ids k (Or.inr ⟨hkind, hname⟩)
      · exact hj.ids k (Or.inl (h.ids k hold))
    · exact hj.ids k (Or.inl (h.ids k hk))
  · have hold : ∀ t, r.deletedAddresses.values.get a = some t → ∃ t', addresses'.get a = some t' ∧ t ≤ t' := by
      intro t ht
      obtain ⟨t', h1, h2⟩ := h.addresses a t ht
      obtain ⟨t'', h3, h4⟩ := hj.addresses a t' (Or.inl h1)
      exact ⟨t'', h3, h2.trans h4⟩
    rw [hg.deletedAddresses] at ht
    split at ht
    · rename_i hkind
      rcases Store.get_foldl_raise _ ht with ⟨ha, rfl⟩ | ht
      · exact hj.addresses a _ (Or.inr ⟨hkind, ha, rfl⟩)
      · exact hold t ht
    · exact hold t ht

theorem size_le_of_events {m n : Table String Event} {now : Nat}
    (h : ∀ id e, m.get id = some e ↔ n.get id = some e ∧ expired e now = false) : m.size ≤ n.size := by
  refine size_le_of_keys (fun id e he => ?_)
  rw [((h id e).1 he).1]
  exact some_ne_none e

section

variable (h : Mirrors now cap events ids addresses r)

include h

/-- **The line of an event brings it into the replay**, or, where the replay is past its capacity with it, sends the
oldest event away there and then. -/
theorem Mirrors.line {ev : Event} (hj : Joins events ids ids' addresses addresses' ev) :
    Mirrors now cap (events.insert ev.id ev) ids' addresses' (replay now r [.ev ev]) ∨
    (cap < (events.insert ev.id ev).size ∧ ∀ o, (events.insert ev.id ev).size = cap + 1 → (events.insert ev.id ev).get o.id = some o →
      (∀ e, (events.insert ev.id ev).get e.id = some e → timeKey o ≤ timeKey e) →
      Mirrors now cap ((events.insert ev.id ev).erase o.id) ids' addresses' (replay now r [.ev ev])) := by
  obtain ⟨hpast, hin⟩ := absorb_ev ev now { r with logLines := satAdd r.logLines 1 }
  by_cases hx : expired ev now = true
  · suffices hkept : Mirrors now cap (events.insert ev.id ev) ids' addresses' r from
      Or.inl ((hkept.logLines _).congr (hpast hx))
    refine ⟨h.sound, fun id e => ?_, fun k hk => hj.ids k (Or.inl (h.ids k hk)), fun a t ht => ?_, h.maxEvents⟩
    · rw [h.events, get_insert]
      split
      · rename_i hid
        rw [hid, hj.new]
        refine ⟨(fun he => by cases he.1), fun he => ?_⟩
        obtain ⟨heq, hxe⟩ := he
        cases heq
        rw [hx] at hxe
        cases hxe
      · exact Iff.rfl
    · obtain ⟨t', h1, h2⟩ := h.addresses a t ht
      obtain ⟨t'', h3, h4⟩ := hj.addresses a t' (Or.inl h1)
      exact ⟨t'', h3, h2.trans h4⟩
  rw [Bool.not_eq_true] at hx
  have hr := h.logLines (satAdd r.logLines 1)
  have hsame : Store.Same _ (replay now r [.ev ev]) := hin hx
  generalize ({ r with logLines := satAdd r.logLines 1 } : Store) = r₁ at hr hsame
  obtain ⟨hg, hevents, hids, haddrs⟩ := hr.grown hx hj
  rcases Store.insert_cases hr.sound.indexed hr.sound.len ev with ⟨hn, -⟩ | ⟨-, -, ⟨hle, he⟩ | ⟨hlen, o', hhead, ho', he⟩⟩
  · exact absurd (hr.welcome hj) hn
  · rw [he] at hsame
    refine Or.inl (Mirrors.congr ⟨⟨hg.indexed, ?_⟩, hevents, hids, haddrs, hg.maxEvents.trans hr.maxEvents⟩ hsame)
    rw [hg.maxEvents]
    exact hle
  · rw [he] at hsame
    have hsize := size_le_of_events hevents
    have hover : cap < (events.insert ev.id ev).size := by
      have : (r₁.grown ev).events.size = r₁.maxEvents + 1 := hlen
      rw [hr.maxEvents] at this
      omega
    refine Or.inr ⟨hover, fun o hfull ho hmin => Mirrors.congr ?_ hsame⟩
    -- nothing is missing from the replay, so its oldest event is the store's
    have hkeys : (r₁.grown ev).events.keys = (events.insert ev.id ev).keys := by
      refine Finset.eq_of_subset_of_card_le (fun k hk => ?_) ?_
      · obtain ⟨e, hek⟩ := ne_none_iff_exists'.1 (Table.mem_keys.1 hk)
        rw [Table.mem_keys, ((hevents k e).1 hek).1]
        exact some_ne_none e
      · rw [card_keys, card_keys, hfull]
        have : (r₁.grown ev).events.size = r₁.maxEvents + 1 := hlen
        rw [this, hr.maxEvents]
    have hog : (r₁.grown ev).events.get o.id = some o := by
      have hmem : o.id ∈ (r₁.grown ev).events.keys := by
        rw [hkeys, Table.mem_keys, ho]
        exact some_ne_none o
      obtain ⟨e, hoe⟩ := ne_none_iff_exists'.1 (Table.mem_keys.1 hmem)
      rw [hoe, ← ho, ((hevents _ _).1 hoe).1]
    have hkey : timeKey o' = timeKey o := by
      refine le_antisymm ?_ (hmin o' ((hevents _ _).1 ho').1)
      obtain ⟨l, hl⟩ := head?_eq_some_iff.1 hhead
      have hmem := (hg.indexed.times (timeKey o)).2 ⟨o, hog, rfl⟩
      have hasc := hg.indexed.ascending
      rw [hl] at hmem hasc
      rcases mem_cons.1 hmem with heq | hmem
      · exact heq.symm.le
      · exact ((pairwise_cons.1 hasc).1 _ hmem).le
    have hid : o'.id = o.id := congrArg (fun k => (ofLex k).2) hkey
    rw [hid]
    have hlen' := Store.len_remove hog
    have hrem := Store.remove_removed (r₁.grown ev) o.id
    refine ⟨⟨hg.indexed.remove o.id, ?_⟩, fun x e => ?_, ?_, ?_, ?_⟩
    · rw [hrem.maxEvents, hg.maxEvents]
      omega
    · rw [hrem.events, get_erase, get_erase]
      split
      · exact ⟨(fun hx => by cases hx), fun hx => hx.1⟩
      · exact hevents x e
    · rw [hrem.deletedIds]; exact hids
    · rw [hrem.deletedAddresses]; exact haddrs
    · rw [hrem.maxEvents, hg.maxEvents]; exact hr.maxEvents

theorem Mirrors.ev {ev : Event}
    (hj : Joins events ids ids' addresses addresses' ev) (hsize : (events.insert ev.id ev).size ≤ cap) :
    Mirrors now cap (events.insert ev.id ev) ids' addresses' (replay now r [.ev ev]) := by
  rcases h.line hj with h | ⟨hover, -⟩
  · exact h
  · omega

theorem Mirrors.ev_del {ev : Event}
    (hj : Joins events ids ids' addresses addresses' ev) {o : Event} (hsize : (events.insert ev.id ev).size = cap + 1)
    (ho : (events.insert ev.id ev).get o.id = some o)
    (hmin : ∀ e, (events.insert ev.id ev).get e.id = some e → timeKey o ≤ timeKey e) :
    Mirrors now cap ((events.insert ev.id ev).erase o.id) ids' addresses'
      (replay now (replay now r [.ev ev]) [.del o.id]) := by
  rcases h.line hj with h | ⟨-, h⟩
  · exact h.del o.id
  · have := (h o hsize ho hmin).del o.id
    rwa [erase_of_get_none (get_erase_self _ _)] at this

end

end Mirrors

/-! ## What a store records -/

namespace Store

variable {s : Store}

theorem record_logged (hp : s.persistent = true) {line : Line} (h : (s.record line).rewrite = false) :
    s.rewrite = false ∧ (s.record line).pending = s.pending ++ [line] := by
  unfold record at h ⊢
  rw [if_neg (by rw [hp]; decide)] at h ⊢
  simp only at h ⊢
  split at h
  · unfold markAllDirty at h
    rw [if_pos hp] at h
    cases h
  · rename_i hle
    rw [if_neg hle]
    split at h
    · rename_i hr
      rw [hr] at h
      cases h
    · rename_i hr
      rw [if_neg hr]
      exact ⟨h, rfl⟩

theorem record_pending {line l : Line} (h : l ∈ (s.record line).pending) : l ∈ s.pending ∨ l = line := by
  unfold record at h
  split at h
  · exact Or.inl h
  · simp only at h
    split at h
    · unfold markAllDirty at h
      split at h
      · cases h
      · exact Or.inl h
    · split at h
      · exact Or.inl h
      · exact (mem_append.1 h).imp_right mem_singleton.1

theorem remove_pending {id : String} {l : Line} (h : l ∈ (s.remove id).pending) : l ∈ s.pending ∨ ∃ x, l = .del x := by
  unfold remove at h
  split at h
  · exact Or.inl h
  · rename_i ev _
    cases ha : addressOf ev with
    | none | some a =>
      rw [ha] at h
      exact (record_pending h).imp_right fun h => ⟨_, h⟩

theorem put_pending {ev : Event} {l : Line} (h : l ∈ (s.put ev).pending) : l ∈ s.pending ∨ l = .ev ev := by
  unfold put at h
  cases ha : addressOf ev with
  | none =>
    rw [ha] at h
    exact record_pending (s := { s with byTime := Ordered.place (timeKey ev) s.byTime, events := s.events.insert ev.id ev }) h
  | some a =>
    rw [ha] at h
    exact record_pending (s := { s with byTime := Ordered.place (timeKey ev) s.byTime, addresses := s.addresses.insert a ev.id,
                                        events := s.events.insert ev.id ev }) h

theorem remove_logged (hp : s.persistent = true) (hi : s.Indexed) {id : String} (h : (s.remove id).rewrite = false) :
    s.rewrite = false ∧ (s.remove id).pending = s.pending ++ (if s.contains id then [.del id] else []) := by
  unfold remove at h ⊢
  cases hget : s.events.get id with
  | none =>
    rw [hget] at h
    rw [contains, contains_eq_false.2 hget, if_neg (by decide), append_nil]
    exact ⟨h, rfl⟩
  | some ev =>
    rw [hget] at h
    rw [contains, Table.contains_iff.2 ⟨ev, hget⟩]
    simp only at h ⊢
    have hid := hi.keyed id ev hget
    subst hid
    cases ha : addressOf ev with
    | none =>
      rw [ha] at h
      exact record_logged (s := { s with events := s.events.erase ev.id, byTime := Ordered.discard (timeKey ev) s.byTime }) hp h
    | some a =>
      rw [ha] at h
      exact record_logged (s := { s with events := s.events.erase ev.id, byTime := Ordered.discard (timeKey ev) s.byTime,
                                         addresses := s.addresses.erase a }) hp h

theorem put_logged (hp : s.persistent = true) {ev : Event} (h : (s.put ev).rewrite = false) :
    s.rewrite = false ∧ (s.put ev).pending = s.pending ++ [.ev ev] := by
  unfold put at h ⊢
  cases ha : addressOf ev with
  | none =>
    rw [ha] at h
    exact record_logged (s := { s with byTime := Ordered.place (timeKey ev) s.byTime, events := s.events.insert ev.id ev }) hp h
  | some a =>
    rw [ha] at h
    exact record_logged (s := { s with byTime := Ordered.place (timeKey ev) s.byTime, addresses := s.addresses.insert a ev.id,
                                       events := s.events.insert ev.id ev }) hp h

end Store

/-- While an event makes room for itself: what is left of the store is what the log says, with the deletions of
before. -/
structure Clearing (now cap : Nat) (written : List Line) (ids : Table (String × String) Unit)
    (addresses : Table Address Nat) (s : Store) : Prop where
  indexed : s.Indexed
  persistent : s.persistent = true
  maxEvents : s.maxEvents = cap
  lines : ∀ line ∈ s.pending, line.Shaped
  mirrors : s.rewrite = false → Mirrors now cap s.events ids addresses (replay now (Store.fresh cap false) (written ++ s.pending))

section Clearing

variable {now cap : Nat} {written : List Line} {ids : Table (String × String) Unit} {addresses : Table Address Nat}
  {s : Store}

theorem Clearing.tables (h : Clearing now cap written ids addresses s) (i : Fifo (String × String) Unit)
    (a : Fifo Address Nat) : Clearing now cap written ids addresses { s with deletedIds := i, deletedAddresses := a } :=
  ⟨h.indexed.tables i a, h.persistent, h.maxEvents, h.lines, h.mirrors⟩

theorem remove_lines (h : ∀ line ∈ s.pending, line.Shaped) (id : String) : ∀ line ∈ (s.remove id).pending, line.Shaped := by
  intro line hl
  rcases Store.remove_pending hl with hl | ⟨x, rfl⟩
  · exact h line hl
  · trivial

section

variable (h : Clearing now cap written ids addresses s)

include h

theorem Clearing.remove (id : String) : Clearing now cap written ids addresses (s.remove id) := by
  have hr := Store.remove_removed s id
  refine ⟨h.indexed.remove id, hr.persistent.trans h.persistent, hr.maxEvents.trans h.maxEvents, remove_lines h.lines id, fun hrw => ?_⟩
  obtain ⟨hrw', hpending⟩ := Store.remove_logged h.persistent h.indexed hrw
  rw [hr.events, hpending, ← append_assoc, replay_append]
  split
  · exact (h.mirrors hrw').del id
  · rename_i hnot
    have hnone : s.events.get id = none := contains_eq_false.1 (Bool.not_eq_true _ ▸ hnot)
    rw [erase_of_get_none hnone]
    exact h.mirrors hrw'

theorem Clearing.vacate (ev : Event) : Clearing now cap written ids addresses (s.vacate ev) := by
  unfold Store.vacate
  split
  · exact h
  · exact h.remove _

theorem Clearing.deleteId (ev : Event) (id : String) : Clearing now cap written ids addresses (s.deleteId ev id) := by
  unfold Store.deleteId
  split
  · exact h
  · split
    · exact (h.remove id).tables _ _
    · exact h.tables _ _

theorem Clearing.deleteAddress (ev : Event) (value : String) : Clearing now cap written ids addresses (s.deleteAddress ev value) := by
  unfold Store.deleteAddress
  split
  · exact h
  · split
    · exact h
    · split
      · split
        · exact (h.remove _).tables _ _
        · exact h.tables _ _
      · exact h.tables _ _

end

theorem Clearing.foldl {step : Store → String → Store}
    (hstep : ∀ s value, Clearing now cap written ids addresses s → Clearing now cap written ids addresses (step s value)) :
    ∀ (values : List String) {s : Store}, Clearing now cap written ids addresses s →
      Clearing now cap written ids addresses (values.foldl step s)
  | [], _, h => h
  | value :: values, s, h => Clearing.foldl hstep values (hstep s value h)

theorem Clearing.request (h : Clearing now cap written ids addresses s) (ev : Event) :
    Clearing now cap written ids addresses (s.request ev) := by
  unfold Store.request Store.deleteRequested
  split
  · exact Clearing.foldl (fun _ _ h => h.deleteAddress ev _) _ (Clearing.foldl (fun _ _ h => h.deleteId ev _) _ h)
  · exact h

end Clearing

/-! ## Deletions kept -/

/-- Nothing stored was deleted, and the tables have all that the stored requests ask for. -/
structure Guarded (s : Store) : Prop where
  kept : ∀ e, s.events.get e.id = some e → e.kind ≠ 5 → s.deletedIds.values.get (e.id, e.pubkey) = none
  later : ∀ e a t, s.events.get e.id = some e → addressOf e = some a → s.deletedAddresses.values.get a = some t → t < e.createdAt
  ids : ∀ d, s.events.get d.id = some d → d.kind = 5 → ∀ id ∈ d.names, s.deletedIds.values.get (id, d.pubkey) = some ()
  addresses : ∀ d, s.events.get d.id = some d → d.kind = 5 → ∀ a ∈ d.targets,
    ∃ t, s.deletedAddresses.values.get a = some t ∧ d.createdAt ≤ t

theorem Guarded.fresh (maxEvents : Nat) (persistent : Bool) : Guarded (Store.fresh maxEvents persistent) := ⟨nofun, nofun, nofun, nofun⟩

theorem Guarded.subset {s s' : Store} (h : Guarded s) (he : ∀ e, s'.events.get e.id = some e → s.events.get e.id = some e)
    (hi : s'.deletedIds = s.deletedIds) (ha : s'.deletedAddresses = s.deletedAddresses) : Guarded s' := by
  refine ⟨fun e hs => ?_, fun e a t hs => ?_, fun d hs => ?_, fun d hs => ?_⟩
  · rw [hi]; exact h.kept e (he e hs)
  · rw [ha]; exact h.later e a t (he e hs)
  · rw [hi]; exact h.ids d (he d hs)
  · rw [ha]; exact h.addresses d (he d hs)

theorem tables_grow {s g : Store} {ev : Event} (hg : Store.Grown s ev g) (hroom : ev.kind = 5 →
      (s.deletedIds.values.keys ∪ (ev.names.map (fun id => (id, ev.pubkey))).toFinset).card ≤ s.maxEvents ∧
      (s.deletedAddresses.values.keys ∪ ev.targets.toFinset).card ≤ s.maxEvents) :
    (∀ k, s.deletedIds.values.get k = some () ∨ (ev.kind = 5 ∧ k.1 ∈ ev.names ∧ k.2 = ev.pubkey) →
      g.deletedIds.values.get k = some ()) ∧
    ∀ a t, s.deletedAddresses.values.get a = some t ∨ (ev.kind = 5 ∧ a ∈ ev.targets ∧ t = ev.createdAt) →
      ∃ t', g.deletedAddresses.values.get a = some t' ∧ t ≤ t' := by
  rw [hg.deletedIds, hg.deletedAddresses]
  by_cases hk : ev.kind = 5
  · rw [if_pos hk, if_pos hk]
    obtain ⟨hids, haddrs⟩ := hroom hk
    refine ⟨fun k h => Store.get_foldl_ids_room _ hids k (h.symm.imp_left And.right), fun a t h => ?_⟩
    obtain ⟨hnew, hold⟩ := Store.get_foldl_raise_room ev.createdAt _ haddrs a
    rcases h with h | ⟨-, ha, rfl⟩
    · exact hold t h
    · exact hnew ha
  · rw [if_neg hk, if_neg hk]
    exact ⟨fun k h => h.resolve_right (fun h => hk h.1), fun a t h => ⟨t, h.resolve_right (fun h => hk h.1), le_rfl⟩⟩

theorem Guarded.grown {s g : Store} (h : Guarded s) {ev : Event} (hw : s.Welcome ev) (hg : Store.Grown s ev g)
    (hroom : ev.kind = 5 → (s.deletedIds.values.keys ∪ (ev.names.map (fun id => (id, ev.pubkey))).toFinset).card ≤ s.maxEvents ∧
      (s.deletedAddresses.values.keys ∪ ev.targets.toFinset).card ≤ s.maxEvents) : Guarded g := by
  obtain ⟨hids, haddrs⟩ := tables_grow hg hroom
  have hevents : ∀ e, g.events.get e.id = some e → e = ev ∨ (s.events.get e.id = some e ∧ ¬ev.Displaces e) :=
    fun e he => ((hg.events _ _).1 he).imp_left And.right
  refine ⟨fun e he hk => ?_, fun e a t he ha ht => ?_, fun d hd hk id hid => ?_, fun d hd hk a ha => ?_⟩
  · cases hget : g.deletedIds.values.get (e.id, e.pubkey) with
    | none => rfl
    | some u =>
      exfalso
      rw [hg.deletedIds] at hget
      have hold : s.deletedIds.values.get (e.id, e.pubkey) = none := by
        rcases hevents e he with rfl | ⟨he, -⟩
        · exact hw.kept hk
        · exact h.kept e he hk
      split at hget
      · rename_i hkind
        rcases Store.get_foldl_ids _ hget with ⟨hname, hkey⟩ | hget
        · rcases hevents e he with rfl | ⟨-, hdis⟩
          · exact hk hkind
          · exact hdis (Or.inr ⟨hkind, Or.inl ⟨hname, hkey, hk⟩⟩)
        · rw [hold] at hget
          cases hget
      · rw [hold] at hget
        cases hget
  · have hold : s.deletedAddresses.values.get a = some t → t < e.createdAt := by
      intro ht
      rcases hevents e he with rfl | ⟨he, -⟩
      · exact hw.later a t ha ht
      · exact h.later e a t he ha ht
    rw [hg.deletedAddresses] at ht
    split at ht
    · rename_i hkind
      rcases Store.get_foldl_raise _ ht with ⟨hta, rfl⟩ | ht
      · rcases hevents e he with rfl | ⟨-, hdis⟩
        · have hclass : e.kindClass = .regular := by
            unfold Event.kindClass
            rw [hkind]
            rfl
          rw [addressOf, hclass] at ha
          cases ha
        · by_contra hle
          exact hdis (Or.inr ⟨hkind, Or.inr ⟨a, hta, ha, not_lt.1 hle⟩⟩)
      · exact hold ht
    · exact hold ht
  · refine hids _ ?_
    rcases hevents d hd with rfl | ⟨hd, -⟩
    · exact Or.inr ⟨hk, hid, rfl⟩
    · exact Or.inl (h.ids d hd hk id hid)
  · rcases hevents d hd with rfl | ⟨hd, -⟩
    · exact haddrs a _ (Or.inr ⟨hk, ha, rfl⟩)
    · obtain ⟨t, ht, hle⟩ := h.addresses d hd hk a ha
      obtain ⟨t', ht', hle'⟩ := haddrs a t (Or.inl ht)
      exact ⟨t', ht', hle.trans hle'⟩

/-! ## A store and its log -/

/-- What a store holds is what its log says, once what is pending is written. -/
structure Logged (now cap : Nat) (written : List Line) (s : Store) : Prop where
  sound : s.Sound
  persistent : s.persistent = true
  maxEvents : s.maxEvents = cap
  guarded : Guarded s
  shaped : ∀ e, s.events.get e.id = some e → e.Shaped
  lines : ∀ line ∈ written ++ s.pending, line.Shaped
  mirrors : s.rewrite = false → Mirrors now cap s.events s.deletedIds.values s.deletedAddresses.values
    (replay now (Store.fresh cap false) (written ++ s.pending))

section Logged

variable {now cap : Nat} {written : List Line} {s : Store}

section

variable (h : Logged now cap written s)

include h

theorem Logged.clearing : Clearing now cap written s.deletedIds.values s.deletedAddresses.values s :=
  ⟨h.sound.indexed, h.persistent, h.maxEvents, fun line hl => h.lines line (mem_append_right _ hl), h.mirrors⟩

theorem Logged.insert {ev : Event} (hev : ev.Shaped) (hroom : s.HasRoom ev) : Logged now cap written (s.insert ev).1 := by
  by_cases hw : s.Welcome ev
  swap
  · rw [Store.insert_of_not_welcome hw]
    exact h
  have hroom' := hroom (contains_eq_false.2 hw.new)
  have hsound := (h.sound.insert ev).1
  have hg := Store.grown_spec h.sound.indexed hw
  have hguarded := h.guarded.grown hw hg hroom'
  obtain ⟨hids, haddrs⟩ := tables_grow hg hroom'
  have hclear := (h.clearing.vacate ev).request ev
  have hshaped : ∀ e, (s.grown ev).events.get e.id = some e → e.Shaped := by
    intro e he
    rcases (hg.events _ _).1 he with ⟨-, rfl⟩ | ⟨he, -⟩
    · exact hev
    · exact h.shaped e he
  -- the store just before the event is put
  have hbefore : ∀ id e, ((s.vacate ev).request ev).events.get id = some e ↔ s.events.get id = some e ∧ ¬ev.Displaces e := by
    obtain ⟨hv, -, -⟩ := Store.vacate_spec h.sound.indexed ev
    obtain ⟨hr, -, -⟩ := Store.request_spec hv.indexed ev
    exact (hv.trans hr).events
  have hj : Joins ((s.vacate ev).request ev).events s.deletedIds.values (s.grown ev).deletedIds.values
      s.deletedAddresses.values (s.grown ev).deletedAddresses.values ev := by
    refine ⟨hev, ?_, hw.lasting, hw.kept, hw.later, fun id e he => ((hbefore id e).1 he).2, hids, haddrs⟩
    cases he : ((s.vacate ev).request ev).events.get ev.id with
    | none => rfl
    | some e =>
      have := ((hbefore _ _).1 he).1
      rw [hw.new] at this
      cases this
  have hput : (s.grown ev).events = ((s.vacate ev).request ev).events.insert ev.id ev := by
    refine Table.ext (fun id => Option.ext (fun e => ?_))
    rw [hg.events, get_insert, ← hbefore]
    split
    · rename_i hid
      rw [hid, hj.new]
      constructor
      · rintro (⟨-, rfl⟩ | he)
        · rfl
        · cases he
      · intro he
        cases he
        exact Or.inl ⟨rfl, rfl⟩
    · rename_i hid
      exact or_iff_right (fun he => hid he.1)
  have hlogged : (s.grown ev).rewrite = false → ((s.vacate ev).request ev).rewrite = false ∧
      (s.grown ev).pending = ((s.vacate ev).request ev).pending ++ [.ev ev] := Store.put_logged hclear.persistent
  have hlines : ∀ line ∈ (s.grown ev).pending, line.Shaped := by
    intro line hl
    rcases Store.put_pending hl with hl | rfl
    · exact hclear.lines line hl
    · exact hev
  have hwritten : ∀ line ∈ written, line.Shaped := fun line hl => h.lines line (mem_append_left _ hl)
  have hpers : (s.grown ev).persistent = true := hg.persistent.trans h.persistent
  have hcases := Store.insert_cases h.sound.indexed h.sound.len ev
  generalize s.grown ev = g at *
  rcases hcases with ⟨hn, -⟩ | ⟨-, -, ⟨hle, he⟩ | ⟨hlen, o, hhead, ho, he⟩⟩
  · exact absurd hw hn
  · rw [he] at hsound ⊢
    refine ⟨hsound, hpers, hg.maxEvents.trans h.maxEvents, hguarded, hshaped, fun line hl => ?_, fun hrw => ?_⟩
    · exact (mem_append.1 hl).elim (hwritten line) (hlines line)
    · obtain ⟨hrw', hpending⟩ := hlogged hrw
      rw [hput, hpending, ← append_assoc, replay_append]
      refine (hclear.mirrors hrw').ev hj ?_
      rw [← hput, ← h.maxEvents]
      exact hle
  · rw [he] at hsound ⊢
    have hrem := Store.remove_removed g o.id
    have hsub : ∀ e, (g.remove o.id).events.get e.id = some e → g.events.get e.id = some e :=
      fun e he => (((hg.indexed.removed o.id).events _ _).1 he).1
    refine ⟨hsound, hrem.persistent.trans hpers, hrem.maxEvents.trans (hg.maxEvents.trans h.maxEvents),
      hguarded.subset hsub hrem.deletedIds hrem.deletedAddresses, fun e he => hshaped e (hsub e he), fun line hl => ?_,
      fun hrw => ?_⟩
    · exact (mem_append.1 hl).elim (hwritten line) (remove_lines hlines o.id line)
    · obtain ⟨hrwg, hpendingg⟩ := Store.remove_logged hpers hg.indexed hrw
      obtain ⟨hrw', hpending⟩ := hlogged hrwg
      have hcontains : g.contains o.id = true := Table.contains_iff.2 ⟨o, ho⟩
      have hmin : ∀ e, g.events.get e.id = some e → timeKey o ≤ timeKey e := by
        intro e he
        obtain ⟨l, hl⟩ := head?_eq_some_iff.1 hhead
        have hmem := (hg.indexed.times (timeKey e)).2 ⟨e, he, rfl⟩
        have hasc := hg.indexed.ascending
        rw [hl] at hmem hasc
        rcases mem_cons.1 hmem with heq | hmem
        · exact heq.symm.le
        · exact ((pairwise_cons.1 hasc).1 _ hmem).le
      rw [hcontains] at hpendingg
      rw [hrem.events, hrem.deletedIds, hrem.deletedAddresses, hpendingg, hpending, ← append_assoc,
        ← append_assoc, replay_append, replay_append, hput]
      refine (hclear.mirrors hrw').ev_del hj ?_ (hput ▸ ho) (hput ▸ hmin)
      rw [← hput, ← h.maxEvents]
      exact hlen

theorem Logged.markAllDirty : Logged now cap written s.markAllDirty := by
  unfold Store.markAllDirty
  rw [if_pos h.persistent]
  refine ⟨h.sound.congr ⟨rfl, rfl, rfl, rfl, rfl, rfl, rfl⟩, h.persistent, h.maxEvents,
    h.guarded.subset (fun _ he => he) rfl rfl, h.shaped, fun line hl => ?_, nofun⟩
  rw [append_nil] at hl
  exact h.lines line (mem_append_left _ hl)

end

theorem Joins.snapshot (hs : s.Sound) (hguarded : Guarded s) {events : Table String Event}
    (hsub : ∀ id e, events.get id = some e → s.events.get id = some e) {ev : Event} (hev : s.events.get ev.id = some ev)
    (hshaped : ev.Shaped) (hnew : events.get ev.id = none) :
    Joins events s.deletedIds.values s.deletedIds.values s.deletedAddresses.values s.deletedAddresses.values ev := by
  have hother : ∀ id e, events.get id = some e → s.events.get e.id = some e ∧ e ≠ ev := by
    intro id e he
    have hid := hs.indexed.keyed id e (hsub id e he)
    refine ⟨hid ▸ hsub id e he, ?_⟩
    rintro rfl
    rw [hid, he] at hnew
    cases hnew
  refine ⟨hshaped, hnew, hs.indexed.lasting _ _ hev, hguarded.kept ev hev, fun a t ha ht => hguarded.later ev a t hev ha ht,
    fun id e he => ?_, fun k hk => ?_, fun a t ht => ?_⟩
  · obtain ⟨hin, hne⟩ := hother id e he
    rintro (⟨a, ha, hae⟩ | ⟨hk, ⟨hname, hkey, hke⟩ | ⟨a, hta, hae, hle⟩⟩)
    · exact hne (hs.indexed.address_inj hin hev hae ha)
    · have := hguarded.ids ev hev hk e.id hname
      rw [← hkey, hguarded.kept e hin hke] at this
      cases this
    · obtain ⟨t, ht, hlt⟩ := hguarded.addresses ev hev hk a hta
      exact absurd (hguarded.later e a t hin hae ht) (not_lt.2 (hle.trans hlt))
  · rcases hk with hk | ⟨hk, hname, hkey⟩
    · exact hk
    · have := hguarded.ids ev hev hk k.1 hname
      rwa [← hkey] at this
  · rcases ht with ht | ⟨hk, hta, rfl⟩
    · exact ⟨t, ht, le_rfl⟩
    · exact hguarded.addresses ev hev hk a hta

theorem Mirrors.snapshot (hs : s.Sound) (hguarded : Guarded s) (hcap : s.maxEvents = cap) (l : List Event)
    {events : Table String Event} {r : Store}
    (h : Mirrors now cap events s.deletedIds.values s.deletedAddresses.values r)
    (hsub : ∀ id e, events.get id = some e → s.events.get id = some e)
    (hl : ∀ e ∈ l, s.events.get e.id = some e ∧ e.Shaped ∧ events.get e.id = none) (hnd : (l.map Event.id).Nodup) :
    ∃ events' : Table String Event, (∀ id e, events'.get id = some e ↔ events.get id = some e ∨ (e ∈ l ∧ e.id = id)) ∧
      Mirrors now cap events' s.deletedIds.values s.deletedAddresses.values (replay now r (l.map .ev)) := by
  induction l generalizing events r with
  | nil => exact ⟨events, fun id e => ⟨Or.inl, fun he => he.resolve_right (fun he => absurd he.1 not_mem_nil)⟩, h⟩
  | cons ev l ih =>
    obtain ⟨hev, hshaped, hnew⟩ := hl ev mem_cons_self
    rw [map_cons, nodup_cons] at hnd
    have hget : ∀ id e, (events.insert ev.id ev).get id = some e → s.events.get id = some e := by
      intro id e he
      rcases of_get_insert he with ⟨hid, rfl⟩ | ⟨-, he⟩
      · rw [hid]
        exact hev
      · exact hsub id e he
    have hsize : (events.insert ev.id ev).size ≤ cap := by
      rw [← hcap]
      refine le_trans (size_le_of_keys (fun id e he => ?_)) hs.len
      rw [hget id e he]
      exact some_ne_none e
    have hrest : ∀ e ∈ l, s.events.get e.id = some e ∧ e.Shaped ∧ (events.insert ev.id ev).get e.id = none := by
      intro e he
      obtain ⟨h1, h2, h3⟩ := hl e (mem_cons_of_mem _ he)
      refine ⟨h1, h2, ?_⟩
      rw [get_insert_ne, h3]
      intro hid
      exact hnd.1 (hid ▸ List.mem_map_of_mem he)
    obtain ⟨events', hevents', hm⟩ := ih (h.ev (Joins.snapshot hs hguarded hsub hev hshaped hnew) hsize) hget hrest hnd.2
    refine ⟨events', fun id e => ?_, hm⟩
    rw [hevents', get_insert, mem_cons]
    constructor
    · rintro (he | ⟨he, hid⟩)
      · split at he
        · rename_i hid
          cases he
          exact Or.inr ⟨Or.inl rfl, hid.symm⟩
        · exact Or.inl he
      · exact Or.inr ⟨Or.inr he, hid⟩
    · rintro (he | ⟨rfl | he, hid⟩)
      · rw [if_neg]
        · exact Or.inl he
        · rintro rfl
          rw [he] at hnew
          cases hnew
      · rw [if_pos hid.symm]
        exact Or.inl rfl
      · exact Or.inr ⟨he, hid⟩

theorem snapshot_events (h : s.Indexed) : ∃ l : List Event, s.snapshot = l.map .ev ∧ (l.map Event.id).Nodup ∧
    ∀ e, e ∈ l ↔ s.events.get e.id = some e := by
  refine ⟨s.byTime.filterMap (fun key => s.events.get (ofLex key).2), rfl, ?_, fun e => ?_⟩
  · have hkeys : ∀ (keys : List (Nat ×ₗ String)), keys.Pairwise (· < ·) → (∀ k ∈ keys, k ∈ s.byTime) →
        ((keys.filterMap (fun key => s.events.get (ofLex key).2)).map Event.id).Nodup ∧
        ∀ e ∈ keys.filterMap (fun key => s.events.get (ofLex key).2), timeKey e ∈ keys := by
      intro keys
      induction keys with
      | nil => exact fun _ _ => ⟨nodup_nil, nofun⟩
      | cons k keys ih =>
        intro hasc hin
        obtain ⟨hk, hasc⟩ := pairwise_cons.1 hasc
        obtain ⟨hnd, hmem⟩ := ih hasc (fun x hx => hin x (mem_cons_of_mem _ hx))
        obtain ⟨e, he, rfl⟩ := (h.times k).1 (hin k mem_cons_self)
        rw [filterMap_cons_some (f := fun key : Nat ×ₗ String => s.events.get (ofLex key).2) (a := timeKey e) he, map_cons, nodup_cons]
        refine ⟨⟨fun hid => ?_, hnd⟩, fun x hx => ?_⟩
        · obtain ⟨x, hx, hxe⟩ := List.mem_map.1 hid
          have hlt := hk _ (hmem x hx)
          obtain ⟨key, hkey, hxkey⟩ := mem_filterMap.1 hx
          have hxid := h.keyed _ _ hxkey
          rw [← hxid, hxe, he] at hxkey
          cases hxkey
          exact lt_irrefl _ hlt
        · rcases mem_cons.1 hx with rfl | hx
          · exact mem_cons_self
          · exact mem_cons_of_mem _ (hmem x hx)
    exact (hkeys s.byTime h.ascending (fun _ hk => hk)).1
  · rw [mem_filterMap]
    constructor
    · rintro ⟨k, -, hk⟩
      have hid := h.keyed _ _ hk
      rw [hid]
      exact hk
    · intro he
      exact ⟨timeKey e, (h.times _).2 ⟨e, he, rfl⟩, he⟩

theorem takePending_rewrite (hp : s.persistent = true) (h : s.rewrite = true ∨ s.compactionThreshold < s.logLines) :
    s.takePending = ({ s with rewrite := false, pending := [], logLines := s.len }, true, s.snapshot) := by
  unfold Store.takePending
  rw [if_neg (by rw [hp]; decide), if_pos h]

theorem takePending_append (hp : s.persistent = true) (h : ¬(s.rewrite = true ∨ s.compactionThreshold < s.logLines)) :
    s.takePending = ({ s with rewrite := false, pending := [] }, false, s.pending) := by
  unfold Store.takePending
  rw [if_neg (by rw [hp]; decide), if_neg h]

def flushed (written : List Line) (s : Store) : List Line :=
  if s.takePending.2.1 then s.takePending.2.2 else written ++ s.takePending.2.2

theorem Logged.flush (h : Logged now cap written s) : Logged now cap (flushed written s) s.takePending.1 ∧
    s.takePending.1.pending = [] ∧ s.takePending.1.rewrite = false ∧ s.takePending.1.events = s.events := by
  by_cases hrw : s.rewrite = true ∨ s.compactionThreshold < s.logLines
  · obtain ⟨l, hl, hnd, hmem⟩ := snapshot_events h.sound.indexed
    have hshaped : ∀ line ∈ s.snapshot, line.Shaped := by
      rw [hl]
      intro line hline
      obtain ⟨e, he, rfl⟩ := List.mem_map.1 hline
      exact h.shaped e ((hmem e).1 he)
    unfold flushed
    rw [takePending_rewrite h.persistent hrw]
    refine ⟨⟨h.sound.congr ⟨rfl, rfl, rfl, rfl, rfl, rfl, rfl⟩, h.persistent, h.maxEvents,
      h.guarded.subset (fun _ he => he) rfl rfl, h.shaped, fun line hline => ?_, fun _ => ?_⟩, rfl, rfl, rfl⟩
    · rw [append_nil] at hline
      exact hshaped line hline
    · have hempty : Mirrors now cap ∅ s.deletedIds.values s.deletedAddresses.values (Store.fresh cap false) :=
        ⟨Store.Sound.fresh _ _, fun id e => ⟨nofun, fun he => nomatch he.1⟩, nofun, nofun, rfl⟩
      obtain ⟨events', hevents, hm⟩ := Mirrors.snapshot h.sound h.guarded h.maxEvents l hempty nofun
        (fun e he => ⟨(hmem e).1 he, h.shaped e ((hmem e).1 he), rfl⟩) hnd
      have heq : events' = s.events := by
        refine Table.ext (fun id => Option.ext (fun e => ?_))
        rw [hevents]
        constructor
        · rintro (he | ⟨he, rfl⟩)
          · cases he
          · exact (hmem e).1 he
        · intro he
          have hid := h.sound.indexed.keyed id e he
          subst hid
          exact Or.inr ⟨(hmem e).2 he, rfl⟩
      rw [append_nil, hl, ← heq]
      exact hm
  · unfold flushed
    rw [takePending_append h.persistent hrw]
    rw [not_or, Bool.not_eq_true] at hrw
    refine ⟨⟨h.sound.congr ⟨rfl, rfl, rfl, rfl, rfl, rfl, rfl⟩, h.persistent, h.maxEvents,
      h.guarded.subset (fun _ he => he) rfl rfl, h.shaped, fun line hline => ?_, fun _ => ?_⟩, rfl, rfl, rfl⟩
    · rw [append_nil] at hline
      exact h.lines line hline
    · rw [append_nil]
      exact h.mirrors hrw.1

end Logged

/-! ## Reopening -/

def Shelf.Agrees (now cap : Nat) (shelf : Shelf) : Prop :=
  ∃ written : List Line, Logged now cap written shelf.store ∧ shelf.log.getD [] = written.flatMap Line.write

theorem Logged.fresh (now cap : Nat) : Logged now cap [] { Store.fresh cap false with persistent := true } :=
  ⟨Store.Sound.fresh cap true, rfl, rfl, Guarded.fresh cap true, nofun, nofun, fun _ =>
    ⟨Store.Sound.fresh _ _, fun _ _ => ⟨nofun, fun he => absurd he.1 nofun⟩, nofun, nofun, rfl⟩⟩

theorem Shelf.start_agrees (now cap now₀ : Nat) : (start cap now₀).Agrees now cap := ⟨[], Logged.fresh now cap, rfl⟩

theorem applyPending_flushed {log : Option (List UInt8)} {written : List Line}
    (h : log.getD [] = written.flatMap Line.write) (s : Store) :
    (applyPending log s.takePending.2.1 s.takePending.2.2).getD [] = (flushed written s).flatMap Line.write := by
  unfold applyPending flushed
  split
  · rename_i hnone
    rw [hnone.1, hnone.2, append_nil]
    exact h
  · split
    · rfl
    · rw [getD_some, h, flatMap_append]

theorem Shelf.step_agrees {now cap : Nat} {shelf : Shelf} (h : shelf.Agrees now cap) {op : Op} (hop : op.Shaped)
    (hroom : shelf.Roomy [op]) : (shelf.step op).Agrees now cap := by
  obtain ⟨written, hl, hlog⟩ := h
  cases op with
  | insert ev => exact ⟨written, hl.insert hop hroom.1, hlog⟩
  | markAllDirty => exact ⟨written, hl.markAllDirty, hlog⟩
  | flush => exact ⟨flushed written shelf.store, hl.flush.1, applyPending_flushed hlog shelf.store⟩

theorem Shelf.Roomy.cons {shelf : Shelf} {op : Op} {ops : List Op} (h : shelf.Roomy (op :: ops)) :
    shelf.Roomy [op] ∧ (shelf.step op).Roomy ops := by
  cases op with
  | insert ev => exact ⟨⟨h.1, trivial⟩, h.2⟩
  | markAllDirty | flush => exact ⟨trivial, h⟩

theorem Shelf.run_agrees {now cap : Nat} : ∀ (ops : List Op) {shelf : Shelf}, shelf.Agrees now cap →
    (∀ op ∈ ops, op.Shaped) → shelf.Roomy ops → (shelf.run ops).Agrees now cap
  | [], _, h, _, _ => h
  | op :: ops, _, h, hops, hroom =>
    run_agrees ops (step_agrees h (hops op mem_cons_self) hroom.cons.1)
      (fun op hop => hops op (mem_cons_of_mem _ hop)) hroom.cons.2

/-- **A store reopens to what it held**: where every deletion request of the run finds room in the tables of deletions,
reading the log back gives the events stored. -/
theorem reopen (cap now₀ now : Nat) (ops : List Op) (hops : ∀ op ∈ ops, op.Shaped)
    (hroom : (Shelf.start cap now₀).Roomy ops)
    (hlive : ∀ id e, ((Shelf.start cap now₀).run ops).store.events.get id = some e → expired e now = false) :
    (openLog (((Shelf.start cap now₀).run ops).step .flush).log cap now).events =
      (((Shelf.start cap now₀).run ops).step .flush).store.events := by
  obtain ⟨written, hl, hlog⟩ := Shelf.run_agrees ops (Shelf.start_agrees now cap now₀) hops hroom
  generalize (Shelf.start cap now₀).run ops = shelf at *
  obtain ⟨hflush, hpending, hrewrite, hevents⟩ := hl.flush
  have hm := hflush.mirrors hrewrite
  have hbytes := applyPending_flushed hlog shelf.store
  have hlines := hflush.lines
  rw [hpending, append_nil] at hm hlines
  rw [Shelf.step, openLog_write hlines hbytes]
  refine Table.ext (fun id => Option.ext (fun e => ?_))
  rw [hm.events]
  exact and_iff_left_of_imp (fun he => hlive id e (hevents ▸ he))

/-! ## A request that drops the deletions of another -/

def requestEvent (id : Char) (createdAt : Nat) (names : List Char) : Event :=
  ⟨hexText id 64, hexText 'a' 64, createdAt, 5, names.map (fun c => ["e", hexText c 64]), "", hexText 'b' 128⟩

def deletedNote : Event := ⟨hexText '1' 64, hexText 'a' 64, 5, 1, [], "", hexText 'b' 128⟩

theorem requestEvent_shaped {id : Char} {createdAt : Nat} {names : List Char}
    (hid : (id.isDigit || (decide ('a' ≤ id) && decide (id ≤ 'f'))) = true) (hcreated : createdAt < 2 ^ 64) :
    (requestEvent id createdAt names).Shaped :=
  ⟨isLowerHex_hexText hid, isLowerHex_hexText (by decide), isLowerHex_hexText (by decide), hcreated, (by decide : (5 : Nat) < 65536)⟩

theorem deletedNote_shaped : deletedNote.Shaped :=
  ⟨isLowerHex_hexText (by decide), isLowerHex_hexText (by decide), isLowerHex_hexText (by decide),
    (by decide : (5 : Nat) < 2 ^ 64), (by decide : (1 : Nat) < 65536)⟩

def remembering : List Op := [.insert (requestEvent '8' 3 ['1']), .flush, .insert deletedNote, .markAllDirty]

theorem reopen_remembering : (openLog (((Shelf.start 3 0).run remembering).step .flush).log 3 0).events =
      (((Shelf.start 3 0).run remembering).step .flush).store.events := by
  refine reopen 3 0 0 remembering ?_ ?_ (fun id e he => ?_)
  · intro op hop
    simp only [remembering, mem_cons, not_mem_nil, or_false] at hop
    rcases hop with rfl | rfl | rfl | rfl
    · exact requestEvent_shaped (by decide) (by decide)
    · trivial
    · exact deletedNote_shaped
    · trivial
  · exact ⟨by decide, by decide, trivial⟩
  · have hall : ((Shelf.start 3 0).run remembering).store.events.all (fun _ e => !expired e 0) = true := by
      decide
    simpa using Table.all_eq_true.1 hall id e he

/-- A request to delete a note, an older request to delete three others, and the note. -/
def forgetting : List Op :=
  [.insert (requestEvent '8' 3 ['1']), .insert (requestEvent '9' 1 ['2', '3', '4']), .insert deletedNote, .markAllDirty]

theorem forgetting_shaped : ∀ op ∈ forgetting, op.Shaped := by
  intro op hop
  simp only [forgetting, mem_cons, not_mem_nil, or_false] at hop
  rcases hop with rfl | rfl | rfl | rfl
  · exact requestEvent_shaped (by decide) (by decide)
  · exact requestEvent_shaped (by decide) (by decide)
  · exact deletedNote_shaped
  · trivial

/-- The note is stored when the second request has pushed its deletion out, and is deleted when the log is read back
oldest request first. -/
theorem reopen_forgets : (∀ op ∈ forgetting, op.Shaped) ∧
    (∀ id e, ((Shelf.start 3 0).run forgetting).store.events.get id = some e → expired e 0 = false) ∧
    (((Shelf.start 3 0).run forgetting).step .flush).store.events.get (hexText '1' 64) = some deletedNote ∧
    (openLog (((Shelf.start 3 0).run forgetting).step .flush).log 3 0).events.get (hexText '1' 64) = none := by
  refine ⟨forgetting_shaped, fun id e he => ?_, by decide +kernel, ?_⟩
  · have hall : ((Shelf.start 3 0).run forgetting).store.events.all (fun _ e => !expired e 0) = true := by
      decide
    simpa using Table.all_eq_true.1 hall id e he
  · have htaken : ((Shelf.start 3 0).run forgetting).store.takePending.2 =
        (true, [.ev (requestEvent '9' 1 ['2', '3', '4']), .ev (requestEvent '8' 3 ['1']), .ev deletedNote]) := by
      decide +kernel
    have hlog : (((Shelf.start 3 0).run forgetting).step .flush).log.getD [] =
        List.flatMap Line.write [.ev (requestEvent '9' 1 ['2', '3', '4']), .ev (requestEvent '8' 3 ['1']), .ev deletedNote] := by
      rw [Shelf.step, htaken]
      rfl
    rw [openLog_write (fun line hl => ?_) hlog]
    · decide
    · simp only [mem_cons, not_mem_nil, or_false] at hl
      rcases hl with rfl | rfl | rfl
      · exact requestEvent_shaped (by decide) (by decide)
      · exact requestEvent_shaped (by decide) (by decide)
      · exact deletedNote_shaped

end Mistl.Nostr
