import Mathlib.Data.Finset.Max
import Mistl.DmLoad
/-!
# DmEviction — which conversations may be pushed out

`History::add` of `dm/history.rs` makes room by the age of the conversations we never wrote in.
-/
open List Mistl.Table Option

namespace Mistl.Dm

/-! ## Trimming keeps the newest messages -/

def Retained (messages : List StoredMsg) : Prop :=
  messages.length ≤ maxMessages ∧ (bytesOf messages ≤ maxConvBytes ∨ messages.length ≤ 1)

instance (messages : List StoredMsg) : Decidable (Retained messages) := by
  unfold Retained
  infer_instance

def ownTail : List StoredMsg → List StoredMsg
  | [] => []
  | msg :: messages => if messages.any StoredMsg.mine then ownTail messages else if msg.mine then msg :: messages else []

theorem bytesOf_suffix {l l' : List StoredMsg} (h : l <:+ l') : bytesOf l ≤ bytesOf l' := by
  obtain ⟨t, rfl⟩ := h
  simp [bytesOf]

theorem Retained.suffix {l l' : List StoredMsg} (h : Retained l') (hs : l <:+ l') : Retained l :=
  ⟨hs.length_le.trans h.1, h.2.imp (fun hb => (bytesOf_suffix hs).trans hb) (fun hl => hs.length_le.trans hl)⟩

variable {l : List StoredMsg}

theorem suffix_trimCount (hlen : l.length ≤ maxMessages) : ∀ {l' : List StoredMsg}, l <:+ l' → l <:+ trimCount l'
  | [], h => h
  | msg :: l', h => by
    unfold trimCount
    split
    · rename_i hover
      rcases suffix_cons_iff.1 h with rfl | h
      · exact absurd hlen (not_le.2 hover)
      · exact suffix_trimCount hlen h
    · exact h

theorem suffix_trimBytes (hfits : bytesOf l ≤ maxConvBytes ∨ l.length ≤ 1) :
    ∀ {l' : List StoredMsg}, l <:+ l' → l <:+ trimBytes (bytesOf l') l'
  | [], h => h
  | msg :: l', h => by
    unfold trimBytes
    split
    · rename_i hover
      rw [bytesOf_cons, Nat.add_sub_cancel_left]
      rcases suffix_cons_iff.1 h with rfl | h
      · rcases hfits with hbytes | hlen
        · exact absurd hbytes (not_le.2 hover.1)
        · exact absurd hlen (not_le.2 hover.2)
      · exact suffix_trimBytes hfits h
    · exact h

theorem trim_retained (conv : Conversation) : Retained conv.trim.messages := by
  have hsuffix : conv.trim.messages <:+ trimCount conv.messages := trimBytes_suffix _ _
  exact ⟨hsuffix.length_le.trans (trimCount_length _), trimBytes_le _⟩

theorem trim_suffix (conv : Conversation) : conv.trim.messages <:+ conv.messages := (trimBytes_suffix _ _).trans (trimCount_suffix _)

variable {conv : Conversation}

theorem suffix_trim_iff (h : l <:+ conv.messages) : l <:+ conv.trim.messages ↔ Retained l :=
  ⟨fun hs => (trim_retained conv).suffix hs, fun hr => suffix_trimBytes hr.2 (suffix_trimCount hr.1 h)⟩

theorem ownTail_suffix : ∀ l : List StoredMsg, ownTail l <:+ l
  | [] => suffix_refl _
  | msg :: l => by
    unfold ownTail
    split
    · exact (ownTail_suffix l).trans (suffix_cons _ _)
    · split
      · exact suffix_refl _
      · exact nil_suffix

theorem ownTail_any : ∀ {l : List StoredMsg}, l.any StoredMsg.mine = true → (ownTail l).any StoredMsg.mine = true
  | msg :: l, h => by
    unfold ownTail
    by_cases hl : l.any StoredMsg.mine = true
    · rw [if_pos hl]
      exact ownTail_any hl
    · have hmsg : msg.mine = true := by simpa [hl] using h
      rw [if_neg hl, if_pos hmsg]
      exact h

theorem ownTail_of_suffix (hown : l.any StoredMsg.mine = true) : ∀ {l' : List StoredMsg}, l <:+ l' → ownTail l' <:+ l
  | [], h => by
    rw [suffix_nil.1 h] at hown
    cases hown
  | msg :: l', h => by
    rcases suffix_cons_iff.1 h with rfl | h
    · exact ownTail_suffix _
    · unfold ownTail
      rw [if_pos (List.any_eq_true.2 ?_)]
      · exact ownTail_of_suffix hown h
      · obtain ⟨m, hm, hmine⟩ := List.any_eq_true.1 hown
        exact ⟨m, h.subset hm, hmine⟩

theorem trim_solicited_iff (h : conv.solicited = true) : conv.trim.solicited = true ↔ Retained (ownTail conv.messages) := by
  rw [← suffix_trim_iff (ownTail_suffix _)]
  constructor
  · exact fun htrim => ownTail_of_suffix htrim (trim_suffix conv)
  · intro hs
    obtain ⟨m, hm, hmine⟩ := List.any_eq_true.1 (ownTail_any h)
    exact List.any_eq_true.2 ⟨m, hs.subset hm, hmine⟩

/-! ## Histories and whose conversations they have -/

/-- A history, and the DIDs of the conversations we wrote in that were neither cleared nor taken to make room for a message of ours. -/
structure Watched where
  history : History
  ours : Finset String

inductive Use where
  | add (did : String) (msg : StoredMsg) (nowMs : UInt64) (remote : Bool) (lru : Bool → Option String)
  | markRead (did : String)
  | markDelivered (did id : String)
  | clear (did : String)

def History.messagesOf (h : History) (did : String) : List StoredMsg := (h.convs.get did).elim [] Conversation.messages

namespace Watched

def default : Watched := ⟨History.default, ∅⟩

/-- Whose conversations are ours once `h` has taken a message. -/
def oursAfter (x : Watched) (did : String) (msg : StoredMsg) (remote : Bool) (h : History) : Finset String :=
  let ours := if remote then x.ours else x.ours.filter (fun d => h.convs.contains d = true)
  if msg.mine then insert did ours else ours

inductive Step (x : Watched) : Use → Watched → Prop where
  | add {did : String} {msg : StoredMsg} {nowMs : UInt64} {remote : Bool} {lru : Bool → Option String} {h : History} :
      (∀ b, History.Oldest x.history.convs b (lru b)) → x.history.add did msg nowMs remote lru = .ok h →
      Step x (.add did msg nowMs remote lru) ⟨h, x.oursAfter did msg remote h⟩
  | refused {did : String} {msg : StoredMsg} {nowMs : UInt64} {remote : Bool} {lru : Bool → Option String} {e : AddError} :
      x.history.add did msg nowMs remote lru = .error e → Step x (.add did msg nowMs remote lru) x
  | markRead (did : String) : Step x (.markRead did) ⟨x.history.markRead did, x.ours⟩
  | markDelivered (did id : String) : Step x (.markDelivered did id) ⟨(x.history.markDelivered did id).1, x.ours⟩
  | clear (did : String) : Step x (.clear did) ⟨x.history.clear did, x.ours.erase did⟩

/-- The states of a run whose steps all meet `ok`. -/
inductive Reach (ok : Watched → Use → Prop) : Watched → Prop where
  | default : Reach ok default
  | step {x x' : Watched} {use : Use} : Reach ok x → ok x use → x.Step use x' → Reach ok x'

def Spares (x : Watched) : Use → Prop
  | .add did msg _ _ _ => msg.weight ≤ maxConvBytes ∧ Retained (ownTail (x.history.messagesOf did ++ [msg]))
  | _ => True

end Watched

/-! ## What the operations do to the table -/

variable {h h' : History}

variable {lru : Bool → Option String} {remote : Bool}

theorem makeRoom_cases (hlru : ∀ b, History.Oldest h.convs b (lru b)) (hroom : h.makeRoom remote lru = some h') :
    ∃ victim conv, h.convs.get victim = some conv ∧ (remote = true → conv.solicited = false) ∧ h'.convs = h.convs.erase victim := by
  unfold History.makeRoom at hroom
  split at hroom
  · cases hroom
  · rename_i victim hvictim
    cases hroom
    rcases or_eq_some_iff.1 hvictim with hv | ⟨-, hv⟩
    · obtain ⟨conv, hconv, hsolicited, -⟩ := (hv ▸ hlru true :)
      exact ⟨victim, conv, hconv, fun _ => hsolicited rfl, rfl⟩
    · split at hv
      · cases hv
      · rename_i hlocal
        obtain ⟨conv, hconv, -⟩ := (hv ▸ hlru false :)
        exact ⟨victim, conv, hconv, fun hremote => absurd hremote hlocal, rfl⟩

theorem append_convs (h : History) (did : String) (msg : StoredMsg) (nowMs : UInt64) (remote : Bool) :
    ∃ conv : Conversation, (h.append did msg nowMs remote).convs = h.convs.insert did conv.trim ∧ conv.messages = h.messagesOf did ++ [msg] := by
  unfold History.append
  refine ⟨_, rfl, ?_⟩
  have hold : ((h.convs.get did).getD ⟨did, 0, 0, []⟩).messages = h.messagesOf did := by
    unfold History.messagesOf
    cases h.convs.get did <;> rfl
  rw [← hold]
  cases remote <;> rfl

variable {did : String} {msg : StoredMsg} {nowMs : UInt64}

/-- **A message goes to the end of its conversation**, which is trimmed; a new conversation may push another out. -/
theorem add_cases 
    (hlru : ∀ b, History.Oldest h.convs b (lru b)) (hadd : h.add did msg nowMs remote lru = .ok h') :
    ∃ (table : Table String Conversation) (conv : Conversation),
      h'.convs = table.insert did conv.trim ∧ conv.messages = h.messagesOf did ++ [msg] ∧
      ((table = h.convs ∧ (h.convs.get did ≠ none ∨ h.convs.size < maxConversations)) ∨
        ∃ victim old, h.convs.get did = none ∧ h.convs.get victim = some old ∧ (remote = true → old.solicited = false) ∧
          table = h.convs.erase victim) := by
  unfold History.add at hadd
  split at hadd
  · cases hadd
  · split at hadd
    · rename_i hfull
      split at hadd
      · cases hadd
      · rename_i g hroom
        cases hadd
        obtain ⟨victim, old, hold, hsolicited, hg⟩ := makeRoom_cases hlru hroom
        obtain ⟨conv, hconvs, hmessages⟩ := append_convs g did msg nowMs remote
        refine ⟨g.convs, conv, hconvs, ?_, Or.inr ⟨victim, old, hfull.1, hold, hsolicited, hg⟩⟩
        have hnone : g.convs.get did = none := by
          rw [hg, get_erase, hfull.1]
          simp
        rw [hmessages]
        simp [History.messagesOf, hnone, hfull.1]
    · rename_i hroom
      cases hadd
      obtain ⟨conv, hconvs, hmessages⟩ := append_convs h did msg nowMs remote
      refine ⟨h.convs, conv, hconvs, hmessages, Or.inl ⟨rfl, ?_⟩⟩
      by_cases hnone : h.convs.get did = none
      · exact Or.inr (not_le.1 (fun hle => hroom ⟨hnone, hle⟩))
      · exact Or.inl hnone

theorem deliver_marks {id : String} : ∀ {messages delivered : List StoredMsg}, History.deliver id messages = some delivered →
    delivered.map StoredMsg.mine = messages.map StoredMsg.mine ∧ delivered.map StoredMsg.weight = messages.map StoredMsg.weight
  | [], _, hd => by cases hd
  | msg :: messages, delivered, hd => by
    unfold History.deliver at hd
    split at hd
    · split at hd
      · cases hd
        exact ⟨rfl, rfl⟩
      · cases hd
    · obtain ⟨rest, hrest, rfl⟩ := map_eq_some_iff.1 hd
      obtain ⟨hmine, hweight⟩ := deliver_marks hrest
      exact ⟨congrArg (msg.mine :: ·) hmine, congrArg (msg.weight :: ·) hweight⟩

theorem any_mine_eq (messages : List StoredMsg) : messages.any StoredMsg.mine = (messages.map StoredMsg.mine).any id := by
  rw [List.any_map]
  rfl

theorem markDelivered_cases (h : History) (did id : String) : (h.markDelivered did id).1 = h ∨
    ∃ conv messages, h.convs.get did = some conv ∧ History.deliver id conv.messages = some messages ∧
      (h.markDelivered did id).1.convs = h.convs.insert did { conv with messages := messages } := by
  unfold History.markDelivered
  split
  · exact Or.inl rfl
  · rename_i conv hconv
    split
    · exact Or.inl rfl
    · rename_i messages hmessages
      exact Or.inr ⟨conv, messages, hconv, hmessages, rfl⟩

theorem markRead_cases (h : History) (did : String) : h.markRead did = h ∨
    ∃ conv, h.convs.get did = some conv ∧ (h.markRead did).convs = h.convs.insert did { conv with unread := 0 } := by
  unfold History.markRead
  split
  · exact Or.inl rfl
  · rename_i conv hconv
    split
    · exact Or.inr ⟨conv, hconv, rfl⟩
    · exact Or.inl rfl

theorem clear_cases (h : History) (did : String) : h.clear did = h ∨ (h.clear did).convs = h.convs.erase did := by
  unfold History.clear
  split
  · exact Or.inr rfl
  · exact Or.inl rfl

/-! ## Bounds, in every run -/

/-- The table is within its bound, and each conversation within its own. -/
structure Bounded (h : History) : Prop where
  size : h.convs.size ≤ maxConversations
  convs : ∀ did conv, h.convs.get did = some conv → Retained conv.messages

theorem Bounded.frame (hb : Bounded h) (hsame : h'.convs = h.convs) : Bounded h' := ⟨hsame ▸ hb.size, hsame ▸ hb.convs⟩

theorem Bounded.put (hb : Bounded h) {old : Conversation} (hold : h.convs.get did = some old)
    (hconv : Retained conv.messages) (hput : h'.convs = h.convs.insert did conv) : Bounded h' := by
  refine ⟨?_, fun d c hd => ?_⟩
  · rw [hput, size_replace hold]
    exact hb.size
  · rw [hput] at hd
    rcases of_get_insert hd with ⟨-, rfl⟩ | ⟨-, hd⟩
    · exact hconv
    · exact hb.convs d c hd

theorem Retained.delivered {messages delivered : List StoredMsg} {id : String} (h : Retained messages)
    (hd : History.deliver id messages = some delivered) : Retained delivered := by
  obtain ⟨hmine, hweight⟩ := deliver_marks hd
  have hlen : delivered.length = messages.length := by simpa using congrArg List.length hmine
  unfold Retained bytesOf
  rw [hweight, hlen]
  exact h

theorem bounded_add 
    (hb : Bounded h) (hlru : ∀ b, History.Oldest h.convs b (lru b)) (hadd : h.add did msg nowMs remote lru = .ok h') : Bounded h' := by
  obtain ⟨table, conv, hconvs, -, hcase⟩ := add_cases hlru hadd
  have hsize : table.get did ≠ none ∧ table.size ≤ maxConversations ∨ table.get did = none ∧ table.size < maxConversations := by
    obtain ⟨rfl, hroom⟩ | ⟨victim, old, hnone, hold, -, rfl⟩ := hcase
    · by_cases hget : h.convs.get did = none
      · exact Or.inr ⟨hget, hroom.resolve_left (fun hne => hne hget)⟩
      · exact Or.inl ⟨hget, hb.size⟩
    · refine Or.inr ⟨by rw [get_erase, hnone]; simp, ?_⟩
      have := size_erase hold
      have := hb.size
      omega
  have hsub : ∀ d c, table.get d = some c → h.convs.get d = some c := by
    intro d c hd
    obtain ⟨rfl, -⟩ | ⟨victim, old, -, -, -, rfl⟩ := hcase
    · exact hd
    · exact (of_get_erase hd).2
  refine ⟨?_, fun d c hd => ?_⟩
  · rw [hconvs]
    obtain ⟨hget, hle⟩ | ⟨hget, hlt⟩ := hsize
    · obtain ⟨old, hold⟩ := ne_none_iff_exists'.1 hget
      rwa [size_replace hold]
    · rw [size_insert hget]
      exact hlt
  · rw [hconvs] at hd
    rcases of_get_insert hd with ⟨-, rfl⟩ | ⟨-, hd⟩
    · exact trim_retained conv
    · exact hb.convs d c (hsub d c hd)

namespace Watched

variable {x x' : Watched} {use : Use}

theorem bounded_step (hb : Bounded x.history) (hstep : x.Step use x') : Bounded x'.history := by
  cases hstep with
  | add hlru hadd => exact bounded_add hb hlru hadd
  | refused => exact hb
  | markRead did =>
    obtain heq | ⟨conv, hconv, hput⟩ := markRead_cases x.history did
    · exact hb.frame (congrArg History.convs heq)
    · have hretained : Retained ({ conv with unread := 0 } : Conversation).messages := hb.convs did conv hconv
      exact hb.put hconv hretained hput
  | markDelivered did id =>
    obtain heq | ⟨conv, messages, hconv, hdeliver, hput⟩ := markDelivered_cases x.history did id
    · exact hb.frame (congrArg History.convs heq)
    · exact hb.put hconv ((hb.convs did conv hconv).delivered hdeliver) hput
  | clear did =>
    obtain heq | herase := clear_cases x.history did
    · exact hb.frame (congrArg History.convs heq)
    · refine ⟨?_, fun d c hd => ?_⟩
      · by_cases hget : x.history.convs.get did = none
        · rw [herase, erase_of_get_none hget]
          exact hb.size
        · obtain ⟨old, hold⟩ := ne_none_iff_exists'.1 hget
          have := size_erase hold
          have := hb.size
          rw [herase]
          omega
      · rw [herase] at hd
        obtain ⟨-, hd⟩ := of_get_erase hd
        exact hb.convs d c hd

theorem bounded_reach {ok : Watched → Use → Prop} (hrun : Reach ok x) : Bounded x.history := by
  induction hrun with
  | default => exact ⟨by simp [Watched.default, History.default], nofun⟩
  | step _ _ hstep ih => exact bounded_step ih hstep

/-! ## What is ours stays -/

/-- A conversation of ours is there and still says so, and no message outweighs a conversation. -/
structure Held (x : Watched) : Prop where
  ours : ∀ d ∈ x.ours, ∃ conv, x.history.convs.get d = some conv ∧ conv.solicited = true
  light : ∀ d conv, x.history.convs.get d = some conv → ∀ m ∈ conv.messages, m.weight ≤ maxConvBytes

theorem remote_keeps (hx : x.Held) {h : History}
    (hlru : ∀ b, History.Oldest x.history.convs b (lru b)) (hadd : x.history.add did msg nowMs true lru = .ok h) {d : String}
    (hd : d ∈ x.ours) : h.convs.get d ≠ none := by
  obtain ⟨conv, hconv, hsolicited⟩ := hx.ours d hd
  obtain ⟨table, new, hconvs, -, hcase⟩ := add_cases hlru hadd
  rw [hconvs, get_insert]
  split
  · exact some_ne_none _
  · obtain ⟨rfl, -⟩ | ⟨victim, old, -, hold, hstranger, rfl⟩ := hcase
    · rw [hconv]
      exact some_ne_none _
    · have hne : d ≠ victim := by
        intro heq
        rw [← heq, hconv] at hold
        rw [← Option.some.inj hold, hsolicited] at hstranger
        exact Bool.noConfusion (hstranger rfl)
      rw [get_erase_ne hne, hconv]
      exact some_ne_none _

theorem held_add (hx : x.Held) 
    {h : History} (hspares : x.Spares (.add did msg nowMs remote lru)) (hlru : ∀ b, History.Oldest x.history.convs b (lru b))
    (hadd : x.history.add did msg nowMs remote lru = .ok h) : Held ⟨h, x.oursAfter did msg remote h⟩ := by
  obtain ⟨table, conv, hconvs, hmessages, hcase⟩ := add_cases hlru hadd
  obtain ⟨hweight, hretained⟩ := hspares
  have hself : h.convs.get did = some conv.trim := by rw [hconvs, get_insert_self]
  have hsub : ∀ d c, d ≠ did → h.convs.get d = some c → x.history.convs.get d = some c := by
    intro d c hne hd
    rw [hconvs, get_insert_ne hne] at hd
    obtain ⟨rfl, -⟩ | ⟨victim, old, -, -, -, rfl⟩ := hcase
    · exact hd
    · exact (of_get_erase hd).2
  have holds : conv.solicited = true → conv.trim.solicited = true := by
    intro hsolicited
    rw [trim_solicited_iff hsolicited, hmessages]
    exact hretained
  -- what was ours and is still there is still ours
  have hkept : ∀ d ∈ x.ours, h.convs.get d ≠ none → ∃ c, h.convs.get d = some c ∧ c.solicited = true := by
    intro d hd hget
    obtain ⟨old, hold, hsolicited⟩ := hx.ours d hd
    by_cases hne : d = did
    · subst hne
      refine ⟨conv.trim, hself, holds ?_⟩
      have hmine : (x.history.messagesOf d).any StoredMsg.mine = true := by
        simp only [History.messagesOf, hold, elim_some]
        exact hsolicited
      simp [Conversation.solicited, hmessages, hmine]
    · obtain ⟨c, hc⟩ := ne_none_iff_exists'.1 hget
      rw [hsub d c hne hc, Option.some.injEq] at hold
      exact ⟨c, hc, hold ▸ hsolicited⟩
  refine ⟨fun d hd => ?_, fun d c hd m hm => ?_⟩
  · have hours : ∀ d ∈ (if remote then x.ours else x.ours.filter (fun d => h.convs.contains d = true)),
        ∃ c, h.convs.get d = some c ∧ c.solicited = true := by
      intro e he
      split at he
      · rename_i hremote
        subst hremote
        exact hkept e he (remote_keeps hx hlru hadd he)
      · obtain ⟨he, hcontains⟩ := Finset.mem_filter.1 he
        obtain ⟨c, hc⟩ := Table.contains_iff.1 hcontains
        exact hkept e he (by rw [hc]; exact some_ne_none c)
    unfold oursAfter at hd
    dsimp only at hd
    by_cases hmine : msg.mine = true
    · rw [if_pos hmine] at hd
      rcases Finset.mem_insert.1 hd with rfl | hd
      · refine ⟨conv.trim, hself, holds ?_⟩
        simp [Conversation.solicited, hmessages, hmine]
      · exact hours d hd
    · rw [if_neg hmine] at hd
      exact hours d hd
  · by_cases hne : d = did
    · subst hne
      rw [hself] at hd
      cases hd
      have hm' := (trim_suffix conv).subset hm
      rw [hmessages] at hm'
      rcases mem_append.1 hm' with hm' | hm'
      · unfold History.messagesOf at hm'
        cases hget : x.history.convs.get d with
        | none => rw [hget] at hm'; exact absurd hm' not_mem_nil
        | some old => rw [hget] at hm'; exact hx.light d old hget m hm'
      · rw [mem_singleton.1 hm']
        exact hweight
    · exact hx.light d c (hsub d c hne hd) m hm

theorem Held.put (hx : x.Held) {h : History} {old new : Conversation} (hold : x.history.convs.get did = some old)
    (hmine : new.messages.map StoredMsg.mine = old.messages.map StoredMsg.mine)
    (hweight : new.messages.map StoredMsg.weight = old.messages.map StoredMsg.weight)
    (hput : h.convs = x.history.convs.insert did new) : Held ⟨h, x.ours⟩ := by
  refine ⟨fun d hd => ?_, fun d c hd m hm => ?_⟩
  · obtain ⟨conv, hconv, hsolicited⟩ := hx.ours d hd
    by_cases hne : d = did
    · subst hne
      refine ⟨new, by simp [hput], ?_⟩
      rw [hold, Option.some.injEq] at hconv
      rw [Conversation.solicited, any_mine_eq, hmine, ← any_mine_eq, hconv]
      exact hsolicited
    · exact ⟨conv, by simp only [hput, get_insert_ne hne, hconv], hsolicited⟩
  · by_cases hne : d = did
    · subst hne
      simp only [hput, get_insert_self, Option.some.injEq] at hd
      subst hd
      have hin : m.weight ∈ old.messages.map StoredMsg.weight := hweight ▸ List.mem_map_of_mem hm
      obtain ⟨m', hm', heq⟩ := List.mem_map.1 hin
      exact heq ▸ hx.light d old hold m' hm'
    · simp only [hput, get_insert_ne hne] at hd
      exact hx.light d c hd m hm

theorem held_step (hx : x.Held) (hspares : x.Spares use) (hstep : x.Step use x') : x'.Held := by
  cases hstep with
  | add hlru hadd => exact held_add hx hspares hlru hadd
  | refused => exact hx
  | markRead did =>
    obtain heq | ⟨conv, hconv, hput⟩ := markRead_cases x.history did
    · rw [heq]
      exact hx
    · have hsame : ({ conv with unread := 0 } : Conversation).messages.map StoredMsg.mine = conv.messages.map StoredMsg.mine := rfl
      exact hx.put hconv hsame rfl hput
  | markDelivered did id =>
    obtain heq | ⟨conv, messages, hconv, hdeliver, hput⟩ := markDelivered_cases x.history did id
    · rw [heq]
      exact hx
    · exact hx.put hconv (deliver_marks hdeliver).1 (deliver_marks hdeliver).2 hput
  | clear did =>
    have hsub : ∀ d, d ≠ did → (x.history.clear did).convs.get d = x.history.convs.get d := by
      intro d hne
      obtain heq | herase := clear_cases x.history did
      · rw [heq]
      · rw [herase, get_erase_ne hne]
    have hgone : ∀ d c, (x.history.clear did).convs.get d = some c → x.history.convs.get d = some c := by
      intro d c hd
      obtain heq | herase := clear_cases x.history did
      · rwa [heq] at hd
      · rw [herase] at hd
        exact (of_get_erase hd).2
    refine ⟨fun d hd => ?_, fun d c hd => hx.light d c (hgone d c hd)⟩
    obtain ⟨hne, hd⟩ := Finset.mem_erase.1 hd
    obtain ⟨conv, hconv, hsolicited⟩ := hx.ours d hd
    exact ⟨conv, (hsub d hne).trans hconv, hsolicited⟩

theorem held_reach (hrun : Reach Spares x) : x.Held := by
  induction hrun with
  | default => exact ⟨fun _ hd => absurd hd (Finset.notMem_empty _), nofun⟩
  | step _ hspares hstep ih => exact held_step ih hspares hstep

/-- **While no add trims away our newest message, a message of another pushes out no conversation of ours**; the table and each
conversation stay within their bounds, and a conversation loses only its oldest messages. -/
theorem strangers_push_none {x : Watched} (hrun : Reach Spares x) :
    (∀ d ∈ x.ours, ∀ did msg nowMs lru h, (∀ b, History.Oldest x.history.convs b (lru b)) →
      x.history.add did msg nowMs true lru = .ok h → h.convs.get d ≠ none) ∧
    x.history.convs.size ≤ maxConversations ∧
    (∀ d conv, x.history.convs.get d = some conv → conv.messages.length ≤ maxMessages ∧ bytesOf conv.messages ≤ maxConvBytes) ∧
    (∀ did msg nowMs remote lru h, (∀ b, History.Oldest x.history.convs b (lru b)) → x.history.add did msg nowMs remote lru = .ok h →
      (∃ conv, h.convs.get did = some conv ∧ conv.messages <:+ x.history.messagesOf did ++ [msg]) ∧
      ∀ d, d ≠ did → h.convs.get d = x.history.convs.get d ∨ h.convs.get d = none) := by
  have hheld := held_reach hrun
  have hbounded := bounded_reach hrun
  refine ⟨fun d hd did msg nowMs lru h hlru hadd => remote_keeps hheld hlru hadd hd, hbounded.size, fun d conv hconv => ?_,
    fun did msg nowMs remote lru h hlru hadd => ?_⟩
  · obtain ⟨hlen, hbytes⟩ := hbounded.convs d conv hconv
    refine ⟨hlen, hbytes.elim id (fun hone => ?_)⟩
    have hlight := hheld.light d conv hconv
    match hmessages : conv.messages with
    | [] => exact Nat.zero_le _
    | [m] =>
      have := hlight m (by simp [hmessages])
      simpa [bytesOf] using this
    | _ :: _ :: _ => simp [hmessages] at hone
  · obtain ⟨table, conv, hconvs, hmessages, hcase⟩ := add_cases hlru hadd
    refine ⟨⟨conv.trim, by simp [hconvs], hmessages ▸ trim_suffix conv⟩, fun d hne => ?_⟩
    rw [hconvs, get_insert_ne hne]
    obtain ⟨rfl, -⟩ | ⟨victim, old, -, -, -, rfl⟩ := hcase
    · exact Or.inl rfl
    · rw [get_erase]
      split
      · exact Or.inr rfl
      · exact Or.inl rfl

end Watched

/-! ## A full table and a stranger -/

theorem exists_oldest (convs : Table String Conversation) (b : Bool) : ∃ o, History.Oldest convs b o := by
  classical
  let old : Finset String := convs.keys.filter (fun d => ∃ conv, convs.get d = some conv ∧ (b = true → conv.solicited = false))
  have hold : ∀ d, d ∈ old ↔ ∃ conv, convs.get d = some conv ∧ (b = true → conv.solicited = false) := by
    intro d
    rw [Finset.mem_filter, Table.mem_keys]
    exact ⟨fun h => h.2, fun h => ⟨h.elim (fun c hc => by rw [hc.1]; exact some_ne_none c), h⟩⟩
  by_cases hempty : old.Nonempty
  · obtain ⟨d, hd, hmin⟩ := Finset.exists_min_image old (fun d => ((convs.get d).elim 0 Conversation.updatedMs).toNat) hempty
    obtain ⟨conv, hconv, hsolicited⟩ := (hold d).1 hd
    refine ⟨some d, conv, hconv, hsolicited, fun d' c hc hs => ?_⟩
    have hle := hmin d' ((hold d').2 ⟨c, hc, hs⟩)
    simp only [hconv, hc, elim_some] at hle
    exact UInt64.le_iff_toNat_le.2 hle
  · refine ⟨none, fun d c hc => ?_⟩
    have hnot : ¬(b = true → c.solicited = false) := fun hs => hempty ⟨d, (hold d).2 ⟨c, hc, hs⟩⟩
    by_cases hb : b = true
    · exact ⟨hb, by simpa [hb] using hnot⟩
    · exact absurd (fun hb' => absurd hb' hb) hnot

theorem add_ok (h : History) (did : String) (msg : StoredMsg) (hnew : ∀ m ∈ h.messagesOf did, m.id ≠ msg.id)
    (hroom : h.convs.get did ≠ none ∨ h.convs.size < maxConversations) (nowMs : UInt64) (remote : Bool) (lru : Bool → Option String) :
    h.add did msg nowMs remote lru = .ok (h.append did msg nowMs remote) := by
  have hdup : ¬(h.convs.get did).any (fun conv => conv.messages.any (fun m => m.id = msg.id)) = true := by
    intro hany
    obtain ⟨conv, hconv, hm⟩ := (Option.any_eq_true _ _).1 hany
    obtain ⟨m, hm, hid⟩ := List.any_eq_true.1 hm
    exact hnew m (by simpa [History.messagesOf, hconv] using hm) (of_decide_eq_true hid)
  unfold History.add
  rw [if_neg hdup, if_neg]
  rintro ⟨hnone, hfull⟩
  exact hroom.elim (fun hne => hne hnone) (fun hlt => absurd hfull (not_le.2 hlt))

def nameOf (n : Nat) : String := String.ofList (List.replicate n 'x')

theorem nameOf_inj {m n : Nat} (h : nameOf m = nameOf n) : m = n := by
  have := congrArg String.toList h
  simpa [nameOf] using congrArg List.length this

def eve : String := "eve"

theorem nameOf_ne_eve (n : Nat) : nameOf n ≠ eve := by
  intro h
  have hmem : 'e' ∈ (nameOf n).toList := by
    rw [h]
    decide
  simp [nameOf] at hmem

def note (mine : Bool) (id : Nat) : StoredMsg := ⟨nameOf id, mine, 0, some "hi", none, if mine then .sent else .received⟩

namespace Watched

variable {ok : Watched → Use → Prop}

theorem reach_add {x : Watched} (hrun : Reach ok x) (did : String) (msg : StoredMsg) (remote : Bool)
    (hok : ∀ lru, ok x (.add did msg 0 remote lru)) (hnew : ∀ m ∈ x.history.messagesOf did, m.id ≠ msg.id)
    (hroom : x.history.convs.get did ≠ none ∨ x.history.convs.size < maxConversations) :
    Reach ok ⟨x.history.append did msg 0 remote, x.oursAfter did msg remote (x.history.append did msg 0 remote)⟩ := by
  obtain ⟨o, ho⟩ := exists_oldest x.history.convs true
  obtain ⟨o', ho'⟩ := exists_oldest x.history.convs false
  have hlru : ∀ b, History.Oldest x.history.convs b (if b then o else o') := by
    intro b
    cases b with
    | true => exact ho
    | false => exact ho'
  exact hrun.step (hok _) (Step.add hlru (add_ok x.history did msg hnew hroom 0 remote _))

/-- Conversations in which we wrote first, and eve's, which has no message of ours. -/
structure Crowd (n : Nat) (old : Conversation) (x : Watched) : Prop where
  size : x.history.convs.size = n + 1
  eve : x.history.convs.get eve = some old
  unsolicited : old.solicited = false
  others : ∀ d conv, x.history.convs.get d = some conv → d = Dm.eve ∨ conv.solicited = true ∧ ∃ i < n, d = nameOf i
  written : ∀ i < n, nameOf i ∈ x.ours ∧ x.history.convs.get (nameOf i) ≠ none

theorem Crowd.alone {x : Watched} {old : Conversation} (hconvs : x.history.convs = insert ∅ Dm.eve old)
    (hold : old.solicited = false) : Crowd 0 old x := by
  refine ⟨?_, by simp [hconvs], hold, fun d c hd => ?_, nofun⟩
  · rw [hconvs, size_insert (get_empty _), size_empty]
  · rw [hconvs, get_insert] at hd
    split at hd
    · exact Or.inl ‹_›
    · cases hd

theorem Crowd.more {n : Nat} {x : Watched} {old : Conversation} (h : Crowd n old x) (hrun : Reach ok x)
    (hok : ∀ lru, x.history.messagesOf (nameOf n) = [] → ok x (.add (nameOf n) (note true 0) 0 false lru))
    (hn : n + 1 < maxConversations) : ∃ x', Reach ok x' ∧ Crowd (n + 1) old x' ∧ (Dm.eve ∈ x.ours → Dm.eve ∈ x'.ours) := by
  have hnone : x.history.convs.get (nameOf n) = none := by
    by_contra hsome
    obtain ⟨conv, hconv⟩ := ne_none_iff_exists'.1 hsome
    rcases h.others _ conv hconv with heve | ⟨-, i, hi, hname⟩
    · exact nameOf_ne_eve n heve
    · exact absurd (nameOf_inj hname) (Nat.ne_of_gt hi)
  have hmessagesOf : x.history.messagesOf (nameOf n) = [] := by simp [History.messagesOf, hnone]
  obtain ⟨conv, happend, hmessages⟩ := append_convs x.history (nameOf n) (note true 0) 0 false
  have hsolicited : conv.trim.solicited = true := by
    rw [hmessagesOf] at hmessages
    rw [trim_solicited_iff (by simp [Conversation.solicited, hmessages, note]), hmessages]
    decide
  have hstill : ∀ d, x.history.convs.get d ≠ none → (x.history.append (nameOf n) (note true 0) 0 false).convs.get d ≠ none := by
    intro d hd
    rw [happend, get_insert]
    split
    · exact some_ne_none _
    · exact hd
  have hkept : ∀ d ∈ x.ours, x.history.convs.get d ≠ none →
      d ∈ x.oursAfter (nameOf n) (note true 0) false (x.history.append (nameOf n) (note true 0) 0 false) := fun d hd hsome =>
    Finset.mem_insert_of_mem (Finset.mem_filter.2 ⟨hd, Table.contains_iff.2 (ne_none_iff_exists'.1 (hstill d hsome))⟩)
  refine ⟨_, reach_add hrun (nameOf n) (note true 0) false (fun lru => hok lru hmessagesOf) (by simp [hmessagesOf])
    (Or.inr (by rw [h.size]; exact hn)), ⟨?_, ?_, h.unsolicited, fun d c hd => ?_, fun i hi => ?_⟩, fun hours => ?_⟩
  · dsimp only
    rw [happend, size_insert hnone, h.size]
  · dsimp only
    rw [happend, get_insert_ne (nameOf_ne_eve n).symm, h.eve]
  · dsimp only at hd
    rw [happend] at hd
    rcases of_get_insert hd with ⟨hname, rfl⟩ | ⟨-, hd⟩
    · exact Or.inr ⟨hsolicited, n, Nat.lt_succ_self n, hname⟩
    · rcases h.others d c hd with heve | ⟨hs, i, hi, hname⟩
      · exact Or.inl heve
      · exact Or.inr ⟨hs, i, Nat.lt_succ_of_lt hi, hname⟩
  · rcases Nat.lt_succ_iff_lt_or_eq.1 hi with hi | rfl
    · obtain ⟨hours, hsome⟩ := h.written i hi
      exact ⟨hkept _ hours hsome, hstill _ hsome⟩
    · refine ⟨Finset.mem_insert_self _ _, ?_⟩
      dsimp only
      rw [happend, get_insert_self]
      exact some_ne_none _
  · exact hkept _ hours (by rw [h.eve]; exact some_ne_none _)

theorem Crowd.grow {x : Watched} {old : Conversation} (h : Crowd 0 old x) (hrun : Reach ok x)
    (hok : ∀ (x : Watched) (n : Nat) lru, x.history.messagesOf (nameOf n) = [] → ok x (.add (nameOf n) (note true 0) 0 false lru)) :
    ∀ n < maxConversations, ∃ x', Reach ok x' ∧ Crowd n old x' ∧ (Dm.eve ∈ x.ours → Dm.eve ∈ x'.ours)
  | 0, _ => ⟨x, hrun, h, id⟩
  | n + 1, hn => by
    obtain ⟨x₁, hrun₁, h₁, hours₁⟩ := h.grow hrun hok n (Nat.lt_of_succ_lt hn)
    obtain ⟨x', hrun', h', hours'⟩ := h₁.more hrun₁ (hok x₁ n) hn
    exact ⟨x', hrun', h', fun hours => hours' (hours₁ hours)⟩

section Mallory

variable {n : Nat} {x : Watched} {old : Conversation} (hc : Crowd n old x)

include hc

theorem Crowd.mallory_new : x.history.convs.get "mallory" = none := by
  by_contra hsome
  obtain ⟨conv, hconv⟩ := ne_none_iff_exists'.1 hsome
  rcases hc.others _ conv hconv with heve | ⟨-, i, -, hname⟩
  · exact absurd heve (by decide)
  · have hmem : 'm' ∈ (nameOf i).toList := hname ▸ by decide
    simp [nameOf] at hmem

/-- Eve's conversation is the only one that has no message of ours. -/
theorem Crowd.oldest : ∃ lru : Bool → Option String, lru true = some Dm.eve ∧ ∀ b, History.Oldest x.history.convs b (lru b) := by
  obtain ⟨o', ho'⟩ := exists_oldest x.history.convs false
  have ho : History.Oldest x.history.convs true (some Dm.eve) := by
    refine ⟨old, hc.eve, fun _ => hc.unsolicited, fun d c hd hs => ?_⟩
    rcases hc.others d c hd with rfl | ⟨hsolicited, -⟩
    · rw [hc.eve, Option.some.injEq] at hd
      rw [hd]
      exact UInt64.le_refl _
    · rw [hs rfl] at hsolicited
      cases hsolicited
  refine ⟨fun b => if b then some Dm.eve else o', rfl, fun b => ?_⟩
  cases b with
  | true => exact ho
  | false => exact ho'

/-- In a full table eve's conversation makes room for a stranger's. -/
theorem Crowd.pushed (hfull : n + 1 = maxConversations) {lru : Bool → Option String} (hlru : lru true = some Dm.eve) :
    ∃ h', x.history.add "mallory" (note false 1) 0 true lru = .ok h' ∧ h'.convs.get Dm.eve = none := by
  let room : History := ⟨x.history.convs.erase Dm.eve, x.history.dirty.erase Dm.eve, insert Dm.eve x.history.removed⟩
  refine ⟨room.append "mallory" (note false 1) 0 true, ?_, ?_⟩
  · have hroom : x.history.makeRoom true lru = some room := by
      unfold History.makeRoom
      simp only [hlru]
      rfl
    unfold History.add
    rw [if_neg (by simp [hc.mallory_new]), if_pos ⟨hc.mallory_new, (hc.size.trans hfull).ge⟩, hroom]
  · obtain ⟨conv, happend, -⟩ := append_convs room "mallory" (note false 1) 0 true
    rw [happend, get_insert_ne (by decide)]
    exact get_erase_self _ _

end Mallory

theorem spares_first (x : Watched) (d : String) (mine remote : Bool) (lru : Bool → Option String)
    (hnone : x.history.messagesOf d = []) : x.Spares (.add d (note mine 0) 0 remote lru) := by
  refine ⟨by cases mine <;> decide, ?_⟩
  rw [hnone]
  cases mine <;> decide

/-- A full table in which one conversation is a stranger's: another stranger takes its place, and no conversation of ours goes. -/
theorem strangers_push_none_crowd : ∃ x lru h', Reach Spares x ∧ x.history.convs.size = maxConversations ∧
    (∀ i < 199, nameOf i ∈ x.ours) ∧ (∀ b, History.Oldest x.history.convs b (lru b)) ∧
    x.history.add "mallory" (note false 1) 0 true lru = .ok h' ∧ h'.convs.get eve = none ∧
    (∀ i < 199, h'.convs.get (nameOf i) ≠ none) ∧ ∀ d ∈ x.ours, h'.convs.get d ≠ none := by
  obtain ⟨conv, hconvs, hmessages⟩ := append_convs History.default eve (note false 0) 0 true
  have hunsolicited : conv.trim.solicited = false := by
    refine List.any_eq_false.2 (fun m hm => ?_)
    have hin := (trim_suffix conv).subset hm
    rw [hmessages] at hin
    rw [mem_singleton.1 hin]
    exact Bool.false_ne_true
  have hstart := @reach_add Spares _ Reach.default eve (note false 0) true (fun lru => spares_first _ eve false true lru rfl)
    nofun (Or.inr (by decide))
  obtain ⟨x, hrun, h, -⟩ := (Crowd.alone hconvs hunsolicited).grow hstart (fun x n lru => spares_first x _ true false lru) 199
    (by decide)
  obtain ⟨lru, hlru, hold⟩ := h.oldest
  obtain ⟨h', hadd, hpushed⟩ := h.pushed rfl hlru
  have hkept : ∀ d ∈ x.ours, h'.convs.get d ≠ none := fun d hd => (strangers_push_none hrun).1 d hd _ _ _ _ h' hold hadd
  exact ⟨x, lru, h', hrun, h.size, fun i hi => (h.written i hi).1, hold, hadd, hpushed, fun i hi => hkept _ (h.written i hi).1, hkept⟩

/-! ## A conversation of ours that a stranger pushes out -/

theorem reach_answered (n : Nat) : ∃ x conv, Reach (fun _ _ => True) x ∧ eve ∈ x.ours ∧
    x.history.convs = insert ∅ eve conv ∧ conv.messages <:+ note true 0 :: (List.range n).map (fun i => note false (i + 1)) := by
  induction n with
  | zero =>
    obtain ⟨conv, hconvs, hmessages⟩ := append_convs History.default eve (note true 0) 0 false
    have hrun := @reach_add (fun _ _ => True) _ Reach.default eve (note true 0) false (fun _ => trivial) nofun
      (Or.inr (by decide))
    refine ⟨_, conv.trim, hrun, ?_, hconvs, ?_⟩
    · simp [oursAfter, note]
    · have hsuffix := trim_suffix conv
      rw [hmessages] at hsuffix
      exact hsuffix
  | succ n ih =>
    obtain ⟨x, old, hrun, hours, hconvs, hold⟩ := ih
    have hget : x.history.convs.get eve = some old := by simp [hconvs]
    have hmessagesOf : x.history.messagesOf eve = old.messages := by simp [History.messagesOf, hget]
    obtain ⟨conv, happend, hmessages⟩ := append_convs x.history eve (note false (n + 1)) 0 true
    refine ⟨_, conv.trim, reach_add hrun eve (note false (n + 1)) true (fun _ => trivial) (fun m hm heq => ?_)
      (Or.inl (by simp [hget])), ?_, ?_, ?_⟩
    · rw [hmessagesOf] at hm
      have hin := hold.subset hm
      have hid : ∃ i ≤ n, m.id = nameOf i := by
        rcases mem_cons.1 hin with rfl | hin
        · exact ⟨0, Nat.zero_le n, rfl⟩
        · obtain ⟨i, hi, rfl⟩ := List.mem_map.1 hin
          exact ⟨i + 1, List.mem_range.1 hi, rfl⟩
      obtain ⟨i, hi, hname⟩ := hid
      have := nameOf_inj (hname.symm.trans heq)
      omega
    · simpa [oursAfter, note] using hours
    · rw [happend, hconvs]
      exact Finmap.insert_insert ..
    · have hsuffix := trim_suffix conv
      rw [hmessages, hmessagesOf] at hsuffix
      obtain ⟨t, ht⟩ := hold
      refine hsuffix.trans ⟨t, ?_⟩
      rw [range_succ, map_append, ← cons_append, ← ht, append_assoc]
      rfl

theorem answered_unsolicited (hlen : conv.messages.length ≤ maxMessages)
    (hsuffix : conv.messages <:+ note true 0 :: (List.range maxMessages).map (fun i => note false (i + 1))) :
    conv.solicited = false := by
  have hrest : conv.messages <:+ (List.range maxMessages).map (fun i => note false (i + 1)) := by
    rcases suffix_cons_iff.1 hsuffix with heq | hrest
    · rw [heq] at hlen
      simp at hlen
    · exact hrest
  refine List.any_eq_false.2 (fun m hm => ?_)
  obtain ⟨i, -, rfl⟩ := List.mem_map.1 (hrest.subset hm)
  exact Bool.false_ne_true

/-- Eve's conversation, in which we wrote, is pushed out by the first message of a stranger. -/
theorem stranger_pushes_eve : ∃ (x : Watched) (did : String) (msg : StoredMsg) (lru : Bool → Option String) (h : History),
    Reach (fun _ _ => True) x ∧ eve ∈ x.ours ∧ (∀ b, History.Oldest x.history.convs b (lru b)) ∧
    x.history.add did msg 0 true lru = .ok h ∧ h.convs.get eve = none := by
  obtain ⟨x₀, conv, hanswered, hours, hconvs, hsuffix⟩ := reach_answered maxMessages
  have hlen := ((bounded_reach hanswered).convs eve conv (by simp [hconvs])).1
  obtain ⟨x, hrun, h, hours'⟩ := (Crowd.alone hconvs (answered_unsolicited hlen hsuffix)).grow hanswered
    (fun _ _ _ _ => trivial) 199 (by decide)
  obtain ⟨lru, hlru, hold⟩ := h.oldest
  obtain ⟨h', hadd, hpushed⟩ := h.pushed rfl hlru
  exact ⟨x, "mallory", note false 1, lru, h', hrun, hours' hours, hold, hadd, hpushed⟩

end Watched

end Mistl.Dm
