import Mistl.TunnelRules
/-!
# TunnelRuleForms — normalizing a rule twice

The fields `Rule::normalize` gives, of `tunnel/proposal_rules.rs`: each is left as it is when it is normalized again.
-/
open List Mistl.Json

namespace Mistl.ProposalRules

open Authz (isWhitespace)
open Folder (trim)
open Nostr (splitOnce parseUnsigned)
open Api (eqIgnoreAsciiCase)

/-! ## Lists of items -/

variable {read : List Char → Except String (List Char)} {excess : String}

theorem readItems_eq_ok {limit : Nat} :
    ∀ {items out : List (List Char)} {seen : Nat}, seen ≤ limit → readItems limit excess read seen items = .ok out →
      seen + out.length ≤ limit ∧ out.length = items.length ∧ ∀ o ∈ out, ∃ item, read item = .ok o
  | [], out, seen, hle, h => by
    cases h
    exact ⟨hle, rfl, by simp⟩
  | item :: items, out, seen, hle, h => by
    unfold readItems at h
    by_cases hseen : seen = limit
    · rw [if_pos hseen] at h
      cases h
    · rw [if_neg hseen] at h
      cases hread : read item with
      | error e => simp [hread, bind, Except.bind] at h
      | ok o =>
        cases hrest : readItems limit excess read (seen + 1) items with
        | error e => simp [hread, hrest, bind, Except.bind] at h
        | ok os =>
          simp only [hread, hrest, bind, Except.bind, Except.ok.injEq] at h
          subst h
          obtain ⟨hlen, hsame, hall⟩ := readItems_eq_ok (by omega) hrest
          refine ⟨by simp only [length_cons]; omega, by simp [hsame], ?_⟩
          intro o' ho'
          rcases mem_cons.1 ho' with rfl | ho'
          · exact ⟨item, hread⟩
          · exact hall o' ho'

theorem readItems_fixed {limit : Nat} :
    ∀ {items : List (List Char)} {seen : Nat}, seen + items.length ≤ limit → (∀ item ∈ items, read item = .ok item) →
      readItems limit excess read seen items = .ok items
  | [], _, _, _ => rfl
  | item :: items, seen, hle, h => by
    rw [length_cons] at hle
    have hrest : readItems limit excess read (seen + 1) items = .ok items :=
      readItems_fixed (by omega) (fun item hi => h item (mem_cons_of_mem _ hi))
    unfold readItems
    rw [if_neg (by omega), h item mem_cons_self, hrest]
    rfl

theorem mem_intercalate {c : Char} : ∀ {items : List (List Char)}, c ∈ [','].intercalate items → c = ',' ∨ ∃ item ∈ items, c ∈ item
  | [], h => by simp at h
  | [item], h => by
    rw [intercalate_singleton] at h
    exact .inr ⟨item, mem_singleton_self item, h⟩
  | item :: next :: items, h => by
    rw [intercalate_cons_cons, append_assoc, mem_append, mem_append] at h
    rcases h with h | h | h
    · exact .inr ⟨item, mem_cons_self, h⟩
    · exact .inl (by simpa using h)
    · rcases mem_intercalate h with rfl | ⟨other, hother, hc⟩
      · exact .inl rfl
      · exact .inr ⟨other, mem_cons_of_mem _ hother, hc⟩

theorem byteLen_append (a b : List Char) : byteLen (a ++ b) = byteLen a + byteLen b := by
  unfold byteLen
  rw [map_append, sum_append]

theorem byteLen_intercalate_le {bound : Nat} : ∀ {items : List (List Char)}, (∀ item ∈ items, byteLen item ≤ bound) →
    byteLen ([','].intercalate items) ≤ items.length * (bound + 1)
  | [], _ => Nat.zero_le _
  | [item], h => by
    have := h item mem_cons_self
    rw [intercalate_singleton, length_singleton]
    omega
  | item :: next :: items, h => by
    have := h item mem_cons_self
    have ih : byteLen ([','].intercalate (next :: items)) ≤ (next :: items).length * (bound + 1) :=
      byteLen_intercalate_le (fun item hi => h item (mem_cons_of_mem _ hi))
    have hcomma : byteLen [','] = 1 := by decide
    rw [intercalate_cons_cons, byteLen_append, byteLen_append, length_cons, Nat.add_mul]
    omega

/-! ## Ports -/

/-- A port, or a range of ports, as `normalizePorts` writes it. -/
def PortItem (item : List Char) : Prop := ∃ first last, 0 < first ∧ first ≤ last ∧ last < 2 ^ 16 ∧
    (item = Nat.toDigits 10 first ∧ first = last ∨ item = Nat.toDigits 10 first ++ '-' :: Nat.toDigits 10 last)

theorem parseUnsigned_toDigits {n : Nat} (h : n < 2 ^ 16) : parseUnsigned (2 ^ 16) (Nat.toDigits 10 n) = some n := by
  obtain ⟨c, t, hct, hc⟩ := toDigits_cons n
  have hall : (Nat.toDigits 10 n).all Char.isDigit = true := List.all_eq_true.2 (isDigit_toDigits n)
  have hvalue := Nat.ofDigitChars_ten_toDigits (n := n)
  have hfold : (Nat.toDigits 10 n).foldl (fun n c => 10 * n + (c.toNat - 48)) 0 = n := hvalue
  rw [hct] at hall hfold ⊢
  unfold parseUnsigned
  split
  · rename_i heq
    rw [(cons.inj heq).1] at hc
    exact absurd hc (by decide)
  · simp only [hall, hfold, if_pos h]
    simp

theorem portNumber_toDigits {n : Nat} (hpos : 0 < n) (h : n < 2 ^ 16) : portNumber (Nat.toDigits 10 n) = .ok n := by
  have hall : (Nat.toDigits 10 n).all Char.isDigit = true := List.all_eq_true.2 (isDigit_toDigits n)
  unfold portNumber
  rw [if_neg (by simp [hall]), parseUnsigned_toDigits h, Option.filter_some, if_pos (by simpa using hpos.ne')]

variable {text : List Char}

theorem portNumber_eq_ok {port : Nat} (h : portNumber text = .ok port) : 0 < port ∧ port < 2 ^ 16 := by
  unfold portNumber at h
  split at h
  · cases h
  · split at h
    · rename_i p hp
      cases h
      obtain ⟨hparse, hne⟩ := Option.filter_eq_some_iff.1 hp
      refine ⟨by simpa [Nat.pos_iff_ne_zero] using hne, ?_⟩
      unfold parseUnsigned at hparse
      simp only at hparse
      split at hparse
      all_goals
        split at hparse
        · cases hparse
        · split at hparse
          · rename_i hlt
            cases hparse
            exact hlt
          · cases hparse
    · cases h

theorem splitOnce_notMem {sep : Char} : ∀ {cs : List Char}, sep ∉ cs → splitOnce sep cs = none
  | [], _ => rfl
  | c :: cs, h => by
    rw [mem_cons, not_or] at h
    rw [splitOnce, if_neg (fun heq => h.1 heq.symm), splitOnce_notMem h.2]
    rfl

theorem splitOnce_append {sep : Char} {after : List Char} : ∀ {before : List Char}, sep ∉ before →
    splitOnce sep (before ++ sep :: after) = some (before, after)
  | [], _ => by
    rw [nil_append, splitOnce, if_pos rfl]
  | c :: before, h => by
    rw [mem_cons, not_or] at h
    rw [cons_append, splitOnce, if_neg (fun heq => h.1 heq.symm), splitOnce_append h.2]
    rfl

theorem mem_of_splitOnce {sep : Char} {cs : List Char} {p : List Char × List Char} (h : splitOnce sep cs = some p) : sep ∈ cs := by
  by_contra hn
  rw [splitOnce_notMem hn] at h
  cases h

theorem portRange_eq_ok {first last : Nat} (h : portRange text = .ok (first, last)) :
    0 < first ∧ first ≤ last ∧ last < 2 ^ 16 ∧ ('-' ∉ text → first = last) := by
  unfold portRange at h
  split at h
  · rename_i a b hsplit
    cases hfirst : portNumber (trim a) with
    | error e => simp [hfirst, bind, Except.bind] at h
    | ok f =>
      cases hlast : portNumber (trim b) with
      | error e => simp [hfirst, hlast, bind, Except.bind] at h
      | ok l =>
        simp only [hfirst, hlast, bind, Except.bind] at h
        split at h
        · cases h
        · cases h
          refine ⟨(portNumber_eq_ok hfirst).1, by omega, (portNumber_eq_ok hlast).2, ?_⟩
          intro hdash
          exact absurd (mem_of_splitOnce hsplit) hdash
  · cases hport : portNumber (trim text) with
    | error e => simp [hport, bind, Except.bind] at h
    | ok p =>
      simp only [hport] at h
      obtain ⟨rfl, rfl⟩ := h
      exact ⟨(portNumber_eq_ok hport).1, Nat.le_refl _, (portNumber_eq_ok hport).2, fun _ => rfl⟩

theorem digits_visible (n : Nat) : ∀ c ∈ Nat.toDigits 10 n, isWhitespace c = false ∧ c ≠ '-' ∧ c ≠ ',' := by
  intro c hc
  have hdigit := isDigit_toDigits n c hc
  refine ⟨?_, ne_of_isDigit hdigit (by decide), ne_of_isDigit hdigit (by decide)⟩
  rw [Char.isDigit_iff_toNat] at hdigit
  unfold isWhitespace
  have h48 : '0'.toNat = 48 := rfl
  have h57 : '9'.toNat = 57 := rfl
  simp only [Bool.or_eq_false_iff, Bool.and_eq_false_iff, decide_eq_false_iff_not, beq_eq_false_iff_ne]
  omega

theorem portItem_shape {text item : List Char} (h : portItem text = .ok item) : PortItem item := by
  unfold portItem at h
  cases hrange : portRange text with
  | error e => simp [hrange, bind, Except.bind] at h
  | ok range =>
    obtain ⟨first, last⟩ := range
    obtain ⟨hpos, hle, hlt, hsingle⟩ := portRange_eq_ok hrange
    simp only [hrange, bind, Except.bind, Except.ok.injEq] at h
    refine ⟨first, last, hpos, hle, hlt, ?_⟩
    rw [show (toString first).toList = Nat.toDigits 10 first from String.toList_ofList,
      show (toString last).toList = Nat.toDigits 10 last from String.toList_ofList] at h
    by_cases hdash : '-' ∈ text
    · rw [if_pos hdash] at h
      exact .inr h.symm
    · rw [if_neg hdash] at h
      exact .inl ⟨h.symm, hsingle hdash⟩

theorem PortItem.fixed {item : List Char} (h : PortItem item) : portItem item = .ok item := by
  obtain ⟨first, last, hpos, hle, hlt, ⟨rfl, rfl⟩ | rfl⟩ := h
  · have hdash : '-' ∉ Nat.toDigits 10 first := fun hc => (digits_visible first _ hc).2.1 rfl
    have hrange : portRange (Nat.toDigits 10 first) = .ok (first, first) := by
      unfold portRange
      rw [splitOnce_notMem hdash]
      simp only [trim_of_visible (fun c hc => (digits_visible first c hc).1), portNumber_toDigits hpos hlt]
      rfl
    unfold portItem
    simp only [hrange, if_neg hdash, bind, Except.bind, show (toString first).toList = Nat.toDigits 10 first from String.toList_ofList]
  · have hdash : '-' ∉ Nat.toDigits 10 first := fun hc => (digits_visible first _ hc).2.1 rfl
    have hrange : portRange (Nat.toDigits 10 first ++ '-' :: Nat.toDigits 10 last) = .ok (first, last) := by
      unfold portRange
      rw [splitOnce_append hdash]
      simp only [trim_of_visible (fun c hc => (digits_visible first c hc).1), trim_of_visible (fun c hc => (digits_visible last c hc).1),
        portNumber_toDigits hpos (lt_of_le_of_lt hle hlt), portNumber_toDigits (lt_of_lt_of_le hpos hle) hlt, bind, Except.bind]
      rw [if_neg (by omega)]
    unfold portItem
    simp only [hrange, show (toString first).toList = Nat.toDigits 10 first from String.toList_ofList,
      show (toString last).toList = Nat.toDigits 10 last from String.toList_ofList, bind, Except.bind]
    rw [if_pos (mem_append_right _ mem_cons_self)]

theorem length_toDigits_port {n : Nat} (h : n < 2 ^ 16) : (Nat.toDigits 10 n).length ≤ 5 :=
  (Nat.length_toDigits_le_iff (by decide) (by decide)).2 (lt_of_lt_of_le h (by decide))

theorem byteLen_toDigits (n : Nat) : byteLen (Nat.toDigits 10 n) = (Nat.toDigits 10 n).length := by
  have hone : ∀ c ∈ Nat.toDigits 10 n, c.utf8Size = 1 := by
    intro c hc
    have hdigit := isDigit_toDigits n c hc
    rw [Char.isDigit_iff_toNat] at hdigit
    exact utf8Size_ascii (lt_of_le_of_lt hdigit.2 (by decide))
  unfold byteLen
  rw [map_congr_left hone, map_const', sum_replicate_nat, Nat.mul_one]

theorem PortItem.plain {item : List Char} (h : PortItem item) :
    (∀ c ∈ item, isWhitespace c = false) ∧ ',' ∉ item ∧ byteLen item ≤ 11 := by
  obtain ⟨first, last, hpos, hle, hlt, ⟨rfl, rfl⟩ | rfl⟩ := h
  · refine ⟨fun c hc => (digits_visible first c hc).1, fun hc => (digits_visible first _ hc).2.2 rfl, ?_⟩
    have := length_toDigits_port hlt
    rw [byteLen_toDigits]
    omega
  · refine ⟨?_, ?_, ?_⟩
    · intro c hc
      rcases mem_append.1 hc with hc | hc
      · exact (digits_visible first c hc).1
      · rcases mem_cons.1 hc with rfl | hc
        · decide
        · exact (digits_visible last c hc).1
    · intro hc
      rcases mem_append.1 hc with hc | hc
      · exact (digits_visible first _ hc).2.2 rfl
      · rcases mem_cons.1 hc with heq | hc
        · exact absurd heq (by decide)
        · exact (digits_visible last _ hc).2.2 rfl
    · have h1 := length_toDigits_port (lt_of_le_of_lt hle hlt)
      have h2 := length_toDigits_port hlt
      have hdash : byteLen ('-' :: Nat.toDigits 10 last) = 1 + byteLen (Nat.toDigits 10 last) := byteLen_append ['-'] _
      rw [byteLen_append, hdash, byteLen_toDigits, byteLen_toDigits]
      omega

/-! ## Lists written and read -/

structure Joined (limit bound : Nat) (text : List Char) (items : List (List Char)) : Prop where
  eq : text = [','].intercalate items
  nonempty : items ≠ []
  count : items.length ≤ limit
  plain : ∀ item ∈ items, (∀ c ∈ item, isWhitespace c = false) ∧ ',' ∉ item ∧ byteLen item ≤ bound

variable {items : List (List Char)} {limit bound : Nat}

section

variable (h : Joined limit bound text items)

include h

theorem Joined.visible : ∀ c ∈ text, isWhitespace c = false := by
  intro c hc
  rw [h.eq] at hc
  rcases mem_intercalate hc with rfl | ⟨item, hitem, hc⟩
  · decide
  · exact (h.plain item hitem).1 c hc

theorem Joined.split : text.splitOn ',' = items := by
  rw [h.eq]
  exact splitOn_intercalate ',' (fun item hitem => (h.plain item hitem).2.1) h.nonempty

theorem Joined.byteLen_le : byteLen text ≤ limit * (bound + 1) := by
  rw [h.eq]
  exact (byteLen_intercalate_le (fun item hitem => (h.plain item hitem).2.2)).trans (Nat.mul_le_mul_right _ h.count)

end

theorem joined_of_readItems 
    (h : readItems limit excess read 0 (text.splitOn ',') = .ok items)
    (hread : ∀ {text item : List Char}, read text = .ok item → (∀ c ∈ item, isWhitespace c = false) ∧ ',' ∉ item ∧ byteLen item ≤ bound) :
    Joined limit bound ([','].intercalate items) items := by
  obtain ⟨hcount, hlen, hall⟩ := readItems_eq_ok (Nat.zero_le _) h
  refine ⟨rfl, ?_, by omega, ?_⟩
  · rintro rfl
    have hsplit : text.splitOn ',' = [] := length_eq_zero_iff.1 hlen.symm
    exact splitOnP_ne_nil _ _ hsplit
  · intro item hitem
    obtain ⟨raw, hraw⟩ := hall item hitem
    exact hread hraw

/-- What `normalizePorts` gives. -/
def PortsForm (ports : List Char) : Prop := ports = ['*'] ∨ ∃ items, Joined 32 11 ports items ∧ ∀ item ∈ items, PortItem item

theorem normalizePorts_form {text ports : List Char} (h : normalizePorts text = .ok ports) : PortsForm ports := by
  unfold normalizePorts at h
  simp only at h
  split at h
  · rename_i hstar
    cases h
    exact .inl hstar
  · split at h
    · cases h
    · cases hitems : readItems 32 "ports must contain at most 32 items" portItem 0 ((trim text).splitOn ',') with
      | error e => simp [hitems, bind, Except.bind] at h
      | ok items =>
        simp only [hitems, bind, Except.bind, Except.ok.injEq] at h
        subst h
        refine .inr ⟨items, joined_of_readItems hitems (fun hread => (portItem_shape hread).plain), ?_⟩
        intro item hitem
        obtain ⟨raw, hraw⟩ := (readItems_eq_ok (Nat.zero_le _) hitems).2.2 item hitem
        exact portItem_shape hraw

theorem PortsForm.fixed {ports : List Char} (h : PortsForm ports) : normalizePorts ports = .ok ports := by
  obtain rfl | ⟨items, hjoined, hitems⟩ := h
  · decide
  · have hread : readItems 32 "ports must contain at most 32 items" portItem 0 items = .ok items :=
      readItems_fixed (by have := hjoined.count; omega) (fun item hitem => (hitems item hitem).fixed)
    have hlen : ¬ 4096 < byteLen ports := by
      have := hjoined.byteLen_le
      omega
    unfold normalizePorts
    simp only [trim_of_visible hjoined.visible, if_neg hlen, hjoined.split, hread, bind, Except.bind, ← hjoined.eq, ite_self]

theorem PlainHost.plain {host : List Char} (h : PlainHost host) :
    (∀ c ∈ host, isWhitespace c = false) ∧ ',' ∉ host ∧ byteLen host ≤ 253 := by
  refine ⟨h.visible, h.notMem (by decide), ?_⟩
  have hgood := h.good
  unfold badHost at hgood
  simp only [decide_eq_false_iff_not] at hgood
  omega

/-- What `normalizeHosts` gives. -/
def HostsForm (hosts : List Char) : Prop :=
  hosts = ['*'] ∨ hosts = "loopback".toList ∨ ∃ items, Joined 16 253 hosts items ∧ ∀ item ∈ items, PlainHost item

theorem normalizeHosts_form {text hosts : List Char} (h : normalizeHosts text = .ok hosts) : HostsForm hosts := by
  unfold normalizeHosts at h
  simp only at h
  split at h
  · rename_i hclass
    cases h
    rcases hclass with hloop | hstar
    · refine .inr (.inl ?_)
      rw [eq_of_beq hloop]
      decide
    · refine .inl ?_
      rw [hstar]
      decide
  · split at h
    · cases h
    · cases hitems : readItems 16 "hosts must contain at most 16 items" normalizeHost 0 ((trim text).splitOn ',') with
      | error e => simp [hitems, bind, Except.bind] at h
      | ok items =>
        simp only [hitems, bind, Except.bind, Except.ok.injEq] at h
        subst h
        refine .inr (.inr ⟨items, joined_of_readItems hitems (fun hread => (normalizeHost_eq_ok hread).2.plain), ?_⟩)
        intro item hitem
        obtain ⟨raw, hraw⟩ := (readItems_eq_ok (Nat.zero_le _) hitems).2.2 item hitem
        exact (normalizeHost_eq_ok hraw).2

theorem HostsForm.fixed {hosts : List Char} (h : HostsForm hosts) : normalizeHosts hosts = .ok hosts := by
  obtain rfl | rfl | ⟨items, hjoined, hitems⟩ := h
  · decide
  · decide
  · have hread : readItems 16 "hosts must contain at most 16 items" normalizeHost 0 items = .ok items :=
      readItems_fixed (by have := hjoined.count; omega) (fun item hitem => (hitems item hitem).normalized)
    have hlen : ¬ 8192 < byteLen hosts := by
      have := hjoined.byteLen_le
      omega
    have hlower : hosts.map Char.toLower = hosts := by
      refine (map_congr_left ?_).trans (map_id hosts)
      intro c hc
      rw [hjoined.eq] at hc
      rcases mem_intercalate hc with rfl | ⟨item, hitem, hc⟩
      · decide
      · exact map_inj_left.1 ((hitems item hitem).lower.trans (map_id item).symm) c hc
    unfold normalizeHosts
    simp only [trim_of_visible hjoined.visible, if_neg hlen, hjoined.split, hread, bind, Except.bind, ← hjoined.eq, hlower, ite_self]

/-! ## The other fields -/

theorem hexdigit_toLower {c : Char} (h : isAsciiHexdigit c = true) : isAsciiHexdigit c.toLower = true ∧ isWhitespace c.toLower = false := by
  have hle : ∀ {a b : Char}, a ≤ b ↔ a.toNat ≤ b.toNat := fun {a b} => by
    rfl
  have hnum : ('0'.toNat = 48 ∧ '9'.toNat = 57) ∧ ('a'.toNat = 97 ∧ 'f'.toNat = 102) ∧ 'A'.toNat = 65 ∧ 'F'.toNat = 70 := by decide
  unfold isAsciiHexdigit at h ⊢
  unfold isWhitespace
  simp only [Bool.or_eq_true, Bool.and_eq_true, Char.isDigit_iff_toNat, decide_eq_true_eq, hle] at h ⊢
  have hlow : c.toLower.toNat = c.toNat ∨ c.toLower.toNat = c.toNat + 32 ∧ 65 ≤ c.toNat ∧ c.toNat ≤ 90 := by
    rcases IpAddr.toLower_eq c with hsame | ⟨hlo, hhi, heq⟩
    · exact .inl (congrArg Char.toNat hsame)
    · exact .inr ⟨heq, hlo, hhi⟩
  simp only [Bool.or_eq_false_iff, Bool.and_eq_false_iff, decide_eq_false_iff_not, beq_eq_false_iff_ne]
  omega

theorem normalizePeer_fixed {text peer : List Char} (h : normalizePeer text = .ok peer) :
    normalizePeer peer = .ok peer ∧ byteLen peer ≤ 256 := by
  unfold normalizePeer at h
  by_cases hstar : trim text = ['*']
  · rw [if_pos hstar] at h
    cases h
    rw [hstar]
    decide
  · rw [if_neg hstar] at h
    by_cases hhex : byteLen (trim text) = 16 ∧ (trim text).all isAsciiHexdigit = true
    · rw [if_pos hhex] at h
      cases h
      obtain ⟨hlen, hall⟩ := hhex
      have hlow : ∀ c ∈ (trim text).map Char.toLower, isAsciiHexdigit c = true ∧ isWhitespace c = false := by
        intro c hc
        obtain ⟨b, hb, rfl⟩ := mem_map.1 hc
        exact hexdigit_toLower (List.all_eq_true.1 hall b hb)
      have hlen' : byteLen ((trim text).map Char.toLower) = 16 := (byteLen_toLower _).trans hlen
      refine ⟨?_, by omega⟩
      have hne : (trim text).map Char.toLower ≠ ['*'] := by
        intro heq
        rw [heq] at hlen'
        exact absurd hlen' (by decide)
      unfold normalizePeer
      simp only [trim_of_visible (fun c hc => (hlow c hc).2), if_neg hne, toLower_map_toLower]
      rw [if_pos ⟨hlen', List.all_eq_true.2 (fun c hc => (hlow c hc).1)⟩]
    · rw [if_neg hhex] at h
      split at h
      · rename_i hdid
        cases h
        refine ⟨?_, hdid.1⟩
        unfold normalizePeer
        simp only [Api.trim_trim, if_neg hstar, if_neg hhex, if_pos hdid]
      · cases h

theorem normalizeProto_fixed {text proto : List Char} (h : normalizeProto text = .ok proto) :
    normalizeProto proto = .ok proto ∧ proto.length ≤ 3 := by
  unfold normalizeProto at h
  simp only at h
  split at h
  · rename_i hproto
    cases h
    rcases hproto with heq | heq | heq <;> rw [heq] <;> decide
  · cases h

/-- A rule that `normalize` leaves as it is. -/
structure Rule.Form (r : Rule) : Prop where
  peer : normalizePeer r.peer.toList = .ok r.peer.toList ∧ byteLen r.peer.toList ≤ 256
  proto : normalizeProto r.proto.toList = .ok r.proto.toList ∧ r.proto.toList.length ≤ 3
  ports : PortsForm r.ports.toList
  hosts : HostsForm r.hosts.toList
  note : trim r.note.toList = r.note.toList ∧ r.note.toList.length ≤ 200

theorem Rule.normalize_form {raw r : Rule} (h : raw.normalize = .ok r) : r.Form ∧ r.id = raw.id ∧ r.createdMs = raw.createdMs := by
  unfold Rule.normalize at h
  cases hpeer : normalizePeer raw.peer.toList with
  | error e => simp [hpeer, bind, Except.bind] at h
  | ok peer =>
    cases hproto : normalizeProto raw.proto.toList with
    | error e => simp [hpeer, hproto, bind, Except.bind] at h
    | ok proto =>
      cases hports : normalizePorts raw.ports.toList with
      | error e => simp [hpeer, hproto, hports, bind, Except.bind] at h
      | ok ports =>
        cases hhosts : normalizeHosts raw.hosts.toList with
        | error e => simp [hpeer, hproto, hports, hhosts, bind, Except.bind] at h
        | ok hosts =>
          simp only [hpeer, hproto, hports, hhosts] at h
          split at h
          · cases h
          · rename_i hnote
            cases h
            refine ⟨⟨?_, ?_, ?_, ?_, ?_⟩, rfl, rfl⟩
            · simpa only [String.toList_ofList] using normalizePeer_fixed hpeer
            · simpa only [String.toList_ofList] using normalizeProto_fixed hproto
            · simpa only [String.toList_ofList] using normalizePorts_form hports
            · simpa only [String.toList_ofList] using normalizeHosts_form hhosts
            · simpa only [String.toList_ofList] using ⟨Api.trim_trim _, Nat.not_lt.1 hnote⟩

theorem Rule.Form.fixed {r : Rule} (h : r.Form) : r.normalize = .ok r := by
  unfold Rule.normalize
  simp only [h.peer.1, h.proto.1, h.ports.fixed, h.hosts.fixed, h.note.1, bind, Except.bind, String.ofList_toList]
  rw [if_neg (Nat.not_lt.2 h.note.2)]

end Mistl.ProposalRules
