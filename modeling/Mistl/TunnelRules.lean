import Mistl.ApiFrames
import Mistl.Lib.IpAddr
/-!
# TunnelRules — proposals and the spelling of hosts

`normalize` and `evaluate` of `tunnel/proposal_rules.rs`: rules for incoming forward proposals, matched by peer, protocol, port and host.
A listed host is compared as a text, the loopback class as an address.
-/
open List

namespace Mistl.ProposalRules

open Authz (isWhitespace)
open Folder (trim isControl)
open Nostr (splitOnce parseUnsigned)
open Api (eqIgnoreAsciiCase)

inductive Action where
  | allow
  | deny
  deriving DecidableEq

structure Rule where
  id : String
  action : Action
  peer : String
  proto : String
  ports : String
  hosts : String
  note : String
  createdMs : Nat
  deriving DecidableEq

/-! ## Fields -/

/-- `str::len` -/
def byteLen (cs : List Char) : Nat := (cs.map Char.utf8Size).sum

def isAsciiHexdigit (c : Char) : Bool := c.isDigit || (decide ('a' ≤ c) && decide (c ≤ 'f')) || (decide ('A' ≤ c) && decide (c ≤ 'F'))

def base58 : List Char := "123456789ABCDEFGHJKLMNPQRSTUVWXYZabcdefghijkmnopqrstuvwxyz".toList

/-- `did:key:z` and a key in base 58 -/
def isDidKey (peer : List Char) : Bool :=
  "did:key:z".toList.isPrefixOf peer && !(peer.drop 9).isEmpty && (peer.drop 9).all (· ∈ base58)

def normalizePeer (text : List Char) : Except String (List Char) :=
  let peer := trim text
  if peer = ['*'] then .ok peer
  else if byteLen peer = 16 ∧ peer.all isAsciiHexdigit then .ok (peer.map Char.toLower)
  else if byteLen peer ≤ 256 ∧ isDidKey peer then .ok peer
  else .error "peer must be *, a 16-hex node id, or a did:key:z identifier (at most 256 chars)"

def normalizeProto (text : List Char) : Except String (List Char) :=
  let proto := (trim text).map Char.toLower
  if proto = ['*'] ∨ proto = "tcp".toList ∨ proto = "udp".toList then .ok proto else .error "proto must be *, tcp, or udp"

def portNumber (text : List Char) : Except String Nat :=
  if text = [] ∨ text.all Char.isDigit = false then .error "ports must contain numbers in 1..=65535 or ranges A-B"
  else match (parseUnsigned (2 ^ 16) text).filter (fun port => port != 0) with
    | some port => .ok port
    | none => .error "port must be in 1..=65535"

def portRange (text : List Char) : Except String (Nat × Nat) :=
  match splitOnce '-' text with
  | some (first, last) => do
    let first ← portNumber (trim first)
    let last ← portNumber (trim last)
    if last < first then .error "port range start must not exceed end" else .ok (first, last)
  | none => do
    let port ← portNumber (trim text)
    .ok (port, port)

/-- The items of a list, each as `read` gives it; `seen` have been read already. -/
def readItems (limit : Nat) (excess : String) (read : List Char → Except String (List Char)) :
    Nat → List (List Char) → Except String (List (List Char))
  | _, [] => .ok []
  | seen, item :: items =>
    if seen = limit then .error excess
    else do
      let item ← read item
      let items ← readItems limit excess read (seen + 1) items
      .ok (item :: items)

def portItem (item : List Char) : Except String (List Char) := do
  let (first, last) ← portRange item
  .ok (if '-' ∈ item then (toString first).toList ++ '-' :: (toString last).toList else (toString first).toList)

def normalizePorts (text : List Char) : Except String (List Char) :=
  let text := trim text
  if text = ['*'] then .ok text
  else if 4096 < byteLen text then .error "ports specification is too long"
  else do
    let items ← readItems 32 "ports must contain at most 32 items" portItem 0 (text.splitOn ',')
    .ok ([','].intercalate items)

/-- `matches!(_, Ok(IpAddr::V6(_)))` -/
def isV6 (host : List Char) : Bool :=
  match IpAddr.parse host with
  | some (.v6 _) => true
  | _ => false

def bracketed (host : List Char) : Bool := host.head? = some '[' ∧ host.getLast? = some ']'

def inner (host : List Char) : List Char := (host.drop 1).dropLast

def unbracket (host : List Char) : List Char := if bracketed host then inner host else host

def badHost (host : List Char) : Bool :=
  host = [] ∨ 253 < byteLen host ∨ host.any (fun c => isWhitespace c || isControl c) ∨ host.any (· ∈ "[]/\\@*?#,".toList) ∨
    (':' ∈ host ∧ isV6 host = false)

def normalizeHost (text : List Char) : Except String (List Char) :=
  let host := trim text
  if bracketed host ∧ isV6 (inner host) = false then .error "bracketed host must be an IPv6 address"
  else if badHost (unbracket host) then
    .error "hosts must be host names or IP addresses (at most 253 chars, no whitespace)"
  else .ok ((unbracket host).map Char.toLower)

def normalizeHosts (text : List Char) : Except String (List Char) :=
  let text := trim text
  if eqIgnoreAsciiCase text "loopback".toList ∨ text = ['*'] then .ok (text.map Char.toLower)
  else if 8192 < byteLen text then .error "hosts specification is too long"
  else do
    let items ← readItems 16 "hosts must contain at most 16 items" normalizeHost 0 (text.splitOn ',')
    .ok ([','].intercalate items)

def Rule.normalize (r : Rule) : Except String Rule := do
  let peer ← normalizePeer r.peer.toList
  let proto ← normalizeProto r.proto.toList
  let ports ← normalizePorts r.ports.toList
  let hosts ← normalizeHosts r.hosts.toList
  let note := trim r.note.toList
  if 200 < note.length then .error "note must be at most 200 chars"
  else .ok { r with peer := String.ofList peer, proto := String.ofList proto, ports := String.ofList ports, hosts := String.ofList hosts, note := String.ofList note }

/-- A rule as `normalize` leaves it. -/
def Rule.Normalized (r : Rule) : Prop := ∃ raw : Rule, raw.normalize = .ok r

/-! ## Evaluation -/

def rsplitOnce (sep : Char) (cs : List Char) : Option (List Char × List Char) :=
  (splitOnce sep cs.reverse).map (fun p => (p.2.reverse, p.1.reverse))

def remoteHostPort (addr : List Char) : Option (List Char × Nat) :=
  match rsplitOnce ':' addr with
  | none => none
  | some (host, port) =>
    -- An IPv6 address and a port must be told apart by brackets.
    if ':' ∈ host ∧ bracketed host = false then none
    else match normalizeHost host, portNumber port with
      | .ok host, .ok port => some (host, port)
      | _, _ => none

def isLoopback (host : List Char) : Bool := eqIgnoreAsciiCase host "localhost".toList || (IpAddr.parse host).any IpAddr.isLoopback

inductive Decision where
  | autoAllow (id : String)
  | autoDeny (id : String)
  | ask
  deriving DecidableEq

def peerMatches (peer : String) (did : Option String) (peerId : String) : Bool :=
  peer == "*" || ("did:key:".toList.isPrefixOf peer.toList && did == some peer) ||
    (!"did:".toList.isPrefixOf peer.toList && peer == peerId)

def portMatches (ports : List Char) (port : Nat) : Bool :=
  ports = ['*'] || (ports.splitOn ',').any (fun item => match portRange item with
    | .ok (first, last) => decide (first ≤ port) && decide (port ≤ last)
    | .error _ => false)

def hostMatches (hosts host : List Char) : Bool := hosts = ['*'] || (hosts = "loopback".toList && isLoopback host) ||
    (hosts ≠ "loopback".toList && (hosts.splitOn ',').any (fun item => eqIgnoreAsciiCase item host))

/-- What `evaluate` does not `continue` at. -/
def Rule.covers (did : Option String) (peerId proto : String) (remote : List Char × Nat) (r : Rule) : Bool :=
  peerMatches r.peer did peerId && (r.proto == "*" || eqIgnoreAsciiCase r.proto.toList proto.toList) &&
    portMatches r.ports.toList remote.2 && hostMatches r.hosts.toList remote.1

/-- The loop of `evaluate`; `allow` is the first rule so far that allows. -/
def evaluateFrom (covers : Rule → Bool) (verified : Bool) : Option String → List Rule → Decision
  | allow, [] => allow.elim .ask .autoAllow
  | allow, r :: rules =>
    if covers r = false then evaluateFrom covers verified allow rules
    else if r.action = .deny then .autoDeny r.id
    else evaluateFrom covers verified (if verified && allow.isNone then some r.id else allow) rules

section

variable (nodeIdForDid : String → String)

def boundDid (peerId : String) (verifiedDid : Option String) : Option String := verifiedDid.filter fun did => nodeIdForDid did == peerId

def evaluate (rules : List Rule) (peerId : String) (verifiedDid : Option String) (proto remoteAddr : String) : Decision :=
  match remoteHostPort remoteAddr.toList with
  | none => .ask
  | some remote =>
    let did := boundDid nodeIdForDid peerId verifiedDid
    evaluateFrom (Rule.covers did peerId proto remote) did.isSome none rules

end

/-! ## A deny wins -/

theorem evaluateFrom_deny {covers : Rule → Bool} {verified : Bool} : ∀ {rules : List Rule} {allow : Option String},
    (∃ id, evaluateFrom covers verified allow rules = .autoDeny id) ↔ ∃ r ∈ rules, r.action = .deny ∧ covers r = true
  | [], allow => by cases allow <;> simp [evaluateFrom]
  | r :: rules, allow => by
    unfold evaluateFrom
    by_cases hcovers : covers r = false
    · rw [if_pos hcovers, evaluateFrom_deny]
      simp [hcovers]
    · rw [if_neg hcovers]
      by_cases hdeny : r.action = .deny
      · simp [hdeny, Bool.eq_true_of_not_eq_false hcovers]
      · rw [if_neg hdeny, evaluateFrom_deny]
        simp [hdeny]

theorem evaluateFrom_allow {covers : Rule → Bool} {verified : Bool} {id : String} : ∀ {rules : List Rule} {allow : Option String},
    evaluateFrom covers verified allow rules = .autoAllow id → (verified = true ∨ allow.isSome) ∧ ∀ r ∈ rules, covers r = true → r.action ≠ .deny
  | [], allow, h => by
    cases allow with
    | none => simp [evaluateFrom] at h
    | some id => exact ⟨.inr rfl, by simp⟩
  | r :: rules, allow, h => by
    unfold evaluateFrom at h
    by_cases hcovers : covers r = false
    · rw [if_pos hcovers] at h
      obtain ⟨hfrom, hrest⟩ := evaluateFrom_allow h
      refine ⟨hfrom, ?_⟩
      intro r' hr' hc
      rcases mem_cons.1 hr' with rfl | hr'
      · rw [hcovers] at hc
        cases hc
      · exact hrest r' hr' hc
    · rw [if_neg hcovers] at h
      by_cases hdeny : r.action = .deny
      · rw [if_pos hdeny] at h
        cases h
      · rw [if_neg hdeny] at h
        obtain ⟨hfrom, hrest⟩ := evaluateFrom_allow h
        constructor
        · cases hv : verified with
          | true => exact .inl rfl
          | false =>
            rw [hv] at hfrom
            simpa using hfrom
        · intro r' hr' hc
          rcases mem_cons.1 hr' with rfl | hr'
          · exact hdeny
          · exact hrest r' hr' hc

/-! ## Normalized hosts -/

theorem visible_of_letter {c : Char} (hlo : 65 ≤ c.toNat) (hhi : c.toNat ≤ 122) : isWhitespace c = false ∧ isControl c = false := by
  unfold isWhitespace isControl
  constructor
  · simp only [Bool.or_eq_false_iff, Bool.and_eq_false_iff, decide_eq_false_iff_not, beq_eq_false_iff_ne]
    omega
  · simp only [Bool.or_eq_false_iff, Bool.and_eq_false_iff, decide_eq_false_iff_not]
    omega

theorem visible_toLower (c : Char) : isWhitespace c.toLower = isWhitespace c ∧ isControl c.toLower = isControl c := by
  rcases IpAddr.toLower_eq c with h | ⟨hlo, hhi, heq⟩
  · rw [h]
    exact ⟨rfl, rfl⟩
  · obtain ⟨hspace, hcontrol⟩ := visible_of_letter hlo (by omega)
    obtain ⟨hspace', hcontrol'⟩ := visible_of_letter (c := c.toLower) (by omega) (by omega)
    exact ⟨hspace'.trans hspace.symm, hcontrol'.trans hcontrol.symm⟩

theorem utf8Size_toLower (c : Char) : c.toLower.utf8Size = c.utf8Size := by
  rcases IpAddr.toLower_eq c with h | ⟨hlo, hhi, heq⟩
  · rw [h]
  · rw [Json.utf8Size_ascii (by omega), Json.utf8Size_ascii (by omega)]

theorem byteLen_toLower (cs : List Char) : byteLen (cs.map Char.toLower) = byteLen cs := by
  unfold byteLen
  rw [map_map]
  exact congrArg List.sum (map_congr_left (fun c _ => utf8Size_toLower c))

theorem mem_toLower {cs : List Char} {sep : Char} (hsep : sep.toNat < 65 ∨ (90 < sep.toNat ∧ sep.toNat < 97) ∨ 122 < sep.toNat) :
    sep ∈ cs.map Char.toLower ↔ sep ∈ cs := by
  simp only [mem_map, IpAddr.toLower_eq_iff hsep, exists_eq_right]

theorem toLower_map_toLower (cs : List Char) : (cs.map Char.toLower).map Char.toLower = cs.map Char.toLower := by
  rw [map_map]
  exact map_congr_left fun c _ => IpAddr.toLower_toLower c

theorem forbidden_toLower (c : Char) : (decide (c.toLower ∈ "[]/\\@*?#,".toList)) = decide (c ∈ "[]/\\@*?#,".toList) := by
  refine decide_eq_decide.2 ?_
  simp only [show "[]/\\@*?#,".toList = ['[', ']', '/', '\\', '@', '*', '?', '#', ','] from rfl, mem_cons, not_mem_nil]
  rw [IpAddr.toLower_eq_iff (by decide), IpAddr.toLower_eq_iff (by decide), IpAddr.toLower_eq_iff (by decide),
    IpAddr.toLower_eq_iff (by decide), IpAddr.toLower_eq_iff (by decide), IpAddr.toLower_eq_iff (by decide),
    IpAddr.toLower_eq_iff (by decide), IpAddr.toLower_eq_iff (by decide), IpAddr.toLower_eq_iff (by decide)]

theorem isV6_toLower (host : List Char) : isV6 (host.map Char.toLower) = isV6 host := by
  unfold isV6
  rw [IpAddr.parse_toLower]

theorem badHost_toLower (host : List Char) : badHost (host.map Char.toLower) = badHost host := by
  have hcolon : ':' ∈ host.map Char.toLower ↔ ':' ∈ host := mem_toLower (by decide)
  unfold badHost
  rw [byteLen_toLower, isV6_toLower]
  simp only [map_eq_nil_iff, any_map, Function.comp_def, (visible_toLower _).1, (visible_toLower _).2, forbidden_toLower, hcolon]

theorem trim_of_visible {cs : List Char} (h : ∀ c ∈ cs, isWhitespace c = false) : trim cs = cs := by
  unfold trim
  have hhead : cs.dropWhile isWhitespace = cs := by
    cases cs with
    | nil => rfl
    | cons c cs => exact dropWhile_cons_of_neg (by simp [h c])
  rw [hhead, rdropWhile_eq_self_iff]
  intro hne hlast
  rw [h _ (getLast_mem hne)] at hlast
  cases hlast

/-- A host that `normalizeHost` gives back. -/
structure PlainHost (host : List Char) : Prop where
  good : badHost host = false
  lower : host.map Char.toLower = host

variable {host : List Char}

theorem PlainHost.visible (h : PlainHost host) : ∀ c ∈ host, isWhitespace c = false := by
  have hgood := h.good
  unfold badHost at hgood
  simp only [decide_eq_false_iff_not, not_or, any_eq_true, Bool.or_eq_true, not_exists, not_and] at hgood
  intro c hc
  exact Bool.eq_false_of_not_eq_true (hgood.2.2.1 c hc).1

theorem PlainHost.notMem (h : PlainHost host) {c : Char} (hc : c ∈ "[]/\\@*?#,".toList) : c ∉ host := by
  have hgood := h.good
  unfold badHost at hgood
  simp only [decide_eq_false_iff_not, not_or, any_eq_true, decide_eq_true_eq, not_exists, not_and] at hgood
  exact fun hmem => hgood.2.2.2.1 c hmem hc

theorem PlainHost.not_bracketed (h : PlainHost host) : bracketed host = false := by
  refine decide_eq_false ?_
  rintro ⟨hhead, -⟩
  exact h.notMem (c := '[') (by decide) (mem_of_mem_head? hhead)

theorem PlainHost.normalized (h : PlainHost host) : normalizeHost host = .ok host := by
  have hun : unbracket host = host := by
    unfold unbracket
    rw [h.not_bracketed]
    rfl
  unfold normalizeHost
  simp only [trim_of_visible h.visible, h.not_bracketed, hun, h.good, h.lower]
  rfl

/-- What a host is spelled like: without white space around it, without its brackets and in lower case. -/
def spelled (host : List Char) : List Char := (unbracket (trim host)).map Char.toLower

theorem normalizeHost_eq_ok {text host : List Char} (h : normalizeHost text = .ok host) : host = spelled text ∧ PlainHost host := by
  unfold normalizeHost at h
  simp only at h
  split at h
  · cases h
  · split at h
    · cases h
    · rename_i hgood
      cases h
      refine ⟨rfl, ?_, toLower_map_toLower _⟩
      rw [badHost_toLower]
      exact Bool.eq_false_of_not_eq_true hgood

theorem PlainHost.normalizedHosts (h : PlainHost host) (hclass : host ≠ "loopback".toList) : normalizeHosts host = .ok host := by
  have hloop : eqIgnoreAsciiCase host "loopback".toList = false := by
    unfold eqIgnoreAsciiCase
    rw [h.lower]
    exact beq_false_of_ne hclass
  have hstar : host ≠ ['*'] := fun heq => h.notMem (c := '*') (by decide) (heq ▸ mem_cons_self)
  have hlen : ¬ 8192 < byteLen host := by
    have hgood := h.good
    unfold badHost at hgood
    simp only [decide_eq_false_iff_not] at hgood
    omega
  have hsplit : host.splitOn ',' = [host] := splitOn_eq_singleton (h.notMem (by decide))
  unfold normalizeHosts
  simp only [trim_of_visible h.visible, hloop, hstar, hlen, hsplit, readItems, h.normalized]
  simp [bind, Except.bind]

def denyHost (host : List Char) : Rule :=
  { id := "r-00000000", action := .deny, peer := "*", proto := "*", ports := "*", hosts := String.ofList host, note := "", createdMs := 0 }

theorem denyHost_normalized (h : PlainHost host) (hclass : host ≠ "loopback".toList) : (denyHost host).Normalized := by
  refine ⟨denyHost host, ?_⟩
  have hpeer : normalizePeer "*".toList = .ok "*".toList := by decide
  have hproto : normalizeProto "*".toList = .ok "*".toList := by decide
  have hports : normalizePorts "*".toList = .ok "*".toList := by decide
  unfold Rule.normalize
  simp only [denyHost, String.toList_ofList, h.normalizedHosts hclass]
  rfl

theorem denyHost_covers {host other : List Char} (h : PlainHost host) (hother : PlainHost other) (hclass : host ≠ "loopback".toList)
    (did : Option String) (peerId proto : String) (port : Nat) :
    (denyHost host).covers did peerId proto (other, port) = decide (host = other) := by
  have hstar : host ≠ ['*'] := fun heq => h.notMem (c := '*') (by decide) (heq ▸ mem_cons_self)
  have hsplit : host.splitOn ',' = [host] := splitOn_eq_singleton (h.notMem (by decide))
  have hsame : eqIgnoreAsciiCase host other = decide (host = other) := by
    unfold eqIgnoreAsciiCase
    rw [h.lower, hother.lower]
    exact Bool.beq_eq_decide_eq host other
  have hhosts : hostMatches host other = decide (host = other) := by
    unfold hostMatches
    rw [hsplit, any_cons, hsame, decide_eq_false hstar, decide_eq_false hclass, decide_eq_true hclass]
    simp
  have hpeer : peerMatches "*" did peerId = true := by
    unfold peerMatches
    simp
  have hport : portMatches "*".toList port = true := by
    unfold portMatches
    simp
  unfold Rule.covers
  simp only [denyHost, String.toList_ofList, hhosts, hpeer, hport]
  simp

/-! ## The spelling decides -/

theorem remoteHostPort_eq_some {addr host : List Char} {port : Nat} (h : remoteHostPort addr = some (host, port)) :
    (rsplitOnce ':' addr).map (fun p => spelled p.1) = some host ∧ PlainHost host := by
  unfold remoteHostPort at h
  split at h
  · cases h
  · rename_i before after hsplit
    split at h
    · cases h
    · split at h
      · rename_i read number hread hnumber
        cases h
        obtain ⟨rfl, hplain⟩ := normalizeHost_eq_ok hread
        exact ⟨by rw [hsplit]; rfl, hplain⟩
      · cases h

def Names (addr : String) (ip : IpAddr) (port : Nat) : Prop :=
  ∃ host, remoteHostPort addr.toList = some (host, port) ∧ IpAddr.parse host = some ip

def spelledHost (addr : String) : Option (List Char) := (rsplitOnce ':' addr.toList).map fun p => spelled p.1

def Decision.SameKind : Decision → Decision → Prop
  | .autoAllow _, .autoAllow _ => True
  | .autoDeny _, .autoDeny _ => True
  | .ask, .ask => True
  | _, _ => False

theorem Decision.SameKind.refl (d : Decision) : d.SameKind d := by
  cases d <;> exact trivial

section

variable (nodeIdForDid : String → String)

def Denied (rules : List Rule) (peerId : String) (verifiedDid : Option String) (proto remoteAddr : String) : Prop :=
  ∃ remote, remoteHostPort remoteAddr.toList = some remote ∧
    ∃ r ∈ rules, r.action = .deny ∧ r.covers (boundDid nodeIdForDid peerId verifiedDid) peerId proto remote = true

theorem evaluate_deny_iff (rules : List Rule) (peerId : String) (verifiedDid : Option String) (proto remoteAddr : String) :
    (∃ id, evaluate nodeIdForDid rules peerId verifiedDid proto remoteAddr = .autoDeny id) ↔
      Denied nodeIdForDid rules peerId verifiedDid proto remoteAddr := by
  unfold evaluate Denied
  cases remoteHostPort remoteAddr.toList with
  | none => simp
  | some remote =>
    simp only [Option.some.injEq, exists_eq_left']
    exact evaluateFrom_deny

theorem evaluate_allow {rules : List Rule} {peerId : String} {verifiedDid : Option String} {proto remoteAddr id : String}
    (h : evaluate nodeIdForDid rules peerId verifiedDid proto remoteAddr = .autoAllow id) :
    (∃ did, verifiedDid = some did ∧ nodeIdForDid did = peerId) ∧ ¬ Denied nodeIdForDid rules peerId verifiedDid proto remoteAddr := by
  constructor
  · unfold evaluate at h
    cases hremote : remoteHostPort remoteAddr.toList with
    | none => simp [hremote] at h
    | some remote =>
      rw [hremote] at h
      rcases (evaluateFrom_allow h).1 with hv | hv
      · obtain ⟨did, hdid⟩ := Option.isSome_iff_exists.1 hv
        obtain ⟨hsome, hhash⟩ := Option.filter_eq_some_iff.1 hdid
        exact ⟨did, hsome, by simpa using hhash⟩
      · cases hv
  · intro hdenied
    obtain ⟨id', hdeny⟩ := (evaluate_deny_iff nodeIdForDid rules peerId verifiedDid proto remoteAddr).2 hdenied
    rw [h] at hdeny
    cases hdeny

theorem evaluate_denyHost {host other : List Char} {addr : String} {port : Nat} (h : PlainHost host) (hclass : host ≠ "loopback".toList)
    (hread : remoteHostPort addr.toList = some (other, port)) (peerId : String) (verifiedDid : Option String) (proto : String) :
    evaluate nodeIdForDid [denyHost host] peerId verifiedDid proto addr = if host = other then .autoDeny "r-00000000" else .ask := by
  obtain ⟨-, hother⟩ := remoteHostPort_eq_some hread
  unfold evaluate
  rw [hread]
  simp only [evaluateFrom, denyHost_covers h hother hclass]
  by_cases heq : host = other
  · simp [denyHost]
  · simp [heq]

/-- **Deny wins and only the peer's own DID allows, but one address matches by its spelling.**  Two texts of one internet address and port
are decided alike under all rules exactly when they spell the host alike. -/
theorem decided_by_spelling : (∀ (rules : List Rule) (peerId : String) (verifiedDid : Option String) (proto remoteAddr : String),
      ((∃ id, evaluate nodeIdForDid rules peerId verifiedDid proto remoteAddr = .autoDeny id) ↔
        Denied nodeIdForDid rules peerId verifiedDid proto remoteAddr) ∧
      ∀ id, evaluate nodeIdForDid rules peerId verifiedDid proto remoteAddr = .autoAllow id →
        (∃ did, verifiedDid = some did ∧ nodeIdForDid did = peerId) ∧ ¬ Denied nodeIdForDid rules peerId verifiedDid proto remoteAddr) ∧
    ∀ (a b : String) (ip : IpAddr) (port : Nat), Names a ip port → Names b ip port →
      ((∀ rules : List Rule, (∀ r ∈ rules, r.Normalized) → ∀ (peerId : String) (verifiedDid : Option String) (proto : String),
        (evaluate nodeIdForDid rules peerId verifiedDid proto a).SameKind (evaluate nodeIdForDid rules peerId verifiedDid proto b)) ↔
      spelledHost a = spelledHost b) := by
  refine ⟨fun rules peerId verifiedDid proto remoteAddr =>
    ⟨evaluate_deny_iff nodeIdForDid rules peerId verifiedDid proto remoteAddr, fun id h => evaluate_allow nodeIdForDid h⟩, ?_⟩
  rintro a b ip port ⟨hostA, hreadA, hipA⟩ ⟨hostB, hreadB, hipB⟩
  obtain ⟨hspellA, hplainA⟩ := remoteHostPort_eq_some hreadA
  obtain ⟨hspellB, hplainB⟩ := remoteHostPort_eq_some hreadB
  have hsame : spelledHost a = spelledHost b ↔ hostA = hostB := by
    unfold spelledHost
    rw [hspellA, hspellB, Option.some_inj]
  rw [hsame]
  constructor
  · -- A rule that lists the first spelling tells the two apart.
    intro hall
    by_contra hne
    have hclass : hostA ≠ "loopback".toList := by
      rintro rfl
      exact Option.some_ne_none _ (hipA.symm.trans (by decide))
    have hkind := hall [denyHost hostA] (by simpa using denyHost_normalized hplainA hclass) "" none ""
    rw [evaluate_denyHost nodeIdForDid hplainA hclass hreadA, evaluate_denyHost nodeIdForDid hplainA hclass hreadB, if_pos rfl,
      if_neg hne] at hkind
    exact hkind
  · rintro rfl rules - peerId verifiedDid proto
    unfold evaluate
    rw [hreadA, hreadB]
    exact Decision.SameKind.refl _

end

def shortAddr : String := "[2001:db8::1]:22"

def longAddr : String := "[2001:DB8:0:0:0:0:0:1]:22"

theorem shortAddr_reads : remoteHostPort shortAddr.toList = some ("2001:db8::1".toList, 22) ∧
    remoteHostPort longAddr.toList = some ("2001:db8:0:0:0:0:0:1".toList, 22) := by
  decide

theorem shortAddr_names : Names shortAddr (.v6 [8193, 3512, 0, 0, 0, 0, 0, 1]) 22 ∧ Names longAddr (.v6 [8193, 3512, 0, 0, 0, 0, 0, 1]) 22 :=
  ⟨⟨_, shortAddr_reads.1, by decide⟩, ⟨_, shortAddr_reads.2, by decide⟩⟩

theorem decided_by_spelling_short :
    (∀ rules : List Rule, (∀ r ∈ rules, r.Normalized) → ∀ (peerId : String) (verifiedDid : Option String) (proto : String),
      (evaluate (fun did => did) rules peerId verifiedDid proto shortAddr).SameKind
        (evaluate (fun did => did) rules peerId verifiedDid proto longAddr)) ↔ spelledHost shortAddr = spelledHost longAddr :=
  (decided_by_spelling (fun did => did)).2 shortAddr longAddr (.v6 [8193, 3512, 0, 0, 0, 0, 0, 1]) 22 shortAddr_names.1 shortAddr_names.2

/-- A deny of 2001:db8::1 does not meet the same address written out. -/
theorem written_out_passes : (denyHost "2001:db8::1".toList).normalize = .ok (denyHost "2001:db8::1".toList) ∧
    Names shortAddr (.v6 [8193, 3512, 0, 0, 0, 0, 0, 1]) 22 ∧ Names longAddr (.v6 [8193, 3512, 0, 0, 0, 0, 0, 1]) 22 ∧
    evaluate (fun did => did) [denyHost "2001:db8::1".toList] "peer" none "tcp" shortAddr = .autoDeny "r-00000000" ∧
    evaluate (fun did => did) [denyHost "2001:db8::1".toList] "peer" none "tcp" longAddr = .ask := by
  refine ⟨?_, shortAddr_names.1, shortAddr_names.2, ?_, ?_⟩ <;> decide

end Mistl.ProposalRules
