import Mistl.Crates
import Mistl.Lib.Records
import Mistl.Lib.Runs
/-!
# FolderAccess — who receives a folder's key

`handle_access_request` and the commands `approve`, `deny`, `allow` and `revoke` of `storage/folder_owner.rs`.  An
allowlist names a requester by its DID or by the node id its DID hashes to.
-/
open List

namespace Mistl.Folder
namespace Access

/-! ## Folders and requests -/

def maxAllowedRequesters : Nat := 256

def pendingMaxTotal : Nat := 64

def pendingMaxPerPeer : Nat := 4

/-- `PENDING_TTL`, in milliseconds -/
def pendingTtl : Nat := 120 * 1000

structure SharedFolder where
  folderId : String
  passphrase : String
  allowedRequesters : List String

/-- What a `folder-access-request` envelope says; `sender` is the DID its signature was verified against. -/
structure AccessRequest where
  sender : String
  targetNodeId : Option String
  folderId : Option String
  requestId : Option String
  accessPublicKey : Option String
  folderKeyHash : Option String

structure PendingAccess where
  id : String
  folderId : String
  requesterDid : String
  requestId : String
  accessPublicKey : String
  lastSeen : Nat

/-- A `folder-access-grant` that is sent: the key of a folder, for a requester. -/
structure Grant where
  folderId : String
  requestId : String
  requesterDid : String
  accessPublicKey : String
  deriving DecidableEq

/-- The table of shared folders, and the requests that wait for the owner. -/
structure State where
  table : List SharedFolder
  pending : List PendingAccess

section

variable (C : Crates) (matchesFolderKeyHash : String → String → String → Bool) (ownDid : String)

def isEd25519DidKey (did : String) : Bool :=
  match did.toList with
  | 'd' :: 'i' :: 'd' :: ':' :: 'k' :: 'e' :: 'y' :: ':' :: 'z' :: encoded =>
    if 64 < (String.ofList encoded).utf8ByteSize then false
    else match C.b58Decode (String.ofList encoded) with
      | some (0xed :: 0x01 :: key) => key.length = 32
      | _ => false
  | _ => false

def SharedFolder.isAllowed (folder : SharedFolder) (did : String) : Bool :=
  folder.allowedRequesters.any fun a => a == did || a == nodeIdForDid C did

def pendingId (requesterDid folderId : String) : String :=
  String.ofList ((C.digest (Json.utf8 requesterDid.toList ++ 0 :: Json.utf8 folderId.toList)).toList.take 12)

def prune (pending : List PendingAccess) (now : Nat) : List PendingAccess := pending.filter fun e => now - e.lastSeen < pendingTtl

def offer (pending : List PendingAccess) (req : PendingAccess) (now : Nat) : List PendingAccess :=
  let entries := prune pending now
  if entries.any (fun e => e.id == req.id) then
    Records.update PendingAccess.id req.id (fun e =>
      { e with requestId := req.requestId, accessPublicKey := req.accessPublicKey, lastSeen := now }) entries
  else if pendingMaxTotal ≤ entries.length then entries
  else if pendingMaxPerPeer ≤ entries.countP (fun e => e.requesterDid == req.requesterDid) then entries
  else entries ++ [req]

def validateAccessRequest (table : List SharedFolder) (request : AccessRequest) : Option (SharedFolder × String × String) :=
  if request.targetNodeId.any (fun target => target ≠ ownDid) then none
  else if isEd25519DidKey C request.sender = false then none
  else match request.folderId, request.requestId, request.accessPublicKey with
    | some folderId, some requestId, some accessPublicKey =>
      match Records.find SharedFolder.folderId folderId table with
      | none => none
      | some entry =>
        if matchesFolderKeyHash folderId entry.passphrase (request.folderKeyHash.getD "") then
          some (entry, requestId, accessPublicKey)
        else none
    | _, _, _ => none

/-- `handle_access_request`: what waits, and the grant that is sent without asking. -/
def handleAccessRequest (s : State) (request : AccessRequest) (autoGrant : Bool) (now : Nat) : State × Option Grant :=
  match validateAccessRequest C matchesFolderKeyHash ownDid s.table request with
  | none => (s, none)
  | some (entry, requestId, accessPublicKey) =>
    if autoGrant || entry.isAllowed C request.sender then
      (s, some ⟨entry.folderId, requestId, request.sender, accessPublicKey⟩)
    else
      let req : PendingAccess :=
        ⟨pendingId C request.sender entry.folderId, entry.folderId, request.sender, requestId, accessPublicKey, now⟩
      ({ s with pending := offer s.pending req now }, none)

/-! ## Commands -/

/-- `c.is_ascii_hexdigit()` -/
def isHexDigit (c : Char) : Bool := c.isDigit || (decide ('a' ≤ c) && decide (c ≤ 'f')) || (decide ('A' ≤ c) && decide (c ≤ 'F'))

def isNodeId (requester : String) : Bool := requester.utf8ByteSize == 16 && requester.toList.all isHexDigit

def retain (requester : String) (allowed : List String) : List String :=
  let targetNode := if isNodeId requester then requester else nodeIdForDid C requester
  allowed.filter fun a => a ≠ requester && a ≠ targetNode && nodeIdForDid C a ≠ targetNode

inductive Command where
  | request (request : AccessRequest) (autoGrant : Bool) (now : Nat)
  | approve (id : String) (remember written sent : Bool)
  | deny (id : String)
  | allow (folderId requester : String) (written : Bool)
  | revoke (folderId requester : String) (written : Bool)

def State.remove (s : State) (id : String) : State := { s with pending := s.pending.filter (fun e => e.id ≠ id) }

/-- The folder's allowlist is written as `f` leaves it. -/
def State.write (s : State) (folderId : String) (f : List String → List String) : State :=
  { s with table := Records.update SharedFolder.folderId folderId (fun e => { e with allowedRequesters := f e.allowedRequesters }) s.table }

def State.step (s : State) : Command → State
  | .request request autoGrant now => (handleAccessRequest C matchesFolderKeyHash ownDid s request autoGrant now).1
  | .approve id remember written sent =>
    match Records.find PendingAccess.id id s.pending with
    | none => s
    | some req =>
      match Records.find SharedFolder.folderId req.folderId s.table with
      | none => s.remove id
      | some entry =>
        let adds := remember && !entry.isAllowed C req.requesterDid && decide (entry.allowedRequesters.length < maxAllowedRequesters)
        if adds && !written then s
        else
          let s := if adds then s.write req.folderId (· ++ [req.requesterDid]) else s
          if sent then s.remove id else s
  | .deny id => s.remove id
  | .allow folderId requester written =>
    if !isNodeId requester && !isEd25519DidKey C requester then s
    else match Records.find SharedFolder.folderId folderId s.table with
      | none => s
      | some entry =>
        if requester ∈ entry.allowedRequesters ∨ maxAllowedRequesters ≤ entry.allowedRequesters.length ∨ written = false then s
        else s.write folderId (· ++ [requester])
  | .revoke folderId requester written =>
    match Records.find SharedFolder.folderId folderId s.table with
    | none => s
    | some _ => if written then s.write folderId (retain C requester) else s

abbrev run : State → List Command → Option State := Runs.run (fun s cmd => some (s.step C matchesFolderKeyHash ownDid cmd))

/-! ## Whom a command names -/

def lower (requester : String) : String := String.ofList (requester.toList.map Char.toLower)

def Denotes (requester did : String) : Prop := requester = did ∨ lower requester = nodeIdForDid C did

instance (requester did : String) : Decidable (Denotes C requester did) := by
  unfold Denotes
  infer_instance

/-- No `allow` and no `approve` that names the DID, for the folder. -/
def spares (folderId did : String) (s : State) : Command → Bool
  | .allow folderId' requester _ => folderId' ≠ folderId || !decide (Denotes C requester did)
  | .approve id _ _ _ => s.pending.all (fun e => e.id ≠ id || e.folderId ≠ folderId || e.requesterDid ≠ did)
  | _ => true

end

/-! ## What waits -/

variable {C : Crates} {matchesFolderKeyHash : String → String → String → Bool} {ownDid : String} {s s' : State}

def Proved (C : Crates) (s : State) : Prop := ∀ e ∈ s.pending, isEd25519DidKey C e.requesterDid = true

theorem mem_update {id : String} {req : PendingAccess} {now : Nat} : ∀ {entries : List PendingAccess} {e : PendingAccess},
    e ∈ Records.update PendingAccess.id id (fun e =>
      { e with requestId := req.requestId, accessPublicKey := req.accessPublicKey, lastSeen := now }) entries →
    ∃ e' ∈ entries, e.requesterDid = e'.requesterDid
  | [], e, h => absurd h not_mem_nil
  | x :: entries, e, h => by
    unfold Records.update at h
    split at h
    · rcases mem_cons.1 h with rfl | h
      · exact ⟨x, mem_cons_self, rfl⟩
      · exact ⟨e, mem_cons_of_mem x h, rfl⟩
    · rcases mem_cons.1 h with rfl | h
      · exact ⟨e, mem_cons_self, rfl⟩
      · obtain ⟨e', he', heq⟩ := mem_update h
        exact ⟨e', mem_cons_of_mem x he', heq⟩

theorem mem_offer {pending : List PendingAccess} {req e : PendingAccess} {now : Nat} (h : e ∈ offer pending req now) :
    (∃ e' ∈ pending, e.requesterDid = e'.requesterDid) ∨ e = req := by
  have hprune : ∀ {e}, e ∈ prune pending now → e ∈ pending := fun he => mem_of_mem_filter he
  unfold offer at h
  dsimp only at h
  split at h
  · obtain ⟨e', he', heq⟩ := mem_update h
    exact Or.inl ⟨e', hprune he', heq⟩
  · split at h
    · exact Or.inl ⟨e, hprune h, rfl⟩
    · split at h
      · exact Or.inl ⟨e, hprune h, rfl⟩
      · rcases mem_append.1 h with h | h
        · exact Or.inl ⟨e, hprune h, rfl⟩
        · exact Or.inr (mem_singleton.1 h)

variable {entry : SharedFolder} {table : List SharedFolder}

theorem validate_eq_some {request : AccessRequest} {requestId accessPublicKey : String}
    (h : validateAccessRequest C matchesFolderKeyHash ownDid table request = some (entry, requestId, accessPublicKey)) :
    isEd25519DidKey C request.sender = true ∧ Records.find SharedFolder.folderId entry.folderId table = some entry := by
  unfold validateAccessRequest at h
  split at h
  · cases h
  · split at h
    · cases h
    · rename_i hdid
      refine ⟨by simpa using hdid, ?_⟩
      split at h
      · split at h
        · cases h
        · rename_i entry' hentry
          split at h
          · cases h
            rw [Records.find_key hentry]
            exact hentry
          · cases h
      · cases h

theorem step_table (s : State) (request : AccessRequest) (autoGrant : Bool) (now : Nat) :
    (handleAccessRequest C matchesFolderKeyHash ownDid s request autoGrant now).1.table = s.table := by
  unfold handleAccessRequest
  split
  · rfl
  · split <;> rfl

theorem proved_request (h : Proved C s) (request : AccessRequest) (autoGrant : Bool) (now : Nat) :
    Proved C (handleAccessRequest C matchesFolderKeyHash ownDid s request autoGrant now).1 := by
  unfold handleAccessRequest
  split
  · exact h
  · rename_i entry requestId accessPublicKey hvalid
    split
    · exact h
    · intro e he
      rcases mem_offer he with ⟨e', he', heq⟩ | rfl
      · rw [heq]
        exact h e' he'
      · exact (validate_eq_some hvalid).1

theorem Proved.remove (h : Proved C s) (id : String) : Proved C (s.remove id) := fun e he => h e (mem_of_mem_filter he)

theorem proved_step (h : Proved C s) (cmd : Command) : Proved C (s.step C matchesFolderKeyHash ownDid cmd) := by
  cases cmd with
  | request request autoGrant now => exact proved_request h request autoGrant now
  | deny id => exact h.remove id
  | approve id remember written sent =>
    unfold State.step
    dsimp only
    split
    · exact h
    · split
      · exact h.remove id
      · split
        · exact h
        · split
          · split
            · exact Proved.remove (s := s.write _ _) h id
            · exact h.remove id
          · split
            · exact h
            · exact h
  | allow folderId requester written =>
    unfold State.step
    dsimp only
    split
    · exact h
    · split
      · exact h
      · split
        · exact h
        · exact h
  | revoke folderId requester written =>
    unfold State.step
    dsimp only
    split
    · exact h
    · split
      · exact h
      · exact h

/-! ## Allowlists -/

def Out (C : Crates) (folderId did : String) (s : State) : Prop :=
  ∀ entry, Records.find SharedFolder.folderId folderId s.table = some entry → ∀ a ∈ entry.allowedRequesters, a ≠ did ∧ a ≠ nodeIdForDid C did

theorem Out.not_allowed {folderId did : String} (h : Out C folderId did s)
    (hentry : Records.find SharedFolder.folderId folderId s.table = some entry) : entry.isAllowed C did = false := by
  refine any_eq_false.2 (fun a ha => ?_)
  obtain ⟨hdid, hnode⟩ := h entry hentry a ha
  simp [hdid, hnode]

variable {f : List String → List String}

theorem find_write {s : State} {folderId : String} {folderId' : String}
    (h : Records.find SharedFolder.folderId folderId' (s.write folderId f).table = some entry) :
    ∃ old, Records.find SharedFolder.folderId folderId' s.table = some old ∧
      entry.allowedRequesters = if folderId' = folderId then f old.allowedRequesters else old.allowedRequesters := by
  have hkey : ∀ e : SharedFolder, SharedFolder.folderId { e with allowedRequesters := f e.allowedRequesters } = e.folderId :=
    fun _ => rfl
  have h' := (Records.find_update hkey folderId').symm.trans h
  split at h'
  · rename_i heq
    obtain ⟨old, hold, rfl⟩ := Option.map_eq_some_iff.1 h'
    exact ⟨old, heq ▸ hold, by simp [heq]⟩
  · rename_i hne
    exact ⟨entry, h', by simp [hne]⟩

theorem Out.push {folderId did folderId' requester : String} (h : Out C folderId did s)
    (hother : folderId' = folderId → requester ≠ did ∧ requester ≠ nodeIdForDid C did) :
    Out C folderId did (s.write folderId' (· ++ [requester])) := by
  intro entry hentry a ha
  obtain ⟨old, hold, hallowed⟩ := find_write hentry
  rw [hallowed] at ha
  split at ha
  · rename_i heq
    rcases mem_append.1 ha with ha | ha
    · exact h old hold a ha
    · rw [mem_singleton.1 ha]
      exact hother heq.symm
  · exact h old hold a ha

theorem Out.filter {folderId did folderId' : String} (h : Out C folderId did s)
    (hf : ∀ l, ∀ a ∈ f l, a ∈ l) : Out C folderId did (s.write folderId' f) := by
  intro entry hentry a ha
  obtain ⟨old, hold, hallowed⟩ := find_write hentry
  rw [hallowed] at ha
  split at ha
  · exact h old hold a (hf _ a ha)
  · exact h old hold a ha

/-- A digest is written in lower-case hexadecimal digits, as `hex::encode` does. -/
def HexDigest (C : Crates) : Prop :=
  ∀ bytes, ∀ c ∈ (C.digest bytes).toList, (c.isDigit || (decide ('a' ≤ c) && decide (c ≤ 'f'))) = true

theorem toLower_of_lowerHex {c : Char} (h : (c.isDigit || (decide ('a' ≤ c) && decide (c ≤ 'f'))) = true) : c.toLower = c := by
  unfold Char.toLower
  rw [dif_neg]
  rintro ⟨hlo, hhi⟩
  simp only [Char.isDigit, Bool.or_eq_true, Bool.and_eq_true, decide_eq_true_eq, Char.le_def, UInt32.le_iff_toNat_le] at h hlo hhi
  have h9 : ('9' : Char).val.toNat = 57 := by decide
  have hA : ('A' : Char).val.toNat = 65 := by decide
  have hZ : ('Z' : Char).val.toNat = 90 := by decide
  have ha : ('a' : Char).val.toNat = 97 := by decide
  omega

theorem lower_nodeId (hhex : HexDigest C) (did : String) : lower (nodeIdForDid C did) = nodeIdForDid C did := by
  unfold lower nodeIdForDid
  rw [String.toList_ofList]
  refine congrArg String.ofList ((map_congr_left (fun c hc => ?_)).trans (map_id _))
  exact toLower_of_lowerHex (hhex _ c (mem_of_mem_take hc))

theorem k_mem_did {did : String} (h : isEd25519DidKey C did = true) : 'k' ∈ did.toList := by
  unfold isEd25519DidKey at h
  split at h
  · rename_i encoded heq
    simp [heq]
  · cases h

theorem k_notMem_nodeId (hhex : HexDigest C) (did : String) : 'k' ∉ (nodeIdForDid C did).toList := by
  intro hk
  unfold nodeIdForDid at hk
  rw [String.toList_ofList] at hk
  exact absurd (hhex _ 'k' (mem_of_mem_take hk)) (by decide)

theorem did_ne_nodeId (hhex : HexDigest C) {requester : String} (h : isEd25519DidKey C requester = true) (did : String) :
    requester ≠ nodeIdForDid C did := fun heq => k_notMem_nodeId hhex did (heq ▸ k_mem_did h)

theorem isNodeId_did {did : String} (h : isEd25519DidKey C did = true) : isNodeId did = false := by
  by_contra hnode
  simp only [isNodeId, Bool.not_eq_false, Bool.and_eq_true, List.all_eq_true] at hnode
  exact absurd (hnode.2 'k' (k_mem_did h)) (by decide)

theorem not_denotes (hhex : HexDigest C) {requester did : String} (h : ¬Denotes C requester did) :
    requester ≠ did ∧ requester ≠ nodeIdForDid C did := by
  refine ⟨fun heq => h (Or.inl heq), fun heq => h (Or.inr ?_)⟩
  rw [heq]
  exact lower_nodeId hhex did

theorem out_step (hhex : HexDigest C) {folderId did : String} (hproved : Proved C s) (h : Out C folderId did s) {cmd : Command}
    (hspares : spares C folderId did s cmd = true) : Out C folderId did (s.step C matchesFolderKeyHash ownDid cmd) := by
  have hremove : ∀ {s : State} (id : String), Out C folderId did s → Out C folderId did (s.remove id) := fun id h => h
  cases cmd with
  | request request autoGrant now =>
    unfold Out State.step
    rw [step_table]
    exact h
  | deny id => exact h
  | approve id remember written sent =>
    unfold State.step
    dsimp only
    split
    · exact h
    · rename_i req hreq
      split
      · exact h
      · split
        · exact h
        · -- who is remembered is another, or it is for another folder
          have hpush : Out C folderId did (s.write req.folderId (· ++ [req.requesterDid])) := by
            refine h.push (fun hfolder => ⟨fun hdid => ?_, did_ne_nodeId hhex (hproved req (Records.mem_of_find hreq)) did⟩)
            have hwaits := List.all_eq_true.1 hspares req (Records.mem_of_find hreq)
            simp [Records.find_key hreq, hfolder, hdid] at hwaits
          split
          · split
            · exact hremove id hpush
            · exact h
          · split
            · exact hpush
            · exact h
  | allow folderId' requester written =>
    unfold State.step
    dsimp only
    split
    · exact h
    · split
      · exact h
      · split
        · exact h
        · refine h.push (fun hfolder => not_denotes hhex ?_)
          simpa [spares, hfolder] using hspares
  | revoke folderId' requester written =>
    unfold State.step
    dsimp only
    split
    · exact h
    · split
      · exact h.filter (fun l a ha => mem_of_mem_filter ha)
      · exact h

theorem out_revoke (hhex : HexDigest C) {folderId requester did : String} (hdid : isEd25519DidKey C did = true)
    (hnamed : isEd25519DidKey C requester = true ∨ isNodeId requester = true ∧ lower requester = requester)
    (hdenotes : Denotes C requester did) :
    Out C folderId did (s.step C matchesFolderKeyHash ownDid (.revoke folderId requester true)) := by
  have hgone : ∀ allowed, ∀ a ∈ retain C requester allowed, a ≠ did ∧ a ≠ nodeIdForDid C did := by
    intro allowed a ha
    have hkept := (mem_filter.1 ha).2
    simp only [Bool.and_eq_true, decide_eq_true_eq] at hkept
    obtain ⟨⟨hname, htarget⟩, hnode⟩ := hkept
    rcases hnamed with hreq | ⟨hreq, hlower⟩
    · -- a DID denotes itself only
      have hself : requester = did := by
        refine hdenotes.resolve_right (fun heq => k_notMem_nodeId hhex did ?_)
        rw [← heq, lower, String.toList_ofList]
        exact mem_map.2 ⟨'k', k_mem_did hreq, by decide⟩
      subst hself
      simp only [isNodeId_did hreq] at htarget
      exact ⟨hname, htarget⟩
    · have hself : requester = nodeIdForDid C did := by
        rcases hdenotes with heq | heq
        · rw [heq, isNodeId_did hdid] at hreq
          cases hreq
        · exact hlower.symm.trans heq
      simp only [hreq, if_true] at hnode
      refine ⟨fun heq => hnode ?_, hself ▸ hname⟩
      rw [heq, hself]
  unfold Out State.step
  dsimp only
  cases hfind : Records.find SharedFolder.folderId folderId s.table with
  | none =>
    intro entry hentry
    rw [hfind] at hentry
    cases hentry
  | some old =>
    intro entry hentry a ha
    obtain ⟨old', -, hallowed⟩ := find_write hentry
    rw [hallowed, if_pos rfl] at ha
    exact hgone _ a ha

/-! ## Runs -/

theorem proved_run {cmds : List Command}
    (hrun : run C matchesFolderKeyHash ownDid ⟨table, []⟩ cmds = some s) : Proved C s := by
  have hinit : Proved C ⟨table, []⟩ := nofun
  refine Runs.invariant (fun s s' cmd h _ hstep => ?_) hinit (Runs.along_true _ cmds) hrun
  exact Option.some.inj hstep ▸ proved_step h cmd

theorem granted_allowed {request : AccessRequest} {now : Nat} {grant : Grant}
    (h : (handleAccessRequest C matchesFolderKeyHash ownDid s request false now).2 = some grant) :
    grant.requesterDid = request.sender ∧ ∃ entry, Records.find SharedFolder.folderId grant.folderId s.table = some entry ∧
      entry.isAllowed C grant.requesterDid = true := by
  unfold handleAccessRequest at h
  split at h
  · cases h
  · rename_i entry requestId accessPublicKey hvalid
    split at h
    · rename_i hallowed
      cases h
      exact ⟨rfl, entry, (validate_eq_some hvalid).2, by simpa using hallowed⟩
    · cases h

/-- **A revoked requester stays out** until a later command names it; and without the automatic grant, a key is sent without asking
only to requesters that are allowed. -/
theorem revoked_stays_out (hhex : HexDigest C) (table : List SharedFolder) {before after : List Command} {folderId requester did : String}
    (hdid : isEd25519DidKey C did = true)
    (hnamed : isEd25519DidKey C requester = true ∨ isNodeId requester = true ∧ lower requester = requester)
    (hdenotes : Denotes C requester did)
    (hrevoked : run C matchesFolderKeyHash ownDid ⟨table, []⟩ (before ++ [.revoke folderId requester true]) = some s)
    (hspares : Runs.along (fun s cmd => some (s.step C matchesFolderKeyHash ownDid cmd)) (spares C folderId did) s after = true)
    (hrun : run C matchesFolderKeyHash ownDid s after = some s') :
    (∀ entry, Records.find SharedFolder.folderId folderId s'.table = some entry → entry.isAllowed C did = false) ∧
    ∀ request now grant, (handleAccessRequest C matchesFolderKeyHash ownDid s' request false now).2 = some grant →
      grant.requesterDid = request.sender ∧ ∃ entry, Records.find SharedFolder.folderId grant.folderId s'.table = some entry ∧
        entry.isAllowed C grant.requesterDid = true := by
  have hout : Out C folderId did s := by
    rw [run, Runs.run_append] at hrevoked
    obtain ⟨s₀, -, hlast⟩ := Option.bind_eq_some_iff.1 hrevoked
    exact Option.some.inj hlast ▸ out_revoke hhex hdid hnamed hdenotes
  have hstep : ∀ (s s' : State) cmd, Proved C s ∧ Out C folderId did s → spares C folderId did s cmd = true →
      some (s.step C matchesFolderKeyHash ownDid cmd) = some s' → Proved C s' ∧ Out C folderId did s' :=
    fun s s' cmd h hok hs => Option.some.inj hs ▸ ⟨proved_step h.1 cmd, out_step hhex h.1 h.2 hok⟩
  have hafter := (Runs.invariant hstep ⟨proved_run hrevoked, hout⟩ hspares hrun).2
  exact ⟨fun entry hentry => hafter.not_allowed hentry, fun request now grant h => granted_allowed h⟩

/-! ## Alice, whose node id has letters -/

def alice : String := "did:key:zAlice"

/-- Alice's DID hashes to `abcdef0123456789…`, every other one to zeros. -/
def aliceCrates : Crates := sampleCrates [(Json.utf8 alice.toList, "abcdef0123456789")]

theorem aliceCrates_hex : HexDigest aliceCrates := by
  intro bytes c hc
  have hdigest : aliceCrates.digest bytes = "abcdef0123456789" ∨ aliceCrates.digest bytes = String.ofList (List.replicate 64 '0') := by
    simp only [aliceCrates, sampleCrates, lookup_cons]
    split
    · exact Or.inl rfl
    · exact Or.inr rfl
  rcases hdigest with h | h
  · have hall : "abcdef0123456789".toList.all (fun c => c.isDigit || (decide ('a' ≤ c) && decide (c ≤ 'f'))) = true := by rfl
    rw [h] at hc
    exact List.all_eq_true.1 hall c hc
  · rw [h, String.toList_ofList] at hc
    rw [eq_of_mem_replicate hc]
    decide

def photos : SharedFolder := ⟨"photos", "secret", [alice]⟩

theorem revoked_stays_out_alice : ∃ s, run aliceCrates (fun _ _ _ => true) "did:key:zOwner" ⟨[photos], []⟩
      ([] ++ [.revoke "photos" "abcdef0123456789" true]) = some s ∧
    ∀ entry, Records.find SharedFolder.folderId "photos" s.table = some entry → entry.isAllowed aliceCrates alice = false := by
  have hnamed : isNodeId "abcdef0123456789" = true ∧ lower "abcdef0123456789" = "abcdef0123456789" := by decide
  have hdenotes : Denotes aliceCrates "abcdef0123456789" alice := by decide
  obtain ⟨s, hs⟩ : ∃ s, run aliceCrates (fun _ _ _ => true) "did:key:zOwner" ⟨[photos], []⟩
      ([] ++ [.revoke "photos" "abcdef0123456789" true]) = some s := ⟨_, rfl⟩
  exact ⟨s, hs, (revoked_stays_out aliceCrates_hex [photos] (by decide) (Or.inr hnamed) hdenotes hs (by rfl) Runs.run_nil).1⟩

/-- The node id in upper case takes nobody out, and the automatic grant asks nobody. -/
theorem revoked_stays_in : isNodeId "ABCDEF0123456789" = true ∧ Denotes aliceCrates "ABCDEF0123456789" alice ∧
    ((run aliceCrates (fun _ _ _ => true) "did:key:zOwner" ⟨[photos], []⟩ [.revoke "photos" "ABCDEF0123456789" true]).bind
      (fun s => Records.find SharedFolder.folderId "photos" s.table)).map (SharedFolder.isAllowed aliceCrates · alice) = some true ∧
    (handleAccessRequest aliceCrates (fun _ _ _ => true) "did:key:zOwner" ⟨[⟨"photos", "secret", []⟩], []⟩
      ⟨alice, none, some "photos", some "r1", some "key", none⟩ true 0).2 = some ⟨"photos", "r1", alice, "key"⟩ := by
  decide

end Access
end Mistl.Folder
