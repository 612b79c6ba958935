import Mistl.DmService
/-!
# DmSigned — what a node signs is taken by its addressee

A message or a receipt that a node builds passes every check of `process_inbound` at the node it is addressed to, from the node
that signed it, within the accepted window.
-/
open Mistl.Json Option

namespace Mistl.Dm

variable {C : Crates} {identity : Identity} {tag recipient id : String} {ts nowMs : UInt64} {text : Option String}
  {file : Option FileMeta}

/-- The signature of a node verifies, and its text has the length of one. -/
structure Identity.Signs (C : Crates) (identity : Identity) : Prop where
  did : identity.did.utf8ByteSize = didKeyLen
  length : ∀ payload, (C.b64Encode (identity.sign payload)).utf8ByteSize = Wiresign.signatureLen
  decode : ∀ payload, C.b64Decode (C.b64Encode (identity.sign payload)) = some (identity.sign payload)
  verify : ∀ payload, verifyDid C identity.did payload (identity.sign payload) = true

def FileMeta.sent (file : FileMeta) : Json :=
  .obj [("cid", .str file.cid), ("key", .str file.key), ("mime", .str file.mime), ("name", .str file.name),
    ("size", .int file.size.toNat)]

theorem FileMeta.value_toJson (file : FileMeta) : file.toJson.value = file.sent := by
  rw [FileMeta.toJson, FileMeta.sent]
  simp +decide only [valueFields, Json.value, setField, if_false, if_true]

theorem FileMeta.value_sent (file : FileMeta) : file.sent.value = file.sent := by
  rw [FileMeta.sent]
  simp +decide only [valueFields, Json.value, setField, if_false]

def sentFields (C : Crates) (identity : Identity) (tag recipient id : String) (ts : UInt64) (text : Option String)
    (file : Option FileMeta) (signature : String) : List (String × Json) :=
  (file.map fun file => ("file", file.sent)).toList ++
    [("fromId", .str identity.did), ("id", .str id), ("node", .str (identity.nodeId C)), ("signature", .str signature),
      ("t", .str tag)] ++ (text.map fun text => ("text", Json.str text)).toList ++
    [("to", .str recipient), ("ts", .int ts.toNat)]

def wireSignature (C : Crates) (identity : Identity) (fields : List (String × Json)) : String :=
  C.b64Encode (identity.sign (utf8 (Wiresign.signingPayload fields)))

theorem signWire_wireFields (C : Crates) (identity : Identity) (tag recipient id : String) (ts : UInt64) (text : Option String)
    (file : Option FileMeta) : signWire C identity (wireFields C identity tag recipient id ts text file) =
      .obj (sentFields C identity tag recipient id ts text file
        (wireSignature C identity (wireFields C identity tag recipient id ts text file))) := by
  show Json.value (.obj (_ ++ [("signature", .str (wireSignature C identity _))])) = _
  rw [wireFields, sentFields]
  cases text <;> cases file <;>
    simp +decide [valueFields, Json.value, setField, FileMeta.value_toJson]

theorem value_sentFields (signature : String) : Json.value (.obj (sentFields C identity tag recipient id ts text file signature)) =
    .obj (sentFields C identity tag recipient id ts text file signature) := by
  rw [sentFields]
  cases text <;> cases file <;>
    simp +decide [valueFields, Json.value, setField, FileMeta.value_sent]

theorem signingPayload_sentFields (signature : String) :
    Wiresign.signingPayload (sentFields C identity tag recipient id ts text file signature) =
      Wiresign.signingPayload (wireFields C identity tag recipient id ts text file) := by
  have hfile : ∀ file : FileMeta, Wiresign.stableStringify file.sent = Wiresign.stableStringify file.toJson := fun file => by
    rw [FileMeta.sent, FileMeta.toJson, Wiresign.stableStringify, Wiresign.stableStringify]
    simp +decide only [Wiresign.stableFields, List.insertionSort, List.foldr, List.orderedInsert, Wiresign.keyLe, if_true, if_false]
  rw [Wiresign.signingPayload, Wiresign.signingPayload, sentFields, wireFields, Wiresign.stableStringify, Wiresign.stableStringify]
  cases text <;> cases file <;>
    simp +decide [Wiresign.stableFields, hfile, Wiresign.keyLe]

theorem valueOf_sentFields (signature : String) :
    valueOf (toVec (.obj (sentFields C identity tag recipient id ts text file signature))) =
      some (.obj (sentFields C identity tag recipient id ts text file signature)) := by
  have hts := ts.toNat_lt
  have hfile : ∀ file : FileMeta, Integral file.sent ∧ nesting file.sent = 1 := fun file => by
    have := file.size.toNat_lt
    rw [FileMeta.sent]
    simp only [IntegralFields, Integral, nestingFields, nesting, true_and, and_true]
    omega
  have hshape : Integral (.obj (sentFields C identity tag recipient id ts text file signature)) ∧
      nesting (.obj (sentFields C identity tag recipient id ts text file signature)) ≤ 2 := by
    rw [sentFields]
    cases text <;> cases file <;>
      simp [IntegralFields, Integral, nestingFields, nesting, hfile] <;> omega
  rw [valueOf, fromSlice_toVec _ hshape.1.repr (lt_of_le_of_lt hshape.2 (by decide)), map_some, value_sentFields]

theorem infix_writeFields : ∀ {fields : List (String × Json)} {name : String} {j : Json}, (name, j) ∈ fields →
    j.write <:+: writeFields fields
  | [], _, _, h => absurd h List.not_mem_nil
  | [(n, k)], name, j, h => by
    obtain ⟨rfl, rfl⟩ := Prod.mk.inj (List.mem_singleton.1 h)
    exact ⟨writeString name ++ [':'], [], by rw [writeFields]; simp⟩
  | (n, k) :: f :: fields, name, j, h => by
    rw [writeFields]
    rcases List.mem_cons.1 h with h | h
    · obtain ⟨rfl, rfl⟩ := Prod.mk.inj h
      exact ⟨writeString name ++ [':'], ',' :: writeFields (f :: fields), by simp⟩
    · refine (infix_writeFields h).trans ⟨writeString n ++ ':' :: (k.write ++ [',']), [], by simp⟩

variable {kind : Kind}

theorem tag_within (hkind : kindOf tag = some kind) (signature : String) :
    utf8 tagPrefix.toList <:+: toVec (.obj (sentFields C identity tag recipient id ts text file signature)) := by
  have htag : tagPrefix.toList <:+: (Json.str tag).write := by
    unfold kindOf at hkind
    split at hkind
    · rename_i htag
      rw [htag]
      decide
    split at hkind
    · rename_i htag
      rw [htag]
      decide
    · cases hkind
  have hmem : ("t", Json.str tag) ∈ sentFields C identity tag recipient id ts text file signature := by
    unfold sentFields
    simp
  obtain ⟨pre, post, hwrite⟩ := htag.trans (infix_writeFields hmem)
  refine ⟨utf8 ('\x7b' :: pre), utf8 (post ++ ['\x7d']), ?_⟩
  rw [toVec, Json.write, ← hwrite]
  simp

theorem verifyWire_sentFields (hsigns : identity.Signs C) :
    Wiresign.verifyWire C (.obj (sentFields C identity tag recipient id ts text file
      (wireSignature C identity (wireFields C identity tag recipient id ts text file)))) = true := by
  have hpayload := @signingPayload_sentFields C identity tag recipient id ts text file
    (wireSignature C identity (wireFields C identity tag recipient id ts text file))
  have hlength := hsigns.length (utf8 (Wiresign.signingPayload (wireFields C identity tag recipient id ts text file)))
  have hdecode := hsigns.decode (utf8 (Wiresign.signingPayload (wireFields C identity tag recipient id ts text file)))
  have hverify := hsigns.verify (utf8 (Wiresign.signingPayload (wireFields C identity tag recipient id ts text file)))
  generalize hsignature : wireSignature C identity (wireFields C identity tag recipient id ts text file) = signature at hpayload
  rw [wireSignature] at hsignature
  rw [hsignature] at hlength hdecode
  have hfrom : (get? (.obj (sentFields C identity tag recipient id ts text file signature)) "fromId").bind asStr =
      some identity.did := by
    cases text <;> cases file <;> rfl
  have hsig : (get? (.obj (sentFields C identity tag recipient id ts text file signature)) "signature").bind asStr =
      some signature := by
    cases text <;> cases file <;> rfl
  unfold Wiresign.verifyWire
  rw [hfrom, hsig]
  dsimp only
  rw [if_neg (not_or.2 ⟨not_not.2 hlength, not_not.2 hsigns.did⟩), hdecode]
  dsimp only
  rw [hpayload, hverify]

def Carries (text : Option String) (file : Option FileMeta) : Kind → Prop
  | .message => (validateContent text file).isOk = true
  | .ack => text = none ∧ file = none

theorem readContent_sentFields (hcontent : Carries text file kind) (signature : String) :
    readContent (.obj (sentFields C identity tag recipient id ts text file signature)) kind = .ok (text, file) := by
  cases kind with
  | ack =>
    obtain ⟨rfl, rfl⟩ := hcontent
    rfl
  | message =>
    have htext : readText (.obj (sentFields C identity tag recipient id ts text file signature)) = .ok text := by
      cases text <;> cases file <;> rfl
    have hfile : readFile (.obj (sentFields C identity tag recipient id ts text file signature)) = .ok file := by
      cases file with
      | none => cases text <;> rfl
      | some file =>
        have hget : get? (.obj (sentFields C identity tag recipient id ts text (some file) signature)) "file" = some file.sent := by
          cases text <;> rfl
        have hsize : (file.sent.get? "size").bind asU64 = some file.size := asU64_int file.size
        unfold readFile
        rw [hget]
        dsimp only
        rw [hsize]
        rfl
    unfold readContent
    rw [htext, hfile]
    show (ensure (validateContent text file).isOk Reject.malformed >>= fun _ => .ok (text, file)) = .ok (text, file)
    rw [show (validateContent text file).isOk = true from hcontent]
    rfl

/-- **A wire that is sent passes `precheck`** at its addressee, from the node that signed it. -/
theorem precheck_sentFields (hsigns : identity.Signs C) (hkind : kindOf tag = some kind)
    (hcontent : Carries text file kind) (hother : identity.did ≠ recipient) (hskew : absDiff ts nowMs ≤ maxSkewMs)
    (hid : isValidId id = true) {signature : String}
    (hlen : (toVec (.obj (sentFields C identity tag recipient id ts text file signature))).length ≤ maxWireBytes) :
    precheck C (toVec (.obj (sentFields C identity tag recipient id ts text file signature))) (identity.nodeId C) recipient
      nowMs = .ok ⟨kind, .obj (sentFields C identity tag recipient id ts text file signature), identity.did, id, ts, text, file⟩ := by
  have hlooks : looksLikeDm (toVec (.obj (sentFields C identity tag recipient id ts text file signature))) = true := by
    unfold looksLikeDm
    rw [decide_eq_true hlen, decide_eq_true (tag_within hkind signature)]
    rfl
  have hvalue := @valueOf_sentFields C identity tag recipient id ts text file signature
  have hread := @readContent_sentFields C identity tag recipient id ts text file kind hcontent signature
  have hstr : ∀ key value, get? (.obj (sentFields C identity tag recipient id ts text file signature)) key =
      some (.str value) → strField (.obj (sentFields C identity tag recipient id ts text file signature)) key = .ok value :=
    fun key value hget => by
      unfold strField
      rw [hget]
      rfl
  have ht : ((get? (.obj (sentFields C identity tag recipient id ts text file signature)) "t").bind asStr).bind kindOf = some kind := by
    rw [← hkind]
    cases text <;> cases file <;> rfl
  have hnode := hstr "node" (identity.nodeId C) (by cases text <;> cases file <;> rfl)
  have hfrom := hstr "fromId" identity.did (by cases text <;> cases file <;> rfl)
  have hto := hstr "to" recipient (by cases text <;> cases file <;> rfl)
  have hsent := hstr "id" id (by cases text <;> cases file <;> rfl)
  have hts : (get? (.obj (sentFields C identity tag recipient id ts text file signature)) "ts").bind asU64 = some ts := by
    rw [← asU64_int ts]
    cases text <;> cases file <;> rfl
  refine ensure_bind_eq_ok.2 ⟨decide_eq_true hlen, ensure_bind_eq_ok.2 ⟨hlooks, okOr_bind_eq_ok.2 ⟨_, hvalue, ?_⟩⟩⟩
  refine ensure_bind_eq_ok.2 ⟨rfl, okOr_bind_eq_ok.2 ⟨kind, ht, bind_eq_ok.2 ⟨_, hnode, ?_⟩⟩⟩
  refine ensure_bind_eq_ok.2 ⟨decide_eq_true rfl, bind_eq_ok.2 ⟨_, hfrom, ensure_bind_eq_ok.2 ⟨?_, ?_⟩⟩⟩
  · rw [decide_eq_true hsigns.did, decide_eq_true (show nodeIdForDid C identity.did = identity.nodeId C from rfl)]
    rfl
  refine bind_eq_ok.2 ⟨_, hto, ensure_bind_eq_ok.2 ⟨decide_eq_true rfl, ensure_bind_eq_ok.2 ⟨decide_eq_true hother, ?_⟩⟩⟩
  refine okOr_bind_eq_ok.2 ⟨ts, hts, ensure_bind_eq_ok.2 ⟨decide_eq_true hskew, bind_eq_ok.2 ⟨_, hsent, ?_⟩⟩⟩
  exact ensure_bind_eq_ok.2 ⟨hid, bind_eq_ok.2 ⟨_, hread, rfl⟩⟩

def Kind.incoming (did id : String) (ts : UInt64) (text : Option String) (file : Option FileMeta) : Kind → Incoming
  | .message => .message ⟨did, id, ts, text, file⟩
  | .ack => .ack ⟨did, id, ts⟩

theorem incomingOf_signWire (hsigns : identity.Signs C) (hkind : kindOf tag = some kind)
    (hcontent : Carries text file kind) (hother : identity.did ≠ recipient) (hskew : absDiff ts nowMs ≤ maxSkewMs)
    (hid : isValidId id = true)
    (hlen : (signWire C identity (wireFields C identity tag recipient id ts text file)).toVec.length ≤ maxWireBytes) :
    incomingOf C (signWire C identity (wireFields C identity tag recipient id ts text file)).toVec (identity.nodeId C) recipient
      nowMs = some (kind.incoming identity.did id ts text file) := by
  rw [signWire_wireFields] at hlen ⊢
  rw [incomingOf, precheck_sentFields hsigns hkind hcontent hother hskew hid hlen]
  have hverify := @verifyWire_sentFields C identity tag recipient id ts text file hsigns
  unfold Prechecked.verify
  dsimp only
  rw [hverify]
  cases kind with
  | message => rfl
  | ack => rfl

theorem utf8ByteSize_nodeId (C : Crates) (identity : Identity) : (identity.nodeId C).utf8ByteSize ≤ 64 := by
  refine (utf8ByteSize_le _).trans ?_
  unfold Identity.nodeId nodeIdForDid
  rw [String.toList_ofList]
  exact Nat.mul_le_mul_left 4 (List.length_take_le _ _)

theorem length_buildAck_le (hsigns : identity.Signs C) (hrecipient : recipient.utf8ByteSize = didKeyLen)
    (hid : isValidId id = true) : (buildAck C identity recipient id ts).length ≤ maxWireBytes := by
  have hsignature : (wireSignature C identity (wireFields C identity ackTag recipient id ts none none)).utf8ByteSize =
      Wiresign.signatureLen := hsigns.length _
  have hs := fun s => stringSize_le s
  have h1 := hs identity.did
  have h2 := hs id
  have h3 := hs (identity.nodeId C)
  have h4 := hs (wireSignature C identity (wireFields C identity ackTag recipient id ts none none))
  have h5 := hs recipient
  have h6 := size_int_le ts.toNat_lt
  have h7 := hsigns.did
  have h8 := isValidId_size hid
  have h9 := utf8ByteSize_nodeId C identity
  have hnames : stringSize "fromId" + stringSize "id" + stringSize "node" + stringSize "signature" +
      stringSize "t" + stringSize "to" + stringSize "ts" + stringSize ackTag = 57 := by decide
  unfold didKeyLen at h7 hrecipient
  unfold Wiresign.signatureLen at hsignature
  rw [buildAck, signWire_wireFields]
  show Json.size _ ≤ maxWireBytes
  rw [sentFields]
  simp only [map_none, toList_none, List.nil_append, List.cons_append]
  rw [size_obj]
  simp only [fieldsSize, size_str]
  unfold maxWireBytes
  omega

theorem incomingOf_buildAck (hsigns : identity.Signs C) (hrecipient : recipient.utf8ByteSize = didKeyLen)
    (hother : identity.did ≠ recipient) (hskew : absDiff ts nowMs ≤ maxSkewMs) (hid : isValidId id = true) :
    incomingOf C (buildAck C identity recipient id ts) (identity.nodeId C) recipient nowMs = some (.ack ⟨identity.did, id, ts⟩) :=
  incomingOf_signWire hsigns (show kindOf ackTag = some .ack from rfl) ⟨rfl, rfl⟩ hother hskew hid (length_buildAck_le hsigns hrecipient hid)

theorem incomingOf_buildMessage {data : List UInt8} (hsigns : identity.Signs C)
    (hbuild : buildMessage C identity recipient id ts text file = .ok data) (hother : identity.did ≠ recipient)
    (hskew : absDiff ts nowMs ≤ maxSkewMs) (hid : isValidId id = true) :
    incomingOf C data (identity.nodeId C) recipient nowMs = some (.message ⟨identity.did, id, ts, text, file⟩) := by
  obtain ⟨u, hcontent, hbuild⟩ := bind_eq_ok.1 hbuild
  obtain ⟨hlen, hbuild⟩ := ensure_bind_eq_ok.1 hbuild
  cases hbuild
  exact incomingOf_signWire hsigns (show kindOf msgTag = some .message from rfl) (isOk_eq_true.2 ⟨u, hcontent⟩) hother hskew hid
    (of_decide_eq_true hlen)

theorem sampleIdentity_signs {did : String} (hlen : did.utf8ByteSize = didKeyLen) (hkey : (pubkeyFromDid dmCrates did).isSome = true) :
    (⟨did, fun _ => List.replicate 64 0⟩ : Identity).Signs dmCrates := by
  refine ⟨hlen, fun _ => ?_, fun _ => ?_, fun payload => ?_⟩
  · show (dmCrates.b64Encode (List.replicate 64 0)).utf8ByteSize = Wiresign.signatureLen
    decide
  · show dmCrates.b64Decode (dmCrates.b64Encode (List.replicate 64 0)) = some (List.replicate 64 0)
    decide
  · show (pubkeyFromDid dmCrates did).any (fun _ => true) = true
    cases hpub : pubkeyFromDid dmCrates did with
    | none => rw [hpub] at hkey; cases hkey
    | some key => rfl

theorem annIdentity_signs : annIdentity.Signs dmCrates := sampleIdentity_signs (by decide) (by decide)

theorem bobIdentity_signs : bobIdentity.Signs dmCrates := sampleIdentity_signs (by decide) (by decide)

end Mistl.Dm
