import Mistl.DmHistory
import Mistl.Lib.JsonLine
/-!
# DmLoad — what is written is read back

A conversation within its bounds is written to a file that is short enough, and that `load` reads back as it was.
-/
open List Option

namespace Mistl.Dm

/-! ## Trimming -/

theorem trimCount_suffix : ∀ messages : List StoredMsg, trimCount messages <:+ messages
  | [] => suffix_refl _
  | msg :: messages => by
    unfold trimCount
    split
    · exact (trimCount_suffix messages).trans (suffix_cons ..)
    · exact suffix_refl _

theorem trimCount_length : ∀ messages : List StoredMsg, (trimCount messages).length ≤ maxMessages
  | [] => Nat.zero_le _
  | msg :: messages => by
    unfold trimCount
    split
    · exact trimCount_length messages
    · rename_i h
      exact not_lt.1 h

variable {messages : List StoredMsg}

theorem trimCount_of_le (h : messages.length ≤ maxMessages) : trimCount messages = messages := by
  cases messages with
  | nil => rfl
  | cons msg messages => exact if_neg (not_lt.2 h)

theorem trimBytes_suffix : ∀ (bytes : Nat) (messages : List StoredMsg), trimBytes bytes messages <:+ messages
  | _, [] => suffix_refl _
  | bytes, msg :: messages => by
    unfold trimBytes
    split
    · exact (trimBytes_suffix _ messages).trans (suffix_cons ..)
    · exact suffix_refl _

theorem bytesOf_cons (msg : StoredMsg) (messages : List StoredMsg) : bytesOf (msg :: messages) = msg.weight + bytesOf messages := rfl

theorem trimBytes_le : ∀ messages : List StoredMsg,
    bytesOf (trimBytes (bytesOf messages) messages) ≤ maxConvBytes ∨ (trimBytes (bytesOf messages) messages).length ≤ 1
  | [] => .inr (Nat.zero_le _)
  | msg :: messages => by
    unfold trimBytes
    split
    · have ih := trimBytes_le messages
      rwa [bytesOf_cons, Nat.add_sub_cancel_left]
    · rename_i h
      by_cases hbytes : maxConvBytes < bytesOf (msg :: messages)
      · exact .inr (not_lt.1 fun hlen => h ⟨hbytes, hlen⟩)
      · exact .inl (not_lt.1 hbytes)

theorem trimBytes_of_le {bytes : Nat} (h : bytes ≤ maxConvBytes) : trimBytes bytes messages = messages := by
  cases messages with
  | nil => rfl
  | cons msg messages => exact if_neg fun hboth => absurd hboth.1 (not_lt.2 h)

/-! ## Conversations within their bounds -/

/-- A message as `send` and `process_inbound` store it. -/
structure StoredMsg.Storable (msg : StoredMsg) : Prop where
  id : isValidId msg.id = true
  text : ∀ text, msg.text = some text → text.toList.length ≤ maxTextChars
  file : ∀ file, msg.file = some file → file.cid.utf8ByteSize ≤ maxCidChars ∧ file.name.toList.length ≤ maxNameChars ∧
    file.mime.toList.length ≤ maxMimeChars ∧ file.key.utf8ByteSize ≤ maxKeyChars

theorem utf8ByteSize_le (s : String) : s.utf8ByteSize ≤ 4 * s.toList.length := by
  have h := Json.length_utf8_le s.toList
  rwa [Json.length_utf8, String.ofList_toList] at h

theorem StoredMsg.Storable.weight_le {msg : StoredMsg} (h : msg.Storable) : msg.weight ≤ maxConvBytes := by
  have htext : msg.text.elim 0 String.utf8ByteSize ≤ 4 * maxTextChars := by
    cases htext : msg.text with
    | none => exact Nat.zero_le _
    | some text => exact (utf8ByteSize_le text).trans (Nat.mul_le_mul_left 4 (h.text text htext))
  have hfile : msg.file.elim 0 (fun file => file.cid.utf8ByteSize + file.name.utf8ByteSize + file.mime.utf8ByteSize +
      file.key.utf8ByteSize) ≤ 2000 := by
    cases hfile : msg.file with
    | none => exact Nat.zero_le _
    | some file =>
      obtain ⟨hcid, hname, hmime, hkey⟩ := h.file file hfile
      have hname' := utf8ByteSize_le file.name
      have hmime' := utf8ByteSize_le file.mime
      unfold maxCidChars at hcid
      unfold maxNameChars at hname
      unfold maxMimeChars at hmime
      unfold maxKeyChars at hkey
      simp only [elim_some]
      omega
  unfold maxTextChars at htext
  unfold StoredMsg.weight maxConvBytes
  omega

/-- **A conversation that memory can hold.** -/
structure Conversation.Sound (conv : Conversation) : Prop where
  did : conv.did.utf8ByteSize = didKeyLen
  count : conv.messages.length ≤ maxMessages
  bytes : bytesOf conv.messages ≤ maxConvBytes
  messages : ∀ msg ∈ conv.messages, msg.Storable

variable {conv : Conversation}

theorem Conversation.Sound.trim (h : conv.Sound) : conv.trim = conv := by
  unfold Conversation.trim
  dsimp only
  rw [trimCount_of_le h.count, trimBytes_of_le h.bytes]

theorem Conversation.trim_sound (hdid : conv.did.utf8ByteSize = didKeyLen)
    (hmessages : ∀ msg ∈ conv.messages, msg.Storable) : conv.trim.Sound := by
  have hsuffix : conv.trim.messages <:+ conv.messages := (trimBytes_suffix _ _).trans (trimCount_suffix _)
  have hstorable : ∀ msg ∈ conv.trim.messages, msg.Storable := fun msg hmsg => hmessages msg (hsuffix.subset hmsg)
  refine ⟨hdid, (trimBytes_suffix _ _).length_le.trans (trimCount_length _), ?_, hstorable⟩
  rcases trimBytes_le (trimCount conv.messages) with hbytes | hone
  · exact hbytes
  · have hone : conv.trim.messages.length ≤ 1 := hone
    cases hlist : conv.trim.messages with
    | nil => exact Nat.zero_le _
    | cons msg rest =>
      rw [hlist] at hone
      have hnil : rest = [] := by
        cases rest with
        | nil => rfl
        | cons _ _ => simp at hone
      rw [hnil]
      exact (hstorable msg (by rw [hlist]; exact mem_cons_self)).weight_le

/-! ## Read back -/

theorem asU64_int (n : UInt64) : asU64 (.int n.toNat) = some n := by
  have hread : (Json.int n.toNat).asUnsigned (2 ^ 64) = some n.toNat := by
    rw [Json.asUnsigned, Int.toNat_natCast, if_pos ⟨Int.natCast_nonneg _, n.toNat_lt⟩]
  rw [asU64, hread, map_some, UInt64.ofNat_toNat]

theorem asU32_int (n : UInt32) : asU32 (.int n.toNat) = some n := by
  have hread : (Json.int n.toNat).asUnsigned (2 ^ 32) = some n.toNat := by
    rw [Json.asUnsigned, Int.toNat_natCast, if_pos ⟨Int.natCast_nonneg _, n.toNat_lt⟩]
  rw [asU32, hread, map_some, UInt32.ofNat_toNat]

theorem FileMeta.ofJson_toJson (file : FileMeta) : FileMeta.ofJson file.toJson = some file := by
  have hfields : Json.structFields ["cid", "name", "size", "mime", "key"] false file.toJson =
      some [some (.str file.cid), some (.str file.name), some (.int file.size.toNat), some (.str file.mime),
        some (.str file.key)] := rfl
  rw [FileMeta.ofJson, hfields]
  simp only [Json.asStr, asU64_int, bind_eq_bind, bind_some]

theorem Status.ofStr_asStr (status : Status) : Status.ofStr status.asStr = some status := by
  cases status <;> decide

theorem StoredMsg.ofJson_toJson (msg : StoredMsg) : StoredMsg.ofJson msg.toJson = some msg := by
  have hstatus : Status.ofJson (.str msg.status.asStr) = some msg.status := Status.ofStr_asStr msg.status
  have hfile : ∀ file : FileMeta, readOption FileMeta.ofJson (some file.toJson) = some (some file) := fun file => by
    show (FileMeta.ofJson file.toJson).map some = _
    rw [FileMeta.ofJson_toJson, map_some]
  have htext : ∀ text : String, readOption Json.asStr (some (.str text)) = some (some text) := fun _ => rfl
  have hnone : ∀ {α : Type} (read : Json → Option α), readOption read none = some none := fun _ => rfl
  obtain ⟨id, mine, tsMs, text, file, status⟩ := msg
  have hfields : Json.structFields ["id", "mine", "ts_ms", "text", "file", "status"] false
      (StoredMsg.toJson ⟨id, mine, tsMs, text, file, status⟩) =
      some [some (.str id), some (.bool mine), some (.int tsMs.toNat), text.map Json.str, file.map FileMeta.toJson,
        some (.str status.asStr)] := by
    cases text <;> cases file <;> rfl
  rw [StoredMsg.ofJson, hfields]
  cases text <;> cases file <;>
    simp only [map_none, map_some, Json.asStr, Json.asBool, asU64_int, hnone, htext, hfile, hstatus, bind_eq_bind, bind_some]

theorem readMessages_toJson (messages : List StoredMsg) : readMessages (.arr (messages.map StoredMsg.toJson)) = some messages := by
  show (messages.map StoredMsg.toJson).mapM StoredMsg.ofJson = some messages
  induction messages with
  | nil => rfl
  | cons msg messages ih => rw [map_cons, mapM_cons, StoredMsg.ofJson_toJson, ih]; rfl

theorem Conversation.ofJson_toJson (conv : Conversation) : Conversation.ofJson conv.toJson = some conv := by
  have hfields : Json.structFields ["did", "unread", "updated_ms", "messages"] false conv.toJson =
      some [some (.str conv.did), some (.int conv.unread.toNat), some (.int conv.updatedMs.toNat),
        some (.arr (conv.messages.map StoredMsg.toJson))] := rfl
  rw [Conversation.ofJson, hfields]
  simp only [Json.asStr, readDefault, asU32_int, asU64_int, readMessages_toJson, bind_eq_bind, bind_some]

theorem integral_u64 (n : UInt64) : Json.Integral (.int n.toNat) := by
  have := n.toNat_lt
  rw [Json.Integral]
  omega

theorem integral_u32 (n : UInt32) : Json.Integral (.int n.toNat) := by
  have := n.toNat_lt
  rw [Json.Integral]
  omega

theorem FileMeta.integral (file : FileMeta) : Json.Integral file.toJson := by
  rw [FileMeta.toJson]
  simp only [Json.IntegralFields, Json.Integral, true_and, and_true]
  have := file.size.toNat_lt
  omega

theorem StoredMsg.integral (msg : StoredMsg) : Json.Integral msg.toJson ∧ Json.nesting msg.toJson ≤ 2 := by
  obtain ⟨id, mine, tsMs, text, file, status⟩ := msg
  have hts := tsMs.toNat_lt
  have hfile : ∀ file : FileMeta, Json.nesting file.toJson = 1 := fun file => by
    simp [FileMeta.toJson, Json.nesting, Json.nestingFields]
  rw [StoredMsg.toJson]
  cases text <;> cases file <;>
    simp [Json.IntegralFields, Json.Integral, Json.nestingFields, Json.nesting, hfile, FileMeta.integral] <;> omega

theorem integral_messages : ∀ messages : List StoredMsg,
    Json.IntegralItems (messages.map StoredMsg.toJson) ∧ Json.nestingItems (messages.map StoredMsg.toJson) ≤ 2
  | [] => ⟨by trivial, Nat.zero_le _⟩
  | msg :: messages => by
    obtain ⟨hintegral, hnesting⟩ := integral_messages messages
    exact ⟨⟨msg.integral.1, hintegral⟩, max_le msg.integral.2 hnesting⟩

theorem Conversation.fromSlice_toVec (conv : Conversation) :
    (Json.fromSlice conv.toJson.toVec).bind Conversation.ofJson = some conv := by
  obtain ⟨hintegral, hnesting⟩ := integral_messages conv.messages
  have hconv : Json.Integral conv.toJson := by
    rw [Conversation.toJson, Json.Integral]
    simp only [Json.IntegralFields, integral_u32, integral_u64, true_and, and_true]
    exact ⟨by trivial, by exact hintegral⟩
  have hdepth : Json.nesting conv.toJson < Json.maxDepth := by
    rw [Conversation.toJson]
    simp only [Json.nestingFields, Json.nesting, Json.maxDepth]
    omega
  rw [Json.fromSlice_toVec _ hconv.repr hdepth, bind_some, Conversation.ofJson_toJson]

/-! ## Short enough -/

theorem FileMeta.size_le (file : FileMeta) : Json.size file.toJson ≤
    6 * (file.cid.utf8ByteSize + file.name.utf8ByteSize + file.mime.utf8ByteSize + file.key.utf8ByteSize) + 130 := by
  have hcid := Json.stringSize_le file.cid
  have hname := Json.stringSize_le file.name
  have hmime := Json.stringSize_le file.mime
  have hkey := Json.stringSize_le file.key
  have hsize := Json.size_int_le file.size.toNat_lt
  have hnames : Json.stringSize "cid" + Json.stringSize "name" + Json.stringSize "size" + Json.stringSize "mime" +
      Json.stringSize "key" = 28 := by decide
  rw [FileMeta.toJson, Json.size_obj]
  simp only [Json.fieldsSize, Json.size_str]
  omega

theorem isValidId_size {id : String} (h : isValidId id = true) : id.utf8ByteSize = 32 := by
  simp only [isValidId, Bool.and_eq_true, decide_eq_true_eq] at h
  exact h.1

theorem StoredMsg.Storable.size_le {msg : StoredMsg} (h : msg.Storable) : Json.size msg.toJson ≤ 6 * msg.weight + 110 := by
  have hlen := isValidId_size h.id
  obtain ⟨id, mine, tsMs, text, file, status⟩ := msg
  have hlen : id.utf8ByteSize = 32 := hlen
  have hid := Json.stringSize_le id
  have hmine : ∀ b, Json.size (.bool b) ≤ 5 := by decide
  have hmine := hmine mine
  have hts := Json.size_int_le tsMs.toNat_lt
  have hstatus : Json.stringSize status.asStr ≤ 11 := by cases status <;> decide
  have hnames : Json.stringSize "id" + Json.stringSize "mine" + Json.stringSize "ts_ms" + Json.stringSize "text" +
      Json.stringSize "file" + Json.stringSize "status" = 37 := by decide
  rw [StoredMsg.weight]
  refine (Json.size_obj_le _).trans ?_
  cases text with
  | none =>
    cases file with
    | none =>
      simp [Json.fieldsSize, Json.size_str]
      omega
    | some file =>
      have := file.size_le
      simp [Json.fieldsSize, Json.size_str]
      omega
  | some text =>
    have htext := Json.stringSize_le text
    cases file with
    | none =>
      simp [Json.fieldsSize, Json.size_str]
      omega
    | some file =>
      have := file.size_le
      simp [Json.fieldsSize, Json.size_str]
      omega

theorem size_messages_le : ∀ {messages : List StoredMsg}, (∀ msg ∈ messages, msg.Storable) →
    ((messages.map StoredMsg.toJson).map (fun j => Json.size j + 1)).sum ≤ 6 * bytesOf messages + 111 * messages.length
  | [], _ => Nat.zero_le _
  | msg :: messages, h => by
    have hmsg := (h msg mem_cons_self).size_le
    have ih := size_messages_le (fun m hm => h m (mem_cons_of_mem _ hm))
    rw [map_cons, map_cons, List.sum_cons, bytesOf_cons, length_cons]
    omega

theorem Conversation.Sound.length_toVec_le (h : conv.Sound) : conv.toJson.toVec.length ≤ maxFileBytesOnDisk := by
  have hdid := Json.stringSize_le conv.did
  have hlen := h.did
  have hunread := @Json.size_int_le conv.unread.toNat (conv.unread.toNat_lt.trans (by decide))
  have hupdated := Json.size_int_le conv.updatedMs.toNat_lt
  have harr := Json.size_arr_le (conv.messages.map StoredMsg.toJson)
  have hmessages := size_messages_le h.messages
  have hcount := h.count
  have hbytes := h.bytes
  have hnames : Json.stringSize "did" + Json.stringSize "unread" + Json.stringSize "updated_ms" +
      Json.stringSize "messages" = 35 := by decide
  unfold didKeyLen at hlen
  unfold maxMessages at hcount
  unfold maxConvBytes at hbytes
  show Json.size conv.toJson ≤ _
  rw [Conversation.toJson, Json.size_obj]
  simp only [Json.fieldsSize, Json.size_str, maxFileBytesOnDisk]
  omega

/-! ## The file of a conversation -/

variable {C : Crates}

theorem isJsonName_fileNameFor (hdigest : ∀ bytes, C.digest bytes ≠ "") (did : String) : isJsonName (fileNameFor C did) = true := by
  have hstem : (C.digest (Json.utf8 did.toList)).toList.take 32 ≠ [] := fun h => by
    rcases take_eq_nil_iff.1 h with h | h
    · cases h
    · exact hdigest _ (String.toList_eq_nil_iff.1 h)
  have hsplit := @splitLast_append _ _ '.' "json".toList (by decide) ((C.digest (Json.utf8 did.toList)).toList.take 32)
  have hname : (fileNameFor C did).toList =
      (C.digest (Json.utf8 did.toList)).toList.take 32 ++ '.' :: "json".toList := String.toList_ofList
  rw [isJsonName, hname, hsplit]
  simp only [decide_true, Bool.and_true, decide_eq_true_eq]
  exact hstem

theorem Conversation.Sound.retained (h : conv.Sound) :
    conv.messages.filter (fun m => isValidId m.id && m.text.all (fun text => decide (text.toList.length ≤ maxTextChars))) =
      conv.messages := by
  refine filter_eq_self.2 fun msg hmsg => ?_
  obtain ⟨hid, htext, -⟩ := h.messages msg hmsg
  rw [hid]
  cases hm : msg.text with
  | none => rfl
  | some text => exact decide_eq_true (htext text hm)

theorem readEntry_toVec (hdigest : ∀ bytes, C.digest bytes ≠ "") (h : conv.Sound) :
    readEntry C (fileNameFor C conv.did, conv.toJson.toVec) = some conv := by
  unfold readEntry
  rw [if_neg (by rw [isJsonName_fileNameFor hdigest]; exact Bool.noConfusion), if_neg (not_lt.2 h.length_toVec_le)]
  rw [conv.fromSlice_toVec]
  dsimp only
  rw [if_neg (not_or.2 ⟨not_not.2 h.did, not_not.2 rfl⟩)]
  rw [h.retained]
  exact congrArg some h.trim

theorem readEntry_name {name : String} {bytes : List UInt8}
    (h : readEntry C (name, bytes) = some conv) : name = fileNameFor C conv.did := by
  unfold readEntry at h
  split at h
  · cases h
  split at h
  · cases h
  split at h
  · cases h
  split at h
  · cases h
  rename_i hname
  cases h
  exact not_not.1 (not_or.1 hname).2

end Mistl.Dm
