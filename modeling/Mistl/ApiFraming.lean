import Mistl.ApiHttp
/-!
# ApiFraming — a request head out of the reads of a connection

`read_request_head` looks for the blank line of either form in whatever has arrived, `read_body` adds to the bytes
left over.
-/
open List Mistl.Json Option

namespace Mistl.Api
namespace Framing

open Folder (trim)
open Nostr (splitOnce)

/-! ## The code -/

/-- `windows(k).position(|w| w == pat)`, counted to the end of the window -/
def endOf (pat : List UInt8) : List UInt8 → Option Nat
  | [] => none
  | b :: rest => if pat.isPrefixOf (b :: rest) then some pat.length else (endOf pat rest).map (· + 1)

def crlfcrlf : List UInt8 := [13, 10, 13, 10]

def lflf : List UInt8 := [10, 10]

def findHeaderEnd (buf : List UInt8) : Option Nat := (endOf crlfcrlf buf).or (endOf lflf buf)

def trimEndMatches (line : List Char) : List Char := line.rdropWhile (· = '\r')

def requestLine (line : List Char) : Option (String × String) :=
  match ((trimEndMatches line).splitOn ' ').filter (· ≠ []) with
  | method :: path :: _ => some (String.ofList method, String.ofList path)
  | _ => none

def headerLine (line : List Char) : Option (String × String) := (splitOnce ':' (trimEndMatches line)).map (fun (key, value) =>
    (String.ofList ((trim key).map Char.toLower), String.ofList (trim value)))

def parseHead (bytes : List UInt8) : Option RequestHead := do
  let text ← String.fromUTF8? bytes.toByteArray
  match text.toList.splitOn '\n' with
  | [] => none
  | line :: lines => (requestLine line).map (fun (method, path) => ⟨method, path, lines.filterMap headerLine⟩)

/-- What has arrived for each read to come: the bytes of one segment, or what a full buffer left of it.  At the end
the peer has closed the connection. -/
abbrev Segments := List (List UInt8)

def Segments.read (cap : Nat) : Segments → List UInt8 × Segments
  | [] => ([], [])
  | s :: rest => if s.length ≤ cap then (s, rest) else (s.take cap, s.drop cap :: rest)

def maxHeaderBytes : Nat := 16 * 1024

/-- The loop of `read_request_head`: a read adds a byte at least, and at `maxHeaderBytes` there is none. -/
def headLoop : Nat → List UInt8 → Segments → Except String (Option (RequestHead × List UInt8 × Segments))
  | n, buf, stream =>
    match findHeaderEnd buf with
    | some pos => match parseHead (buf.take pos) with
      | none => .error "malformed request head"
      | some head => .ok (some (head, buf.drop pos, stream))
    | none => match n with
      | 0 => .error "header section too large"
      | n + 1 =>
        if maxHeaderBytes ≤ buf.length then .error "header section too large"
        else match stream.read 1024 with
          | ([], _) => if buf.isEmpty then .ok none else .error "connection closed mid-headers"
          | (chunk, stream) => headLoop n (buf ++ chunk) stream

def readRequestHead (stream : Segments) : Except String (Option (RequestHead × List UInt8 × Segments)) :=
  headLoop maxHeaderBytes [] stream

/-- The loop of `read_body`, by the number of bytes still due at its start -/
def bodyLoop (contentLength : Nat) : Nat → Segments → List UInt8 → Except String (List UInt8)
  | 0, _, leftover => .ok leftover
  | n + 1, stream, leftover =>
    if contentLength ≤ leftover.length then .ok leftover
    else match stream.read 8192 with
      | ([], _) => .error "connection closed before body complete"
      | (chunk, stream) => bodyLoop contentLength n stream (leftover ++ chunk.take (contentLength - leftover.length))

def readBody (stream : Segments) (leftover : List UInt8) (contentLength : Nat) : Except String (List UInt8) :=
  if contentLength ≤ leftover.length then .ok (leftover.take contentLength)
  else bodyLoop contentLength contentLength stream leftover

/-- A head and its body of a given length; `none` where the peer closed before sending anything. -/
def request (stream : Segments) (contentLength : Nat) : Except String (Option (RequestHead × List UInt8)) := do
  match ← readRequestHead stream with
  | none => .ok none
  | some (head, leftover, stream) => (readBody stream leftover contentLength).map (fun body => some (head, body))

/-! ## Where a head ends -/

variable {e : Nat}

theorem endOf_bounds {pat l : List UInt8} (h : endOf pat l = some e) : pat.length ≤ e ∧ e ≤ l.length ∧ pat <:+ l.take e := by
  induction l generalizing e with
  | nil => cases h
  | cons b l ih =>
    simp only [endOf] at h
    split at h
    case isTrue hp =>
      obtain ⟨rest, hr⟩ := isPrefixOf_iff_prefix.mp hp
      obtain rfl : pat.length = e := by simpa using h
      rw [← hr]
      exact ⟨Nat.le_refl _, by simp, by simp⟩
    case isFalse hp =>
      obtain ⟨e, he, rfl⟩ := map_eq_some_iff.mp h
      obtain ⟨h1, h2, h3⟩ := ih he
      exact ⟨by omega, by simp only [length_cons]; omega, by
        rw [take_succ_cons]; exact h3.trans (suffix_cons b _)⟩

theorem endOf_take {pat : List UInt8} (hp : pat ≠ []) (l : List UInt8) (L : Nat) :
    endOf pat (l.take L) = (endOf pat l).filter (fun e => decide (e ≤ L)) := by
  have hpos := length_pos_iff.mpr hp
  induction l generalizing L with
  | nil => simp [endOf]
  | cons b l ih =>
    have hlow : ∀ e, endOf pat (b :: l) = some e → 0 < e := fun e he => by
      have := (endOf_bounds he).1
      omega
    cases L with
    | zero =>
      rw [take_zero, endOf]
      cases he : endOf pat (b :: l) with
      | none => rfl
      | some e => simp [filter_some, Nat.ne_of_gt (hlow e he)]
    | succ L =>
      rw [take_succ_cons]
      by_cases hb : pat.isPrefixOf (b :: l)
      · have hx := isPrefixOf_iff_prefix.mp hb
        by_cases hL : pat.length ≤ L + 1
        · have hy : pat.isPrefixOf (b :: l.take L) = true := by
            rw [← take_succ_cons, isPrefixOf_iff_prefix, prefix_take_iff]
            exact ⟨hx, hL⟩
          simp [endOf, hb, hy, hL, filter_some]
        · have hy : ¬ pat.isPrefixOf (b :: l.take L) = true := by
            rw [← take_succ_cons, isPrefixOf_iff_prefix, prefix_take_iff]
            exact fun h => hL h.2
          have hn : endOf pat (l.take L) = none := by
            cases he : endOf pat (l.take L) with
            | none => rfl
            | some e =>
              have h2 := endOf_bounds he
              have h3 := length_take_le L l
              omega
          simp [endOf, hb, hy, hL, hn, filter_some]
      · have hy : ¬ pat.isPrefixOf (b :: l.take L) = true := by
          rw [← take_succ_cons, isPrefixOf_iff_prefix, prefix_take_iff]
          exact fun h => hb ( isPrefixOf_iff_prefix.mpr h.1)
        rw [endOf, endOf, if_neg hb, if_neg hy, ih L]
        cases endOf pat l with
        | none => rfl
        | some e => by_cases he : e ≤ L <;> simp [filter_some, he]

def firstEnd (bytes : List UInt8) : Option Nat := (endOf crlfcrlf bytes).merge min (endOf lflf bytes)

theorem findHeaderEnd_take (bytes : List UInt8) (L : Nat) : findHeaderEnd (bytes.take L) =
    ((endOf crlfcrlf bytes).filter (fun e => decide (e ≤ L))).or ((endOf lflf bytes).filter (fun e => decide (e ≤ L))) := by
  rw [findHeaderEnd, endOf_take (by decide), endOf_take (by decide)]

theorem findHeaderEnd_none {bytes buf rest : List UInt8} (hb : buf ++ rest = bytes)
    (h : ∀ e ∈ firstEnd bytes, buf.length < e) : findHeaderEnd buf = none := by
  have htake : bytes.take buf.length = buf := by rw [← hb, take_left]
  rw [← htake, findHeaderEnd_take]
  unfold firstEnd at h
  cases hq : endOf crlfcrlf bytes <;> cases hp : endOf lflf bytes <;> simp [hq, hp] at h ⊢ <;> omega

variable {bytes : List UInt8}

theorem findHeaderEnd_some {L e : Nat} (he : firstEnd bytes = some e) (h : e ≤ L) : ∃ pos, findHeaderEnd (bytes.take L) = some pos := by
  rw [findHeaderEnd_take]
  unfold firstEnd at he
  cases hq : endOf crlfcrlf bytes <;> cases hp : endOf lflf bytes <;> simp [hq, hp, filter_some] at he ⊢
  · omega
  · omega
  · rename_i q p
    have hm : q ≤ L ∨ p ≤ L := by omega
    by_cases h1 : q ≤ L <;> by_cases h2 : p ≤ L <;> simp [h1, h2] <;> omega

theorem findHeaderEnd_le {buf : List UInt8} {pos : Nat} (h : findHeaderEnd buf = some pos) : pos ≤ buf.length := by
  obtain h | ⟨-, h⟩ := or_eq_some_iff.mp h
  · exact (endOf_bounds h).2.1
  · exact (endOf_bounds h).2.1

theorem firstEnd_le (h : firstEnd bytes = some e) : e ≤ bytes.length := by
  unfold firstEnd at h
  cases hq : endOf crlfcrlf bytes <;> cases hp : endOf lflf bytes <;> simp [hq, hp] at h
  · exact h ▸ (endOf_bounds hp).2.1
  · exact h ▸ (endOf_bounds hq).2.1
  · have := (endOf_bounds hp).2.1
    omega

/-! ## The reads -/

variable {stream : Segments}

theorem read_spec (cap : Nat) (hcap : 0 < cap) (h : [] ∉ stream) : (stream = [] ∧ stream.read cap = ([], [])) ∨
    ∃ chunk rest, stream.read cap = (chunk, rest) ∧ chunk ≠ [] ∧ chunk.length ≤ cap ∧ [] ∉ rest ∧
      stream.flatten = chunk ++ rest.flatten := by
  cases stream with
  | nil => exact .inl ⟨rfl, rfl⟩
  | cons s rest =>
    obtain ⟨hs, hr⟩ := not_or.mp (mt mem_cons.mpr h)
    refine .inr ?_
    by_cases hl : s.length ≤ cap
    · exact ⟨s, rest, if_pos hl, Ne.symm hs, hl, hr, rfl⟩
    · refine ⟨s.take cap, s.drop cap :: rest, if_neg hl, fun h0 => ?_, length_take_le cap s, ?_, ?_⟩
      · have := congrArg List.length h0
        simp only [length_take, length_nil] at this
        omega
      · rw [mem_cons, not_or]
        refine ⟨fun h0 => ?_, hr⟩
        have := congrArg List.length h0
        simp only [length_drop, length_nil] at this
        omega
      · rw [flatten_cons, flatten_cons, ← append_assoc, take_append_drop]

variable {contentLength : Nat}

theorem bodyLoop_eq : ∀ (n : Nat) (stream : Segments) (leftover : List UInt8), [] ∉ stream →
    leftover.length ≤ contentLength → contentLength ≤ leftover.length + n →
    bodyLoop contentLength n stream leftover =
      if contentLength ≤ (leftover ++ stream.flatten).length then .ok ((leftover ++ stream.flatten).take contentLength)
      else .error "connection closed before body complete"
  | 0, stream, leftover, _, h1, h2 => by
    have hl : leftover.length = contentLength := by omega
    rw [if_pos (by rw [length_append]; omega), take_append_of_le_length (by omega), ← hl, take_length]
    rfl
  | n + 1, stream, leftover, hne, h1, h2 => by
    rw [bodyLoop]
    by_cases hl : contentLength ≤ leftover.length
    · rw [if_pos hl, if_pos (by rw [length_append]; omega), take_append_of_le_length (by omega), take_of_length_le h1]
    · rw [if_neg hl]
      obtain ⟨rfl, hr⟩ | ⟨chunk, rest, hr, hc, -, hn, hf⟩ := read_spec 8192 (by decide) hne
      · rw [if_neg (by simpa using hl)]
        rfl
      · rw [hr]
        obtain ⟨c, cs, rfl⟩ := exists_cons_of_ne_nil hc
        have hpos : 0 < ((c :: cs).take (contentLength - leftover.length)).length := by
          rw [length_take, length_cons]; omega
        change bodyLoop contentLength n rest (leftover ++ (c :: cs).take (contentLength - leftover.length)) = _
        rw [bodyLoop_eq n rest _ hn (by rw [length_append, length_take]; omega)
          (by rw [length_append]; omega), hf]
        by_cases hk : (c :: cs).length ≤ contentLength - leftover.length
        · rw [take_of_length_le hk, append_assoc]
        · have hfull : (leftover ++ (c :: cs).take (contentLength - leftover.length)).length = contentLength := by
            rw [length_append, length_take]; omega
          rw [if_pos (by rw [length_append]; omega), if_pos (by simp only [length_append]; omega),
            take_append_of_le_length (by omega), take_of_length_le (by omega), take_append,
            take_of_length_le h1, take_append_of_le_length (by omega)]

theorem readBody_eq {leftover : List UInt8} (hne : [] ∉ stream) : readBody stream leftover contentLength =
      if contentLength ≤ (leftover ++ stream.flatten).length then .ok ((leftover ++ stream.flatten).take contentLength)
      else .error "connection closed before body complete" := by
  unfold readBody
  by_cases hl : contentLength ≤ leftover.length
  · rw [if_pos hl, if_pos (by rw [length_append]; omega), take_append_of_le_length hl]
  · rw [if_neg hl, bodyLoop_eq _ _ _ hne (by omega) (by omega)]

/-! ## What a head reads of -/

theorem utf8_split : ∀ {text : List Char} {a b : List UInt8}, utf8 text = a ++ b → a.getLast? = some newline →
    ∃ c d, text = c ++ d ∧ utf8 c = a
  | [], a, b, h, hl => by
    obtain ⟨rfl, -⟩ := append_eq_nil_iff.mp h.symm
    cases hl
  | ch :: text, a, b, h, hl => by
    rw [utf8_cons] at h
    obtain ⟨m, rfl, hm⟩ | ⟨m, hm, rfl⟩ := append_eq_append_iff.mp h
    · by_cases h0 : m = []
      · subst h0
        exact ⟨[ch], text, rfl, by simp⟩
      · rw [getLast?_append_of_ne_nil _ h0] at hl
        obtain ⟨c, d, rfl, rfl⟩ := utf8_split hm hl
        exact ⟨ch :: c, d, rfl, utf8_cons ch c⟩
    · have hn : ch = '\n' := newline_mem_utf8EncodeChar (hm ▸ mem_append_left m (mem_of_getLast? hl))
      subst hn
      have hlen := congrArg List.length hm
      have ha : a ≠ [] := fun h0 => by subst h0; cases hl
      have hpos := length_pos_iff.mpr ha
      rw [length_append, show (String.utf8EncodeChar '\n').length = 1 from rfl] at hlen
      obtain rfl : m = [] := length_eq_zero_iff.mp (by omega)
      exact ⟨['\n'], text, rfl, by rw [append_nil] at hm; rw [← hm]; rfl⟩

theorem parseHead_text {head : RequestHead} (h : parseHead bytes = some head) : ∃ text, utf8 text = bytes := by
  unfold parseHead String.fromUTF8? at h
  split at h
  case isTrue hv =>
    obtain ⟨text, ht⟩ := hv
    exact ⟨text, by simpa [List.utf8Encode, utf8] using (congrArg (fun b => b.data.toList) ht).symm⟩
  case isFalse => cases h

theorem parseHead_line {a b : List Char} (ha : '\n' ∉ a) : (parseHead (utf8 (a ++ '\n' :: b))).isSome = (requestLine a).isSome := by
  unfold parseHead
  rw [fromUTF8?_utf8, bind_eq_bind, bind_some, String.toList_ofList, splitOn_append_cons_self_of_not_mem ha, isSome_map]

theorem parseHead_shorter {p q : Nat} (hp : endOf lflf bytes = some p) (hpq : p ≤ q)
    (h : (parseHead (bytes.take q)).isSome) : (parseHead (bytes.take p)).isSome := by
  obtain ⟨head, hh⟩ := isSome_iff_exists.mp h
  obtain ⟨text, ht⟩ := parseHead_text hh
  obtain ⟨rest, hr⟩ : bytes.take p <+: bytes.take q := take_prefix_take_left hpq
  obtain ⟨pre, hlf⟩ := (endOf_bounds hp).2.2
  have hlast : (bytes.take p).getLast? = some newline := by
    rw [← hlf, getLast?_append_of_ne_nil _ (by decide)]
    rfl
  obtain ⟨c, d, rfl, hc⟩ := utf8_split (ht.trans hr.symm) hlast
  have hmem : '\n' ∈ c := by
    have hb : newline ∈ utf8 c := hc ▸ mem_of_getLast? hlast
    obtain ⟨ch, hch, hbyte⟩ := mem_flatMap.mp hb
    exact newline_mem_utf8EncodeChar hbyte ▸ hch
  obtain ⟨a, b, rfl, ha⟩ := eq_append_cons_of_mem hmem
  rw [← hc, parseHead_line ha, ← parseHead_line (b := b ++ d) ha]
  rw [← ht, append_assoc, cons_append] at h
  exact h

/-! ## A request in full -/

def outcomeAt (bytes : List UInt8) (pos contentLength : Nat) : Except String (Option (RequestHead × List UInt8)) :=
  match parseHead (bytes.take pos) with
  | none => .error "malformed request head"
  | some head =>
    if contentLength ≤ (bytes.drop pos).length then .ok (some (head, (bytes.drop pos).take contentLength))
    else .error "connection closed before body complete"

def requestFrom (n : Nat) (buf : List UInt8) (stream : Segments) (contentLength : Nat) :
    Except String (Option (RequestHead × List UInt8)) := do
  match ← headLoop n buf stream with
  | none => .ok none
  | some (head, leftover, stream) => (readBody stream leftover contentLength).map (fun body => some (head, body))

theorem requestFrom_found {n pos contentLength : Nat} {bytes buf : List UInt8}
    (hb : buf ++ stream.flatten = bytes) (hne : [] ∉ stream) (h : findHeaderEnd buf = some pos) (hpos : pos ≤ buf.length) :
    requestFrom n buf stream contentLength = outcomeAt bytes pos contentLength := by
  subst hb
  unfold requestFrom outcomeAt
  rw [headLoop.eq_def, take_append_of_le_length hpos, drop_append_of_le_length hpos]
  simp only [h]
  cases hh : parseHead (buf.take pos) with
  | none => rfl
  | some head =>
    change (readBody stream (buf.drop pos) contentLength).map _ = _
    rw [readBody_eq hne]
    by_cases hl : contentLength ≤ (buf.drop pos ++ stream.flatten).length
    · simp only [if_pos hl]
      rfl
    · simp only [if_neg hl]
      rfl

theorem requestFrom_read {n contentLength : Nat} {buf chunk : List UInt8} {stream rest : Segments}
    (h : findHeaderEnd buf = none) (hcap : buf.length < maxHeaderBytes) (hr : stream.read 1024 = (chunk, rest))
    (hc : chunk ≠ []) : requestFrom (n + 1) buf stream contentLength = requestFrom n (buf ++ chunk) rest contentLength := by
  obtain ⟨c, cs, rfl⟩ := exists_cons_of_ne_nil hc
  unfold requestFrom
  conv_lhs => rw [headLoop]
  simp only [h, if_neg (Nat.not_le.mpr hcap), hr]

/-- **Where a request lands**: its head is looked for in a prefix that ends with a read, and that reaches at most 1023
bytes past the first blank line. -/
theorem requestFrom_lands (he : firstEnd bytes = some e) (hcap : e ≤ maxHeaderBytes)
    (contentLength : Nat) : ∀ (n : Nat) (buf : List UInt8) (stream : Segments), [] ∉ stream →
    buf ++ stream.flatten = bytes → buf.length < e + 1024 → maxHeaderBytes ≤ buf.length + n →
    ∃ L pos, e ≤ L ∧ L < e + 1024 ∧ findHeaderEnd (bytes.take L) = some pos ∧
      requestFrom n buf stream contentLength = outcomeAt bytes pos contentLength
  | n, buf, stream, hne, hb, hlow, hfuel => by
    have htake : bytes.take buf.length = buf := by rw [← hb, take_left]
    by_cases hf : e ≤ buf.length
    · obtain ⟨pos, hpos⟩ := findHeaderEnd_some he hf
      have hpos' : findHeaderEnd buf = some pos := htake ▸ hpos
      exact ⟨buf.length, pos, hf, hlow, hpos, requestFrom_found hb hne hpos' (findHeaderEnd_le hpos')⟩
    · have hnone : findHeaderEnd buf = none := findHeaderEnd_none hb (by simp [he]; omega)
      match n with
      | 0 => omega
      | n + 1 =>
        obtain ⟨rfl, -⟩ | ⟨chunk, rest, hr, hc, hlen, hn, hflat⟩ := read_spec 1024 (by decide) hne
        · have := firstEnd_le he
          rw [← hb, flatten_nil, append_nil] at this
          omega
        · have hpos := length_pos_iff.mpr hc
          rw [requestFrom_read hnone (by omega) hr hc]
          exact requestFrom_lands he hcap contentLength n (buf ++ chunk) rest hn
            (by rw [append_assoc, ← hflat, hb]) (by rw [length_append]; omega)
            (by rw [length_append]; omega)

def unended (bytes : List UInt8) : Except String (Option (RequestHead × List UInt8)) :=
  if bytes.isEmpty then .ok none else .error "connection closed mid-headers"

theorem requestFrom_unended (he : firstEnd bytes = none) (hcap : bytes.length < maxHeaderBytes)
    (contentLength : Nat) : ∀ (n : Nat) (buf : List UInt8) (stream : Segments), [] ∉ stream →
    buf ++ stream.flatten = bytes → maxHeaderBytes ≤ buf.length + n →
    requestFrom n buf stream contentLength = unended bytes
  | n, buf, stream, hne, hb, hfuel => by
    have hnone : findHeaderEnd buf = none := findHeaderEnd_none hb (by simp [he])
    have hlen : buf.length < maxHeaderBytes := by
      rw [← hb, length_append] at hcap
      omega
    match n with
    | 0 => omega
    | n + 1 =>
      obtain ⟨rfl, hr⟩ | ⟨chunk, rest, hr, hc, -, hn, hflat⟩ := read_spec 1024 (by decide) hne
      · obtain rfl : buf = bytes := by rw [← hb, flatten_nil, append_nil]
        unfold requestFrom unended
        rw [headLoop]
        simp only [hnone, if_neg (Nat.not_le.mpr hlen), hr]
        split <;> rfl
      · have hpos := length_pos_iff.mpr hc
        rw [requestFrom_read hnone hlen hr hc]
        exact requestFrom_unended he hcap contentLength n (buf ++ chunk) rest hn
          (by rw [append_assoc, ← hflat, hb]) (by rw [length_append]; omega)

/-! ## Segmentation -/

/-- A way of splitting bytes into what arrives for successive reads -/
structure Splits (bytes : List UInt8) (stream : Segments) : Prop where
  flatten : stream.flatten = bytes
  ne_nil : [] ∉ stream

/-- The blank line is two line feeds, the head before it reads, and four bytes that end a head in the other form come
within the read that may bring the last of them. -/
def Straddles (bytes : List UInt8) : Prop := ∃ p q, endOf lflf bytes = some p ∧ endOf crlfcrlf bytes = some q ∧ p < q ∧ q ≤ p + 1023 ∧
    (parseHead (bytes.take p)).isSome

def singles (bytes : List UInt8) : Segments := bytes.map fun b => [b]

@[simp] theorem flatten_singles (bytes : List UInt8) : (singles bytes).flatten = bytes := by
  induction bytes with
  | nil => rfl
  | cons b bytes ih => exact congrArg (b :: ·) ih

theorem notMem_singles (bytes : List UInt8) : [] ∉ singles bytes := by simp [singles]

theorem requestFrom_singles {e contentLength : Nat} (he : firstEnd bytes = some e)
    (hcap : e ≤ maxHeaderBytes) : ∀ (walk buf : List UInt8) (n : Nat) (stream : Segments),
    buf ++ walk ++ stream.flatten = bytes → (buf ++ walk).length < e →
    requestFrom (walk.length + n) buf (singles walk ++ stream) contentLength = requestFrom n (buf ++ walk) stream contentLength
  | [], buf, n, stream, _, _ => by rw [length_nil, Nat.zero_add, append_nil]; rfl
  | b :: walk, buf, n, stream, hb, hlt => by
    have hlt' : buf.length < e := by
      rw [length_append] at hlt
      omega
    have hb' : buf ++ (b :: walk ++ stream.flatten) = bytes := by rw [← append_assoc, hb]
    have hnone : findHeaderEnd buf = none := findHeaderEnd_none hb' (by simpa [he] using hlt')
    have hassoc : buf ++ b :: walk = (buf ++ [b]) ++ walk := by rw [append_assoc]; rfl
    rw [hassoc] at hb hlt ⊢
    rw [← requestFrom_singles he hcap walk (buf ++ [b]) n stream hb hlt,
      show (b :: walk).length + n = (walk.length + n) + 1 by rw [length_cons]; omega]
    exact requestFrom_read hnone (by omega) rfl (cons_ne_nil b [])

/-- One by one up to a byte before the blank line, then a number of bytes at once, then one by one again -/
def burst (bytes : List UInt8) (p k : Nat) : Segments :=
  singles (bytes.take (p - 1)) ++ (bytes.drop (p - 1)).take k :: singles (bytes.drop (p - 1 + k))

theorem burst_splits {p k : Nat} (hk : 0 < k) (hp : p ≤ bytes.length) (hpos : 0 < p) : Splits bytes (burst bytes p k) where
  flatten := by
    rw [burst, flatten_append, flatten_cons, flatten_singles, flatten_singles, ← drop_drop, take_append_drop, take_append_drop]
  ne_nil := by
    rw [burst, mem_append, mem_cons, not_or, not_or]
    refine ⟨notMem_singles _, fun h0 => ?_, notMem_singles _⟩
    have := congrArg List.length h0
    simp only [length_nil, length_take, length_drop] at this
    omega

theorem request_burst {p k pos : Nat} (contentLength : Nat) (hp : firstEnd bytes = some p)
    (hcap : p ≤ maxHeaderBytes) (hpos : 0 < p) (hk : 0 < k) (hk' : k ≤ 1024) (hlen : p - 1 + k ≤ bytes.length)
    (hfound : findHeaderEnd (bytes.take (p - 1 + k)) = some pos) :
    request (burst bytes p k) contentLength = outcomeAt bytes pos contentLength := by
  have hsplit := burst_splits hk (firstEnd_le hp) hpos
  have hwalk : (bytes.take (p - 1)).length = p - 1 := by rw [length_take]; omega
  have htake : bytes.take (p - 1) ++ (bytes.drop (p - 1)).take k = bytes.take (p - 1 + k) := take_add.symm
  have hnone : findHeaderEnd (bytes.take (p - 1)) = none := findHeaderEnd_none (take_append_drop (p - 1) bytes) (by simp [hp]; omega)
  have hlast : ((bytes.drop (p - 1)).take k).length = k := by
    rw [length_take, length_drop]
    omega
  calc request (burst bytes p k) contentLength
      = requestFrom ((bytes.take (p - 1)).length + (maxHeaderBytes - p + 1)) [] (burst bytes p k) contentLength := by
        rw [hwalk, show p - 1 + (maxHeaderBytes - p + 1) = maxHeaderBytes by omega]
        rfl
    _ = requestFrom (maxHeaderBytes - p + 1) (bytes.take (p - 1))
          ((bytes.drop (p - 1)).take k :: singles (bytes.drop (p - 1 + k))) contentLength := by
        rw [burst, requestFrom_singles hp hcap, nil_append]
        · have := hsplit.flatten
          rwa [burst, flatten_append, flatten_singles] at this
        · rw [nil_append, hwalk]
          omega
    _ = requestFrom (maxHeaderBytes - p) (bytes.take (p - 1 + k)) (singles (bytes.drop (p - 1 + k))) contentLength := by
        rw [← htake]
        exact requestFrom_read hnone (by omega) (if_pos (by omega)) (fun h0 => by
          rw [h0, length_nil] at hlast
          omega)
    _ = outcomeAt bytes pos contentLength := requestFrom_found (by rw [flatten_singles, take_append_drop]) (notMem_singles _) hfound
          (findHeaderEnd_le hfound)

theorem landed_eq {e L pos contentLength : Nat} (h : ¬ Straddles bytes) (he : firstEnd bytes = some e)
    (heL : e ≤ L) (hLe : L < e + 1024) (hpos : findHeaderEnd (bytes.take L) = some pos) :
    outcomeAt bytes pos contentLength = outcomeAt bytes e contentLength := by
  by_cases hpe : pos = e
  · rw [hpe]
  · rw [findHeaderEnd_take] at hpos
    unfold firstEnd at he
    cases hq : endOf crlfcrlf bytes with
    | none =>
      cases hp : endOf lflf bytes <;> simp [hq, hp, filter_some] at he hpos
      omega
    | some q =>
      cases hp : endOf lflf bytes with
      | none =>
        simp [hq, hp, filter_some] at he hpos
        omega
      | some p =>
        simp only [hq, hp, filter_some, merge_some_some, Option.some.injEq] at he hpos
        have hpq : p < q ∧ pos = q ∧ e = p ∧ q ≤ L := by
          by_cases h1 : q ≤ L <;> by_cases h2 : p ≤ L <;> simp [h1, h2] at hpos <;> omega
        obtain ⟨hlt, rfl, rfl, hqL⟩ := hpq
        have hnone : parseHead (bytes.take e) = none := by
          by_contra hsome
          exact h ⟨e, pos, hp, hq, hlt, by omega, isSome_iff_ne_none.mpr hsome⟩
        have hnone' : parseHead (bytes.take pos) = none := by
          by_contra hsome
          have := parseHead_shorter hp (Nat.le_of_lt hlt) (isSome_iff_ne_none.mpr hsome)
          rw [hnone] at this
          cases this
        unfold outcomeAt
        rw [hnone, hnone']

/-- **Bytes that straddle are read in two ways**: the body that ends with them is whole in the one, short in the other. -/
theorem apart_of_straddles (hcap : (firstEnd bytes).getD (bytes.length + 1) ≤ maxHeaderBytes)
    (h : Straddles bytes) : ∃ stream stream' : Segments, Splits bytes stream ∧ Splits bytes stream' ∧
      ∃ contentLength : Nat, (request stream contentLength).toOption ≠ (request stream' contentLength).toOption := by
  obtain ⟨p, q, hp, hq, hpq, hq', hh⟩ := h
  obtain ⟨head, hh⟩ := isSome_iff_exists.mp hh
  have hfirst : firstEnd bytes = some p := by
    rw [firstEnd, hp, hq]
    exact congrArg some (by omega)
  have hpos : 2 ≤ p := (endOf_bounds hp).1
  have hlen := (endOf_bounds hq).2.1
  rw [hfirst, getD_some] at hcap
  have hfound : ∀ L, p ≤ L → findHeaderEnd (bytes.take L) = some (if q ≤ L then q else p) := fun L hL => by
    rw [findHeaderEnd_take, hp, hq]
    by_cases hqL : q ≤ L <;> simp [filter_some, hqL, hL]
  refine ⟨burst bytes p 1, burst bytes p (q - p + 1), burst_splits (by omega) (by omega) (by omega),
    burst_splits (by omega) (by omega) (by omega), bytes.length - p, fun hne => ?_⟩
  rw [request_burst _ hfirst hcap (by omega) (by omega) (by omega) (by omega) (hfound _ (by omega)),
    request_burst _ hfirst hcap (by omega) (by omega) (by omega) (by omega) (hfound _ (by omega)),
    if_neg (by omega), if_pos (by omega)] at hne
  have hshort : ¬ bytes.length - p ≤ bytes.length - q := by omega
  unfold outcomeAt at hne
  simp only [hh, length_drop, Nat.le_refl, if_true, if_neg hshort] at hne
  split at hne <;> cases hne

/-- **A request is the same however its bytes are split, unless they straddle**: as a whole, with any length of its
body. -/
theorem framing_exact (bytes : List UInt8) (hcap : (firstEnd bytes).getD (bytes.length + 1) ≤ maxHeaderBytes) :
    (∀ stream stream' : Segments, Splits bytes stream → Splits bytes stream' → ∀ contentLength : Nat,
      (request stream contentLength).toOption = (request stream' contentLength).toOption) ↔ ¬ Straddles bytes := by
  constructor
  · intro h hs
    obtain ⟨stream, stream', h1, h2, contentLength, hne⟩ := apart_of_straddles hcap hs
    exact hne (h stream stream' h1 h2 contentLength)
  · intro h stream stream' hs hs' contentLength
    cases he : firstEnd bytes with
    | none =>
      rw [he, getD_none] at hcap
      have hrun : ∀ s, Splits bytes s → request s contentLength = unended bytes := fun s hs =>
        requestFrom_unended he hcap contentLength maxHeaderBytes [] s hs.ne_nil (by rw [nil_append, hs.flatten])
          (by simp)
      rw [hrun _ hs, hrun _ hs']
    | some e =>
      rw [he, getD_some] at hcap
      have hrun : ∀ s, Splits bytes s → request s contentLength = outcomeAt bytes e contentLength := fun s hs => by
        obtain ⟨L, pos, heL, hLe, hpos, hrun⟩ := requestFrom_lands he hcap contentLength maxHeaderBytes [] s hs.ne_nil
          (by rw [nil_append, hs.flatten]) (by simp) (by simp)
        exact hrun.trans (landed_eq h he heL hLe hpos)
      rw [hrun _ hs, hrun _ hs']

def plainRequest : List UInt8 := utf8 "GET / \r\n\r\n\n\n".toList

theorem framing_exact_plain : (firstEnd plainRequest).getD (plainRequest.length + 1) ≤ maxHeaderBytes ∧
    ((∀ stream stream' : Segments, Splits plainRequest stream → Splits plainRequest stream' → ∀ contentLength : Nat,
      (request stream contentLength).toOption = (request stream' contentLength).toOption) ↔ ¬ Straddles plainRequest) :=
  have hcap : (firstEnd plainRequest).getD (plainRequest.length + 1) ≤ maxHeaderBytes := by decide
  ⟨hcap, framing_exact plainRequest hcap⟩

/-- A request whose lines end with line feeds, with the other blank line in its body -/
def mixedRequest : List (List UInt8) := [utf8 "POST / HTTP/1.1\nContent-Length: 5\n\n".toList, utf8 "a\r\n\r\n".toList]

theorem body_in_head : Splits mixedRequest.flatten mixedRequest ∧
    Splits mixedRequest.flatten [mixedRequest.flatten] ∧ mixedRequest.flatten.length ≤ maxHeaderBytes ∧
    (request mixedRequest 5).toOption ≠ (request [mixedRequest.flatten] 5).toOption :=
  ⟨⟨rfl, by decide⟩, ⟨by simp, by decide⟩, by decide, by decide⟩

end Framing
end Mistl.Api
