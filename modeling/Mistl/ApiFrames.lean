import Mistl.ApiHttp
/-!
# ApiFrames — response heads as lines

A head is one status line and the header lines of its endpoint.  The granted origin and a tunnel's type have no line
break; the type of a speech response is written as it is.
-/
open List

namespace Mistl.Api

open Authz (isWhitespace)
open Folder (trim)

/-! ## Line breaks -/

def breaks (text : String) : Nat := text.toList.countP fun c => c == '\r' || c == '\n'

@[simp] theorem breaks_append (a b : String) : breaks (a ++ b) = breaks a + breaks b := by
  unfold breaks
  rw [String.toList_append, countP_append]

theorem breaks_eq_zero {text : String} : breaks text = 0 ↔ ∀ c ∈ text.toList, c ≠ '\r' ∧ c ≠ '\n' := by
  unfold breaks
  rw [countP_eq_zero]
  refine forall_congr' (fun c => imp_congr_right (fun _ => ?_))
  rw [Bool.not_eq_true, Bool.or_eq_false_iff, beq_eq_false_iff_ne, beq_eq_false_iff_ne]

theorem breaksLine_eq_false {text : String} : breaksLine text = false ↔ breaks text = 0 := by
  unfold breaksLine
  rw [any_eq_false, breaks_eq_zero]
  refine forall_congr' (fun c => imp_congr_right (fun _ => ?_))
  rw [Bool.not_eq_true, Bool.or_eq_false_iff, beq_eq_false_iff_ne, beq_eq_false_iff_ne]

@[simp] theorem breaks_toString (n : Nat) : breaks (toString n) = 0 := by
  rw [breaks_eq_zero]
  intro c hc
  have hdigit : c.isDigit = true := by
    refine Json.isDigit_toDigits n c ?_
    rwa [show (toString n).toList = Nat.toDigits 10 n from String.toList_ofList] at hc
  exact ⟨Json.ne_of_isDigit hdigit rfl, Json.ne_of_isDigit hdigit rfl⟩

/-! ## Framed heads -/

def linesText : List (String × String) → String
  | [] => ""
  | l :: lines => l.1 ++ ": " ++ l.2 ++ "\r\n" ++ linesText lines

theorem linesText_append : ∀ lines lines' : List (String × String), linesText (lines ++ lines') = linesText lines ++ linesText lines'
  | [], _ => String.empty_append.symm
  | l :: lines, lines' => by
    rw [cons_append, linesText, linesText, linesText_append lines lines', ← String.append_assoc]

def Framed (head : String) (names : List String) : Prop := ∃ (status : Nat) (reason : String) (lines : List (String × String)),
    head = "HTTP/1.1 " ++ toString status ++ " " ++ reason ++ "\r\n" ++ linesText lines ++ "\r\n" ∧
      lines.map Prod.fst = names ∧ breaks reason = 0 ∧ ∀ l ∈ lines, breaks l.1 = 0 ∧ breaks l.2 = 0

theorem breaks_linesText : ∀ {lines : List (String × String)}, (∀ l ∈ lines, breaks l.1 = 0 ∧ breaks l.2 = 0) →
    breaks (linesText lines) = 2 * lines.length
  | [], _ => rfl
  | l :: lines, h => by
    obtain ⟨hname, hvalue⟩ := h l mem_cons_self
    rw [linesText, breaks_append, breaks_append, breaks_append, breaks_append, breaks_linesText (fun l hl => h l (mem_cons_of_mem _ hl)), show breaks ": " = 0 from rfl,
      show breaks "\r\n" = 2 from rfl, length_cons]
    omega

theorem Framed.breaks {head : String} {names : List String} (h : Framed head names) : breaks head = 2 * names.length + 4 := by
  obtain ⟨status, reason, lines, rfl, rfl, hreason, hlines⟩ := h
  rw [breaks_append, breaks_append, breaks_append, breaks_append, breaks_append, breaks_append, breaks_toString, breaks_linesText hlines, show Api.breaks "HTTP/1.1 " = 0 from rfl, show Api.breaks " " = 0 from rfl,
    show Api.breaks "\r\n" = 2 from rfl, length_map]
  omega

/-! ## The granted origin -/

theorem trim_trim (cs : List Char) : trim (trim cs) = trim cs := by
  unfold trim
  have hhead : ((cs.dropWhile isWhitespace).rdropWhile isWhitespace).dropWhile isWhitespace =
      (cs.dropWhile isWhitespace).rdropWhile isWhitespace := by
    rw [dropWhile_eq_self_iff]
    intro hpos
    have hstarts := rdropWhile_prefix isWhitespace (l := cs.dropWhile isWhitespace)
    have hne : 0 < (cs.dropWhile isWhitespace).length := Nat.lt_of_lt_of_le hpos hstarts.length_le
    rw [hstarts.getElem hpos]
    exact (dropWhile_eq_self_iff.1 (dropWhile_idempotent _ _)) hne
  rw [hhead, rdropWhile_idempotent]

theorem normalizeOrigin_plain {value : List Char} {normalized : String} (h : normalizeOrigin value = some normalized) :
    ∀ c ∈ trim value, c ≠ '\r' ∧ c ≠ '\n' := by
  obtain ⟨⟨scheme, authority⟩, hsplit, h⟩ := Option.bind_eq_some_iff.1 h
  simp only at h
  have hscheme' : scheme.map Char.toLower = "http".toList ∨ scheme.map Char.toLower = "https".toList := by
    by_contra hc
    rw [if_neg (fun h => hc (.inl h)), if_neg (fun h => hc (.inr h))] at h
    cases h
  have hauthority' : (authority.isEmpty || !authority.all (fun c => c.isAlphanum || "-.:[]".toList.contains c)) = false := by
    by_contra hc
    rw [Bool.not_eq_false] at hc
    simp only [hc] at h
    rcases hscheme' with hs | hs <;> simp [hs] at h
  rw [Bool.or_eq_false_iff, Bool.not_eq_false'] at hauthority'
  have hscheme : ∀ c ∈ scheme, c ≠ '\r' ∧ c ≠ '\n' := by
    intro c hc
    have hmem : c.toLower ∈ scheme.map Char.toLower := mem_map_of_mem hc
    constructor <;> rintro rfl <;> rcases hscheme' with hs | hs <;> rw [hs] at hmem <;> exact absurd hmem (by decide)
  have hauthority : ∀ c ∈ authority, c ≠ '\r' ∧ c ≠ '\n' := by
    intro c hc
    have hok := List.all_eq_true.1 hauthority'.2 c hc
    constructor <;> rintro rfl <;> exact absurd hok (by decide)
  obtain ⟨⟨i, hi, hsep⟩, -⟩ := dropInfix?_eq_some_iff.1 hsplit
  rw [eq_of_beq hsep] at hi
  have hbase : ∀ c ∈ ((trim value).dropSuffix? ['/']).getD (trim value), c ≠ '\r' ∧ c ≠ '\n' := by
    intro c hc
    rw [hi] at hc
    rcases mem_append.1 hc with hc | hc
    · rcases mem_append.1 hc with hc | hc
      · exact hscheme c hc
      · constructor <;> rintro rfl <;> exact absurd hc (by decide)
    · exact hauthority c hc
  cases hs : (trim value).dropSuffix? ['/'] with
  | none => rwa [hs] at hbase
  | some base =>
    rw [hs] at hbase
    obtain ⟨slash, hvalue, hslash⟩ := dropSuffix?_eq_some_iff.1 hs
    intro c hc
    rw [hvalue, eq_of_beq hslash] at hc
    rcases mem_append.1 hc with hc | hc
    · exact hbase c hc
    · rw [mem_singleton.1 hc]
      decide

variable {allowed : List String} {head : RequestHead}

theorem corsOrigin_plain {origin : String} (h : corsOrigin head allowed = some origin) : breaks origin = 0 := by
  obtain ⟨value, -, h⟩ := Option.bind_eq_some_iff.1 h
  obtain ⟨normalized, hnormalized, h⟩ := Option.bind_eq_some_iff.1 h
  split at h
  · cases h
    rw [breaks_eq_zero, String.toList_ofList, ← trim_trim]
    exact normalizeOrigin_plain hnormalized
  · cases h

variable {Ip : Type} [DecidableEq Ip] (addr : Local Ip)

theorem checkRequestGuards_plain {granted : Option String}
    (h : checkRequestGuards addr head allowed = .ok granted) : ∀ origin, granted = some origin → breaks origin = 0 := by
  rintro origin rfl
  unfold checkRequestGuards at h
  split_ifs at h
  split at h
  · cases h
  · split_ifs at h
    · cases h
    · split at h
      · rename_i hcors
        cases h
        exact corsOrigin_plain hcors
      · cases h

/-! ## Answers -/

def corsLines : Option String → List (String × String)
  | some origin => [("Access-Control-Allow-Origin", origin), ("Vary", "Origin")]
  | none => []

theorem corsHeaders_eq : ∀ granted : Option String, corsHeaders granted = linesText (corsLines granted)
  | none => rfl
  | some origin => by
    have horigin : "Access-Control-Allow-Origin: " = "Access-Control-Allow-Origin" ++ ": " := rfl
    have hvary : "\r\nVary: Origin\r\n" = "\r\n" ++ ("Vary" ++ (": " ++ ("Origin" ++ "\r\n"))) := rfl
    unfold corsHeaders corsLines linesText linesText linesText
    simp only [horigin, hvary, String.append_assoc, String.append_empty]

theorem breaks_names : breaks "Access-Control-Allow-Origin" = 0 ∧ breaks "Content-Length" = 0 ∧
    breaks "Content-Type" = 0 := ⟨rfl, rfl, rfl⟩

def headerNames (granted : Option String) (body : Body) : List String := (match body with
    | .events _ => ["Content-Type", "Transfer-Encoding", "Cache-Control"]
    | _ => ["Content-Type", "Content-Length"]) ++ (corsLines granted).map Prod.fst ++ ["Connection"]

section Framing
variable {granted : Option String} (hgranted : ∀ origin, granted = some origin → breaks origin = 0)
include hgranted

theorem framed_of {status : Nat} {reason head : String} {fields : List (String × String)} (hreason : breaks reason = 0)
    (hfields : ∀ l ∈ fields, breaks l.1 = 0 ∧ breaks l.2 = 0)
    (h : head = "HTTP/1.1 " ++ toString status ++ " " ++ reason ++ "\r\n" ++ linesText fields ++ corsHeaders granted ++
      "Connection: close\r\n\r\n") : Framed head (fields.map Prod.fst ++ (corsLines granted).map Prod.fst ++ ["Connection"]) := by
  refine ⟨status, reason, fields ++ corsLines granted ++ [("Connection", "close")], ?_, ?_, hreason, fun l hl => ?_⟩
  · rw [h, corsHeaders_eq, linesText_append, linesText_append,
      show "Connection: close\r\n\r\n" = linesText [("Connection", "close")] ++ "\r\n" from rfl]
    simp only [String.append_assoc]
  · rw [map_append, map_append]
    rfl
  · rcases mem_append.1 hl with hl | hl
    · rcases mem_append.1 hl with hl | hl
      · exact hfields l hl
      · cases granted with
        | none => cases hl
        | some origin =>
          rcases mem_cons.1 hl with rfl | hl
          · exact ⟨breaks_names.1, hgranted origin rfl⟩
          · rw [mem_singleton.1 hl]
            exact ⟨rfl, rfl⟩
    · rw [mem_singleton.1 hl]
      exact ⟨rfl, rfl⟩

theorem writeJsonResponse_framed (status : Nat) {reason : String} (hreason : breaks reason = 0) (body : Json) :
    Framed (writeJsonResponse (corsHeaders granted) status reason body).head (headerNames granted (.json body)) := by
  refine @framed_of granted hgranted status _ _ [("Content-Type", "application/json"),
    ("Content-Length", toString (Json.toVec body).length)] hreason ?_ ?_
  · intro l hl
    rcases mem_cons.1 hl with rfl | hl
    · exact ⟨rfl, rfl⟩
    · rw [mem_singleton.1 hl]
      exact ⟨breaks_names.2.1, breaks_toString _⟩
  · unfold writeJsonResponse writeJsonResponseWithHeaders linesText linesText linesText
    rw [show "\r\nContent-Type: application/json\r\nContent-Length: " =
      "\r\n" ++ ("Content-Type" ++ ": " ++ "application/json" ++ "\r\n" ++ ("Content-Length" ++ ": ")) from rfl]
    simp only [String.append_assoc, String.append_empty]

theorem sseResponseHeader_framed (events : List SseEvent) :
    Framed (sseResponseHeader (corsHeaders granted)) (headerNames granted (.events events)) := by
  refine @framed_of granted hgranted 200 "OK" _ [("Content-Type", "text/event-stream"), ("Transfer-Encoding", "chunked"),
    ("Cache-Control", "no-cache")] rfl ?_ ?_
  · intro l hl
    simp only [mem_cons, not_mem_nil, or_false] at hl
    rcases hl with rfl | rfl | rfl <;> exact ⟨rfl, rfl⟩
  · rfl

theorem typed_framed (status : Nat) {reason : String} (hreason : breaks reason = 0) (type : String) (bytes : List UInt8) :
    Framed ("HTTP/1.1 " ++ toString status ++ " " ++ reason ++ "\r\nContent-Type: " ++ type ++ "\r\nContent-Length: " ++
      toString bytes.length ++ "\r\n" ++ corsHeaders granted ++ "Connection: close\r\n\r\n")
      (headerNames granted (.bytes bytes)) ↔ breaks type = 0 := by
  have hcors : breaks (corsHeaders granted) = 2 * (corsLines granted).length := by
    rw [corsHeaders_eq]
    refine breaks_linesText (fun l hl => ?_)
    cases granted with
    | none => cases hl
    | some origin =>
      rcases mem_cons.1 hl with rfl | hl
      · exact ⟨breaks_names.1, hgranted origin rfl⟩
      · rw [mem_singleton.1 hl]
        exact ⟨rfl, rfl⟩
  constructor
  · intro h
    have hcount := h.breaks
    have hnames : (headerNames granted (.bytes bytes)).length = (corsLines granted).length + 3 := by
      unfold headerNames
      rw [length_append, length_append, length_map]
      simp only [length_cons, length_nil]
      omega
    have hliterals : breaks "HTTP/1.1 " = 0 ∧ breaks " " = 0 ∧ breaks "\r\nContent-Type: " = 2 ∧
        breaks "\r\nContent-Length: " = 2 ∧ breaks "\r\n" = 2 ∧ breaks "Connection: close\r\n\r\n" = 4 :=
      ⟨rfl, rfl, rfl, rfl, rfl, rfl⟩
    obtain ⟨h1, h2, h3, h4, h5, h6⟩ := hliterals
    simp only [breaks_append] at hcount
    omega
  · intro htype
    refine @framed_of granted hgranted status _ _ [("Content-Type", type), ("Content-Length", toString bytes.length)]
      hreason ?_ ?_
    · intro l hl
      rcases mem_cons.1 hl with rfl | hl
      · exact ⟨breaks_names.2.2, htype⟩
      · rw [mem_singleton.1 hl]
        exact ⟨breaks_names.2.1, breaks_toString _⟩
    · have htypeName : "\r\nContent-Type: " = "\r\n" ++ ("Content-Type" ++ ": ") := rfl
      have hlengthName : "\r\nContent-Length: " = "\r\n" ++ ("Content-Length" ++ ": ") := rfl
      unfold linesText linesText linesText
      simp only [htypeName, hlengthName, String.append_assoc, String.append_empty]

theorem writeTunnelResponse_framed (response : TunnelResponse) : Framed
    (writeTunnelResponse (corsHeaders granted) response).head (headerNames granted (.bytes response.body)) := by
  refine (typed_framed hgranted response.status ?_ _ response.body).2 ?_
  · split <;> rfl
  · cases h : breaksLine response.contentType with
    | true =>
      rw [if_pos rfl]
      rfl
    | false => exact breaksLine_eq_false.1 h

theorem writeAudio_framed (audio : TtsAudio) : Framed (writeAudio (corsHeaders granted) audio).head
    (headerNames granted (.bytes audio.bytes)) ↔ breaksLine audio.mime = false := by
  rw [breaksLine_eq_false, ← typed_framed hgranted 200 (show breaks "OK" = 0 from rfl) audio.mime audio.bytes]
  have hstatus : "HTTP/1.1 200 OK\r\nContent-Type: " =
      "HTTP/1.1 " ++ toString 200 ++ " " ++ "OK" ++ "\r\nContent-Type: " := rfl
  unfold writeAudio
  rw [hstatus]

theorem writeBackendFailure_framed : ∀ e : Failure, Framed (writeBackendFailure (corsHeaders granted) e).head
    (headerNames granted (writeBackendFailure (corsHeaders granted) e).body)
  | .modelNotFound _ => writeJsonResponse_framed hgranted 404 rfl _
  | .toolsUnsupported => writeJsonResponse_framed hgranted 400 rfl _
  | .other => writeJsonResponse_framed hgranted 502 rfl _

end Framing

end Mistl.Api
