import Mistl.Lib.JsonParse
import Mistl.Lib.Table
import Mathlib.Algebra.BigOperators.Ring.List
import Mathlib.Algebra.Order.BigOperators.Group.List
/-!
# Serde — records and maps read from a value, and the size of their text

What a derived deserializer does with a value: a record is an object (no field twice, unknown fields refused or
skipped) or the sequence of its fields; a map is filled from an object's members in order.
-/
open List

namespace Mistl.Json

/-- The fields of a record, by name; `none` where one is absent. -/
def structFields (names : List String) (denyUnknown : Bool) : Json → Option (List (Option Json))
  | .obj fields =>
    if names.any (fun n => 1 < (fields.filter (fun f => f.1 == n)).length) then none
    else if denyUnknown && fields.any (fun f => !names.contains f.1) then none
    else some (names.map (fun n => (fields.find? (fun f => f.1 == n)).map Prod.snd))
  | .arr items =>
    if items.length ≤ names.length then some (items.map some ++ List.replicate (names.length - items.length) none)
    else none
  | _ => none

def fillTable {ν : Type} (read : Json → Option ν) : List (String × Json) → Table String ν → Option (Table String ν)
  | [], m => some m
  | (n, j) :: l, m =>
    match read j with
    | none => none
    | some v => fillTable read l (m.insert n v)

def readTable {ν : Type} (read : Json → Option ν) : Json → Option (Table String ν)
  | .obj fields => fillTable read fields ∅
  | _ => none

/-- A map as an object, its members in the order `l`. -/
def tableJson {ν : Type} (show_ : ν → Json) (l : List (Sigma (fun _ : String => ν))) : Json := .obj (l.map (fun e => (e.1, show_ e.2)))

theorem fillTable_of {ν : Type} (read : Json → Option ν) (show_ : ν → Json) :
    ∀ (l : List (Sigma (fun _ : String => ν))) (m : Table String ν), (∀ e ∈ l, read (show_ e.2) = some e.2) →
      (l.map Sigma.fst).Nodup → (∀ e ∈ l, m.get e.1 = none) →
      ∃ n, fillTable read (l.map (fun e => (e.1, show_ e.2))) m = some n ∧ n.entries = (l : Multiset _) + m.entries
  | [], m, _, _, _ => ⟨m, rfl, by simp⟩
  | ⟨k, v⟩ :: l, m, hr, hnd, hm => by
    rw [map_cons, nodup_cons] at hnd
    have hk : m.get k = none := hm ⟨k, v⟩ mem_cons_self
    have hent : (m.insert k v).entries = ⟨k, v⟩ ::ₘ m.entries := Finmap.entries_insert_of_notMem (Finmap.lookup_eq_none.1 hk)
    obtain ⟨n, hn, hne⟩ := fillTable_of read show_ l (m.insert k v) (fun e he => hr e (mem_cons_of_mem _ he)) hnd.2
      (fun e he => by
        rw [Table.get_insert_ne, hm e (mem_cons_of_mem _ he)]
        intro hek
        exact hnd.1 (mem_map.2 ⟨e, he, hek⟩))
    refine ⟨n, ?_, ?_⟩
    · rw [map_cons, fillTable, hr ⟨k, v⟩ mem_cons_self]
      exact hn
    · rw [hne, hent, ← Multiset.cons_coe, Multiset.cons_add, Multiset.add_cons]

theorem readTable_tableJson {ν : Type} (read : Json → Option ν) (show_ : ν → Json) (m : Table String ν)
    (l : List (Sigma (fun _ : String => ν))) (hl : (l : Multiset _) = m.entries)
    (hr : ∀ e ∈ l, read (show_ e.2) = some e.2) : readTable read (tableJson show_ l) = some m := by
  have hnd : (l.map Sigma.fst).Nodup := by
    have h := Multiset.nodup_keys.2 (Finmap.nodupKeys m)
    have hk : m.entries.keys = ((l.map Sigma.fst : List String) : Multiset String) := by
      rw [← hl]; rfl
    rw [show Finmap.entries m = m.entries from rfl, hk] at h
    exact Multiset.coe_nodup.1 h
  obtain ⟨n, hn, hne⟩ := fillTable_of read show_ l ∅ hr hnd (fun _ _ => rfl)
  rw [tableJson, readTable, hn]
  congr 1
  refine Finmap.ext ?_
  rw [show Finmap.entries n = n.entries from rfl, hne, hl]
  exact Multiset.add_zero _

/-! ## Sizes -/

def size (j : Json) : Nat := (toVec j).length

def stringSize (s : String) : Nat := (utf8 (writeString s)).length

def fieldsSize : List (String × Json) → Nat
  | [] => 0
  | (n, j) :: l => stringSize n + size j + 2 + fieldsSize l

theorem utf8_singleton_length {c : Char} (h : c.utf8Size = 1) : (String.utf8EncodeChar c).length = 1 := by
  rw [String.length_utf8EncodeChar, h]

theorem writeFields_size : ∀ (fields : List (String × Json)), fields ≠ [] → (utf8 (writeFields fields)).length + 1 = fieldsSize fields
  | [], h => absurd rfl h
  | [(n, j)], _ => by
    rw [writeFields, utf8_append, utf8_cons, length_append, length_append,
      utf8_singleton_length (by decide), fieldsSize, fieldsSize, stringSize, size, toVec]
    omega
  | (n, j) :: k :: l, _ => by
    have ih := writeFields_size (k :: l) (by simp)
    rw [writeFields, utf8_append, utf8_cons, utf8_append, utf8_cons, length_append, length_append,
      length_append, length_append, utf8_singleton_length (by decide), utf8_singleton_length (by decide),
      fieldsSize, stringSize, size, toVec]
    omega

theorem length_enclosed {a b : Char} (ha : a.utf8Size = 1) (hb : b.utf8Size = 1) (text : List Char) :
    (utf8 (a :: (text ++ [b]))).length = (utf8 text).length + 2 := by
  rw [utf8_cons, utf8_append, utf8_cons, utf8_nil, append_nil, length_append, length_append,
    utf8_singleton_length ha, utf8_singleton_length hb]
  omega

theorem size_obj_le (fields : List (String × Json)) : size (.obj fields) ≤ fieldsSize fields + 2 := by
  rw [size, toVec, write, length_enclosed (by decide) (by decide)]
  cases fields with
  | nil => simp [writeFields]
  | cons f l => rw [← writeFields_size (f :: l) (by simp)]; omega

theorem size_obj (f : String × Json) (l : List (String × Json)) : size (.obj (f :: l)) = fieldsSize (f :: l) + 1 := by
  rw [size, toVec, write, length_enclosed (by decide) (by decide), ← writeFields_size (f :: l) (by simp)]

theorem size_arr_le (items : List Json) : size (.arr items) ≤ (items.map (fun j => size j + 1)).sum + 2 := by
  have hitems : ∀ items : List Json, (utf8 (writeItems items)).length ≤ (items.map (fun j => size j + 1)).sum := by
    intro items
    induction items with
    | nil => exact Nat.zero_le _
    | cons j items ih =>
      cases items with
      | nil => exact Nat.le_succ _
      | cons k l =>
        rw [writeItems, utf8_append, utf8_cons, length_append, length_append, utf8_singleton_length (by decide),
          map_cons, List.sum_cons, size, toVec]
        omega
  have := hitems items
  rw [size, toVec, write, length_enclosed (by decide) (by decide)]
  omega

theorem length_utf8 (text : List Char) : (utf8 text).length = (String.ofList text).utf8ByteSize := by
  induction text with
  | nil => rfl
  | cons c t ih =>
    rw [utf8_cons, length_append, String.length_utf8EncodeChar, ih, String.ofList_cons,
      String.utf8ByteSize_append, String.utf8ByteSize_singleton]

theorem utf8Size_ascii {c : Char} (h : c.toNat < 128) : c.utf8Size = 1 := by
  refine if_pos ?_
  exact Nat.lt_succ_iff.1 h

theorem length_utf8_ascii : ∀ {text : List Char}, (∀ c ∈ text, c.toNat < 128) → (utf8 text).length = text.length
  | [], _ => rfl
  | c :: text, h => by
    rw [utf8_cons, length_append, String.length_utf8EncodeChar, utf8Size_ascii (h c mem_cons_self),
      length_utf8_ascii (fun c hc => h c (mem_cons_of_mem _ hc)), length_cons, Nat.add_comm]

theorem utf8ByteSize_ascii {text : List Char} (h : ∀ c ∈ text, c.toNat < 128) : (String.ofList text).utf8ByteSize = text.length := by
  rw [← length_utf8, length_utf8_ascii h]

theorem length_utf8_le : ∀ (text : List Char), (utf8 text).length ≤ 4 * text.length
  | [] => Nat.le_refl _
  | c :: t => by
    have hc := c.utf8Size_le_four
    have ih := length_utf8_le t
    rw [utf8_cons, length_append, String.length_utf8EncodeChar, length_cons]
    omega

theorem stringSize_eq (s : String) : stringSize s = (utf8 (s.toList.flatMap escapeChar)).length + 2 :=
  length_enclosed (by decide) (by decide) _

theorem stringSize_plain {s : String} (h : ∀ c ∈ s.toList, escapeChar c = [c]) : stringSize s = s.utf8ByteSize + 2 := by
  have hflat : s.toList.flatMap escapeChar = s.toList := by
    have hf := flatMap_congr (f := escapeChar) (g := fun c => [c]) h
    rw [hf, flatMap_singleton']
  rw [stringSize_eq, hflat, length_utf8, String.ofList_toList]

theorem length_escapeChar (c : Char) : (utf8 (escapeChar c)).length = 2 ∨
    (c.toNat < 32 ∧ (utf8 (escapeChar c)).length = 6) ∨ (utf8 (escapeChar c)).length = c.utf8Size := by
  have htwo : ∀ d : Char, d.utf8Size = 1 → (utf8 ['\x5c', d]).length = 2 := by
    intro d hd
    rw [utf8_cons, utf8_cons, utf8_nil, length_append, length_append, utf8_singleton_length (by decide),
      utf8_singleton_length hd, length_nil]
  have hdigit : ∀ n < 16, n.digitChar.utf8Size = 1 := by decide
  unfold escapeChar
  repeat' split
  iterate 7 exact .inl (htwo _ (by decide))
  · rename_i h
    refine .inr (.inl ⟨h, ?_⟩)
    simp only [utf8_cons, length_append, String.length_utf8EncodeChar, hdigit _ (by omega : c.toNat / 16 < 16), hdigit _ (by omega : c.toNat % 16 < 16)]
    decide
  · rw [utf8_cons, utf8_nil, append_nil, String.length_utf8EncodeChar]
    exact .inr (.inr rfl)

theorem length_escapeChar_le_six (c : Char) : (utf8 (escapeChar c)).length ≤ 6 := by
  have := c.utf8Size_le_four
  have := length_escapeChar c
  omega

theorem length_escapeChar_le (c : Char) : (utf8 (escapeChar c)).length ≤ 6 * c.utf8Size := by
  have := c.utf8Size_pos
  have := length_escapeChar c
  omega

theorem stringSize_le_sum {s : String} {bound : Char → Nat} (h : ∀ c ∈ s.toList, (utf8 (escapeChar c)).length ≤ bound c) :
    stringSize s ≤ (s.toList.map bound).sum + 2 := by
  rw [stringSize_eq, utf8, flatMap_assoc, length_flatMap]
  exact Nat.add_le_add_right (List.sum_le_sum h) 2

theorem sum_utf8Size (text : List Char) : (text.map Char.utf8Size).sum = (String.ofList text).utf8ByteSize := by
  simp only [← length_utf8, utf8, length_flatMap, String.length_utf8EncodeChar]

theorem stringSize_le (s : String) : stringSize s ≤ 6 * s.utf8ByteSize + 2 := by
  have hsum := stringSize_le_sum (fun c (_ : c ∈ s.toList) => length_escapeChar_le c)
  rwa [List.sum_map_mul_left, sum_utf8Size, String.ofList_toList] at hsum

theorem stringSize_le_length (s : String) : stringSize s ≤ s.toList.length * 6 + 2 := by
  have hsum := stringSize_le_sum (fun c (_ : c ∈ s.toList) => length_escapeChar_le_six c)
  rwa [map_const', sum_replicate_nat] at hsum

theorem size_str (s : String) : size (.str s) = stringSize s := by
  rw [size, toVec, write, stringSize]

mutual
/-- A bound on the size, without the text -/
def sizeBound : Json → Nat
  | .str s => 6 * s.utf8ByteSize + 2
  | .arr items => itemsBound items + 2
  | .obj fields => fieldsBound fields + 2
  | j => size j

def itemsBound : List Json → Nat
  | [] => 0
  | j :: items => sizeBound j + 1 + itemsBound items

def fieldsBound : List (String × Json) → Nat
  | [] => 0
  | (n, j) :: fields => 6 * n.utf8ByteSize + 2 + sizeBound j + 2 + fieldsBound fields
end

mutual
theorem size_le_bound : ∀ j : Json, size j ≤ sizeBound j
  | .str s => by exact stringSize_le s
  | .arr items => (size_arr_le items).trans (Nat.add_le_add_right (items_le_bound items) 2)
  | .obj fields => (size_obj_le fields).trans (Nat.add_le_add_right (fields_le_bound fields) 2)
  | .null | .bool _ | .int _ | .float _ => le_rfl

theorem items_le_bound : ∀ items : List Json, (items.map (fun j => size j + 1)).sum ≤ itemsBound items
  | [] => le_rfl
  | j :: items => by
    exact Nat.add_le_add (Nat.succ_le_succ (size_le_bound j)) (items_le_bound items)

theorem fields_le_bound : ∀ fields : List (String × Json), fieldsSize fields ≤ fieldsBound fields
  | [] => le_rfl
  | (n, j) :: fields => by
    have := stringSize_le n
    have := size_le_bound j
    have := fields_le_bound fields
    rw [fieldsSize, fieldsBound]
    omega
end

theorem size_int_le {n : Nat} (h : n < 2 ^ 64) : size (.int n) ≤ 80 := by
  have hdigits : (Nat.toDigits 10 n).length ≤ 20 :=
    (Nat.length_toDigits_le_iff (by decide) (by decide)).2 (lt_of_lt_of_le h (by decide))
  have hle := length_utf8_le (Nat.toDigits 10 n)
  rw [size, toVec, write, writeInt, if_neg (by omega), Int.natAbs_natCast]
  omega

end Mistl.Json
