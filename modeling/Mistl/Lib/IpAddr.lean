import Mathlib.Data.List.Basic
/-!
# IpAddr — the text of an internet address

The grammar that a standard parser of IPv4 and IPv6 addresses reads: four decimal octets without leading zeros; eight
groups of hexadecimal digits, of which a run may be left out by `::` and of which the last two may be four octets.
-/
open Option

namespace Mistl

inductive IpAddr where
  | v4 (octets : List Nat)
  | v6 (segments : List Nat)
  deriving DecidableEq

namespace IpAddr

/-- A reader takes a value off the front, or nothing. -/
abbrev Reader (α : Type) := List Char → Option (α × List Char)

/-- What a digit stands for, in either case; `radix` for what is none. -/
def digitNum (radix : Nat) (c : Char) : Nat :=
  if 48 ≤ c.toNat ∧ c.toNat ≤ 57 then c.toNat - 48
  else if 97 ≤ c.toNat ∧ c.toNat ≤ 122 then c.toNat - 97 + 10
  else if 65 ≤ c.toNat ∧ c.toNat ≤ 90 then c.toNat - 65 + 10
  else radix

def digitVal (radix : Nat) (c : Char) : Option Nat := if digitNum radix c < radix then some (digitNum radix c) else none

def readGiven (c : Char) : List Char → Option (List Char)
  | [] => none
  | x :: rest => if x = c then some rest else none

/-- All the digits there are: at least one, not too many, and no leading zero where none is allowed. -/
def readNumber (radix maxDigits bound : Nat) (zeroPrefix : Bool) : Reader Nat := fun l =>
  let digits := l.takeWhile (fun c => (digitVal radix c).isSome)
  let n := digits.foldl (fun n c => radix * n + (digitVal radix c).getD 0) 0
  if digits = [] ∨ maxDigits < digits.length then none
  else if zeroPrefix = false ∧ l.head? = some '0' ∧ 1 < digits.length then none
  else if n ≤ bound then some (n, l.dropWhile (fun c => (digitVal radix c).isSome)) else none

def readSeparator {α : Type} (sep : Char) (first : Bool) (read : Reader α) : Reader α := fun l =>
  if first then read l else (readGiven sep l).bind read

/-- `n` times, with a separator between. -/
def readSeparated (sep : Char) (read : Reader Nat) : Nat → Bool → Reader (List Nat)
  | 0, _, l => some ([], l)
  | n + 1, first, l => (readSeparator sep first read l).bind (fun p : Nat × List Char =>
    (readSeparated sep read n false p.2).map (fun q => (p.1 :: q.1, q.2)))

def readIpv4 : Reader (List Nat) := readSeparated '.' (readNumber 10 3 255 false) 4 true

/-- As many groups as there are, up to a limit; the last two may be written as four octets. -/
def readGroups : Nat → Bool → List Char → List Nat × Bool × List Char
  | 0, _, l => ([], false, l)
  | left + 1, first, l =>
    match (if 1 ≤ left then readSeparator ':' first readIpv4 l else none) with
    | some (octets, rest) => ([256 * octets.getD 0 0 + octets.getD 1 0, 256 * octets.getD 2 0 + octets.getD 3 0], true, rest)
    | none =>
      match readSeparator ':' first (readNumber 16 4 65535 true) l with
      | some (group, rest) =>
        let p := readGroups left false rest
        (group :: p.1, p.2.1, p.2.2)
      | none => ([], false, l)

def readIpv6 : Reader (List Nat) := fun l =>
  let p := readGroups 8 true l
  if p.1.length = 8 then some (p.1, p.2.2)
  else if p.2.1 then none
  else ((readGiven ':' p.2.2).bind (readGiven ':')).map (fun rest =>
    let q := readGroups (8 - (p.1.length + 1)) true rest
    (p.1 ++ List.replicate (8 - p.1.length - q.1.length) 0 ++ q.1, q.2.2))

def parse (l : List Char) : Option IpAddr := match (match readIpv4 l with
    | some (octets, rest) => some (v4 octets, rest)
    | none => (readIpv6 l).map (fun p : List Nat × List Char => (v6 p.1, p.2))) with
  | some (addr, []) => some addr
  | _ => none

def isLoopback : IpAddr → Bool
  | v4 octets => octets.getD 0 0 = 127
  | v6 segments => segments = [0, 0, 0, 0, 0, 0, 0, 1]

/-! ## Case -/

def Caseless {α : Type} (read : Reader α) : Prop := ∀ l, read (l.map Char.toLower) = (read l).map (fun p => (p.1, p.2.map Char.toLower))

theorem toLower_eq (c : Char) : c.toLower = c ∨ (65 ≤ c.toNat ∧ c.toNat ≤ 90 ∧ c.toLower.toNat = c.toNat + 32) := by
  unfold Char.toLower
  split
  · rename_i h
    refine Or.inr ⟨?_, ?_, ?_⟩
    · exact h.1
    · exact h.2
    · have hle : c.val.toNat ≤ 90 := h.2
      show (c.val + ('a'.val - 'A'.val)).toNat = c.val.toNat + 32
      rw [UInt32.toNat_add]
      have h32 : ('a'.val - 'A'.val).toNat = 32 := by decide
      omega
  · exact Or.inl rfl

theorem digitNum_toLower (radix : Nat) (c : Char) : digitNum radix c.toLower = digitNum radix c := by
  rcases toLower_eq c with h | ⟨hlo, hhi, heq⟩
  · rw [h]
  · unfold digitNum
    rw [if_neg (by omega), if_pos (by omega), if_neg (by omega), if_neg (by omega), if_pos (by omega)]
    omega

theorem digitVal_toLower (radix : Nat) (c : Char) : digitVal radix c.toLower = digitVal radix c := by
  unfold digitVal
  rw [digitNum_toLower]

theorem toLower_toLower (c : Char) : c.toLower.toLower = c.toLower := by
  rcases toLower_eq c with h | ⟨hlo, hhi, heq⟩
  · rw [h, h]
  · rcases toLower_eq c.toLower with h | ⟨hlo', hhi', -⟩
    · exact h
    · omega

theorem toLower_eq_iff {c sep : Char} (hsep : sep.toNat < 65 ∨ (90 < sep.toNat ∧ sep.toNat < 97) ∨ 122 < sep.toNat) :
    c.toLower = sep ↔ c = sep := by
  rcases toLower_eq c with h | ⟨hlo, hhi, heq⟩
  · rw [h]
  · constructor
    · intro hs
      rw [hs] at heq
      omega
    · rintro rfl
      omega

theorem readNumber_caseless (radix maxDigits bound : Nat) (zeroPrefix : Bool) : Caseless (readNumber radix maxDigits bound zeroPrefix) := by
  intro l
  have hpred : (fun c => (digitVal radix c).isSome) ∘ Char.toLower = (fun c => (digitVal radix c).isSome) := by
    funext c
    simp [digitVal_toLower]
  have hhead : (l.map Char.toLower).head? = some '0' ↔ l.head? = some '0' := by
    cases l with
    | nil => simp
    | cons c l =>
      simp only [List.map_cons, List.head?_cons, Option.some.injEq]
      exact toLower_eq_iff (.inl (by decide))
  unfold readNumber
  simp only [List.takeWhile_map, List.dropWhile_map, hpred, List.foldl_map, digitVal_toLower, List.map_eq_nil_iff, List.length_map, hhead]
  split
  · rfl
  · split
    · rfl
    · split <;> rfl

theorem readGiven_toLower {c : Char} (hc : c.toNat < 65) (l : List Char) :
    readGiven c (l.map Char.toLower) = (readGiven c l).map (List.map Char.toLower) := by
  cases l with
  | nil => rfl
  | cons x l =>
    simp only [List.map_cons, readGiven, toLower_eq_iff (.inl hc)]
    split <;> rfl

theorem Caseless.separator {α : Type} {sep : Char} {first : Bool} {read : Reader α} (hsep : sep.toNat < 65) (h : Caseless read) :
    Caseless (readSeparator sep first read) := by
  intro l
  unfold readSeparator
  split
  · exact h l
  · rw [readGiven_toLower hsep]
    cases readGiven sep l with
    | none => rfl
    | some rest => exact h rest

theorem Caseless.separated {sep : Char} {read : Reader Nat} (hsep : sep.toNat < 65) (h : Caseless read) :
    ∀ (n : Nat) (first : Bool), Caseless (readSeparated sep read n first)
  | 0, _, _ => rfl
  | n + 1, first, l => by
    have hnext := Caseless.separated hsep h n false
    simp only [readSeparated, h.separator hsep l]
    cases readSeparator sep first read l with
    | none => rfl
    | some p =>
      simp only [map_some, bind_some, hnext p.2]
      cases readSeparated sep read n false p.2 <;> rfl

theorem readIpv4_caseless : Caseless readIpv4 := (readNumber_caseless 10 3 255 false).separated (by decide) 4 true

theorem readGroups_toLower : ∀ (left : Nat) (first : Bool) (l : List Char), readGroups left first (l.map Char.toLower) =
    ((readGroups left first l).1, (readGroups left first l).2.1, (readGroups left first l).2.2.map Char.toLower)
  | 0, _, _ => rfl
  | left + 1, first, l => by
    have hv4 : (if 1 ≤ left then readSeparator ':' first readIpv4 (l.map Char.toLower) else none) =
        (if 1 ≤ left then readSeparator ':' first readIpv4 l else none).map (fun p => (p.1, p.2.map Char.toLower)) := by
      split
      · exact readIpv4_caseless.separator (by decide) l
      · rfl
    have hgroup : readSeparator ':' first (readNumber 16 4 65535 true) (l.map Char.toLower) =
        (readSeparator ':' first (readNumber 16 4 65535 true) l).map (fun p => (p.1, p.2.map Char.toLower)) :=
      (readNumber_caseless 16 4 65535 true).separator (by decide) l
    unfold readGroups
    rw [hv4]
    cases (if 1 ≤ left then readSeparator ':' first readIpv4 l else none) with
    | some p => rfl
    | none =>
      simp only [map_none, hgroup]
      cases readSeparator ':' first (readNumber 16 4 65535 true) l with
      | some p => simp only [map_some, readGroups_toLower left false p.2]
      | none => rfl

theorem readIpv6_caseless : Caseless readIpv6 := by
  intro l
  unfold readIpv6
  simp only [readGroups_toLower]
  split
  · rfl
  · split
    · rfl
    · rw [readGiven_toLower (by decide)]
      cases readGiven ':' (readGroups 8 true l).2.2 with
      | none => rfl
      | some rest =>
        simp only [map_some, bind_some, readGiven_toLower (c := ':') (by decide) rest]
        cases readGiven ':' rest with
        | none => rfl
        | some rest => simp only [map_some, readGroups_toLower]

theorem parse_toLower (l : List Char) : parse (l.map Char.toLower) = parse l := by
  have hend : ∀ o : Option (IpAddr × List Char), (match o.map (fun p => (p.1, p.2.map Char.toLower)) with
      | some (addr, []) => some addr
      | _ => none) = match o with
      | some (addr, []) => some addr
      | _ => none := by
    intro o
    match o with
    | none | some (addr, []) | some (addr, _ :: _) => rfl
  unfold parse
  rw [readIpv4_caseless l, readIpv6_caseless l]
  cases readIpv4 l with
  | some p => exact hend (some (v4 p.1, p.2))
  | none =>
    cases readIpv6 l with
    | none => rfl
    | some p => exact hend (some (v6 p.1, p.2))

end IpAddr
end Mistl
