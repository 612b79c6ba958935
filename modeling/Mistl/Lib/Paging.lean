import Mathlib.Data.List.Basic
import Mathlib.Order.Lattice
/-!
# Paging — a sorted list read in pages

A page is the next entries past a cursor, and it names a cursor of its own when more entries follow.
-/
open List

namespace Mistl.Paging

variable {α κ : Type} [LinearOrder κ] (key : α → κ)

def Ascending (l : List α) : Prop := l.Pairwise fun a b => key a < key b

/-- The entries of the page of at most `limit` past `cursor`. -/
def page (limit : Nat) (cursor : κ) (l : List α) : List α := (l.filter (fun x => decide (cursor < key x))).take limit

def next (l entries : List α) : Option κ := (entries.getLast?.filter (fun last => l.any (fun x => decide (key last < key x)))).map key

variable {key} {limit : Nat} {cursor : κ} {done rest : List α}

theorem page_split (hdone : ∀ x ∈ done, key x ≤ cursor) (hrest : ∀ x ∈ rest, cursor < key x) :
    page key limit cursor (done ++ rest) = rest.take limit := by
  have h1 : done.filter (fun x => decide (cursor < key x)) = [] :=
    filter_eq_nil_iff.2 (fun x hx h => not_lt.2 (hdone x hx) (of_decide_eq_true h))
  have h2 : rest.filter (fun x => decide (cursor < key x)) = rest := filter_eq_self.2 (fun x hx => decide_eq_true (hrest x hx))
  rw [page, filter_append, h1, h2, nil_append]

theorem Ascending.split (h : Ascending key (done ++ rest)) {last : α} (hlast : done.getLast? = some last) :
    (∀ x ∈ done, key x ≤ key last) ∧ ∀ x ∈ rest, key last < key x := by
  obtain ⟨init, rfl⟩ := getLast?_eq_some_iff.1 hlast
  obtain ⟨hd, -, hcross⟩ := pairwise_append.1 h
  refine ⟨fun x hx => ?_, fun x hx => hcross last (mem_append_right _ mem_cons_self) x hx⟩
  rcases mem_append.1 hx with hx | hx
  · exact le_of_lt ((pairwise_append.1 hd).2.2 x hx last mem_cons_self)
  · rw [mem_singleton.1 hx]

theorem next_split (h : Ascending key (done ++ rest)) {last : α} (hlast : done.getLast? = some last)
    {entries : List α} (he : entries.getLast? = some last) :
    next key (done ++ rest) entries = if rest = [] then none else some (key last) := by
  obtain ⟨hdone, hrest⟩ := h.split hlast
  rw [next, he]
  cases rest with
  | nil =>
    rw [if_pos rfl, Option.filter_some, if_neg, Option.map_none]
    rw [append_nil, any_eq_true]
    rintro ⟨x, hx, hlt⟩
    exact not_lt.2 (hdone x hx) (of_decide_eq_true hlt)
  | cons x rest =>
    rw [if_neg nofun, Option.filter_some, if_pos, Option.map_some]
    exact any_eq_true.2 ⟨x, mem_append_right _ mem_cons_self, decide_eq_true (hrest x mem_cons_self)⟩

theorem page_head_le {l : List α} (h : Ascending key l) (hlimit : 0 < limit) {x : α} (hx : x ∈ l) (hlt : cursor < key x) :
    ∃ y, (page key limit cursor l).head? = some y ∧ key y ≤ key x := by
  have hmem : x ∈ l.filter (fun x => decide (cursor < key x)) := mem_filter.2 ⟨hx, decide_eq_true hlt⟩
  have hs : Ascending key (l.filter (fun x => decide (cursor < key x))) := Pairwise.filter _ h
  unfold page
  cases hf : l.filter (fun x => decide (cursor < key x)) with
  | nil => rw [hf] at hmem; cases hmem
  | cons y ys =>
    rw [hf] at hmem hs
    refine ⟨y, by rw [head?_take, if_neg (by omega), head?_cons], ?_⟩
    rcases mem_cons.1 hmem with rfl | hmem
    · exact le_rfl
    · exact le_of_lt ((pairwise_cons.1 hs).1 x hmem)

end Mistl.Paging
