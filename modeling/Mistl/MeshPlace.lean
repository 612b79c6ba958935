import Mistl.MeshPlan
/-!
# MeshPlace — what a placement depends on

`place` reads the candidates through the largest figure listed for each DID (`members_listed`), so that neither their
order nor a repetition shows.
-/
open List

namespace Mistl.Mesh

/-! ## One more element in a list -/

/-- **A first part of a list with one more element**: as before, or with that element in and at most the last one out. -/
theorem take_insert_cases {α : Type} [DecidableEq α] {p q : List α} {x : α} (hx : x ∉ p) (n : Nat) :
    (p ++ x :: q).take n = (p ++ q).take n ∨
    (x ∈ (p ++ x :: q).take n ∧ (((p ++ x :: q).take n).erase x = (p ++ q).take n ∨
      ((p ++ x :: q).take n).erase x = ((p ++ q).take n).dropLast)) := by
  rcases Nat.lt_or_ge p.length n with hlt | hle
  · obtain ⟨k, rfl⟩ : ∃ k, n = p.length + (k + 1) := ⟨n - p.length - 1, by omega⟩
    have herase : (p ++ x :: q.take k).erase x = p ++ q.take k := by
      rw [erase_append_right _ hx, erase_cons_head]
    rw [take_length_add_append, take_length_add_append, take_succ_cons, herase]
    refine .inr ⟨mem_append_right _ mem_cons_self, ?_⟩
    rcases Nat.lt_or_ge k q.length with hk | hk
    · right
      have hne : q.take (k + 1) ≠ [] := ne_nil_of_length_pos (by rw [length_take]; omega)
      rw [dropLast_append_of_ne_nil hne, dropLast_take_eq_take_dropLast, Nat.add_sub_cancel,
        dropLast_eq_take, take_take, Nat.min_eq_left (by omega)]
    · left
      rw [take_of_length_le hk, take_of_length_le (Nat.le_succ_of_le hk)]
  · left
    rw [take_append_of_le_length hle, take_append_of_le_length hle]

/-! ## The members -/

structure Largest (candidates : List Candidate) (did : String) (available : Nat) : Prop where
  listed : ∃ c ∈ candidates, c.did = did ∧ c.available = available
  le : ∀ c ∈ candidates, c.did = did → c.available ≤ available

variable {did : String}

theorem Largest.unique {candidates : List Candidate} {a b : Nat} (ha : Largest candidates did a)
    (hb : Largest candidates did b) : a = b := by
  obtain ⟨c, hc, hcd, rfl⟩ := ha.listed
  obtain ⟨d, hd, hdd, rfl⟩ := hb.listed
  exact le_antisymm (hb.le c hc hcd) (ha.le d hd hdd)

/-- **What the map of members has**: the candidates with room, each at its largest figure. -/
structure Listed (bytes : Nat) (home : Option String) (candidates : List Candidate) (m : List (String × Nat)) : Prop where
  nodup : (m.map Prod.fst).Nodup
  sound : ∀ d a, (d, a) ∈ m → home ≠ some d ∧ bytes ≤ a ∧ Largest candidates d a
  complete : ∀ c ∈ candidates, bytes ≤ c.available → home ≠ some c.did → c.did ∈ m.map Prod.fst

theorem mem_upsertMax_cases {did d : String} {available a : Nat} : ∀ {l : List (String × Nat)}, (l.map Prod.fst).Nodup →
    (d, a) ∈ upsertMax did available l → (d ≠ did ∧ (d, a) ∈ l) ∨
      (d = did ∧ ((∃ b, (did, b) ∈ l ∧ a = max b available) ∨ (did ∉ l.map Prod.fst ∧ a = available)))
  | [], _, h => by
    cases mem_singleton.1 h
    exact .inr ⟨rfl, .inr ⟨not_mem_nil, rfl⟩⟩
  | (e, b) :: l, hnd, h => by
    rw [map_cons, nodup_cons] at hnd
    rw [upsertMax] at h
    split at h
    · rename_i heq
      subst heq
      rcases mem_cons.1 h with hhead | hmem
      · cases hhead
        exact .inr ⟨rfl, .inl ⟨b, mem_cons_self, rfl⟩⟩
      · refine .inl ⟨?_, mem_cons_of_mem _ hmem⟩
        rintro rfl
        exact hnd.1 (mem_map.2 ⟨_, hmem, rfl⟩)
    · rename_i hne
      rcases mem_cons.1 h with h | h
      · cases h
        exact .inl ⟨hne, mem_cons_self⟩
      · rcases mem_upsertMax_cases hnd.2 h with ⟨hd, hmem⟩ | ⟨hd, ⟨c, hc, ha⟩ | ⟨hnot, ha⟩⟩
        · exact .inl ⟨hd, mem_cons_of_mem _ hmem⟩
        · exact .inr ⟨hd, .inl ⟨c, mem_cons_of_mem _ hc, ha⟩⟩
        · refine .inr ⟨hd, .inr ⟨?_, ha⟩⟩
          rw [map_cons, mem_cons, not_or]
          exact ⟨Ne.symm hne, hnot⟩

theorem upsertMax_nodup {available : Nat} : ∀ {l : List (String × Nat)}, (l.map Prod.fst).Nodup →
    ((upsertMax did available l).map Prod.fst).Nodup
  | [], _ => nodup_singleton _
  | (e, b) :: l, h => by
    rw [upsertMax]
    split
    · exact h
    · rename_i hne
      rw [map_cons, nodup_cons] at h ⊢
      refine ⟨?_, upsertMax_nodup h.2⟩
      rw [upsertMax_keys, not_or]
      exact ⟨hne, h.1⟩

variable {bytes : Nat} {home : Option String} {candidates candidates' : List Candidate} {c : Candidate} {m : List (String × Nat)}

theorem Listed.next (h : Listed bytes home candidates m) : Listed bytes home (candidates ++ [c])
    (if c.available < bytes ∨ home = some c.did then m else upsertMax c.did c.available m) := by
  have hmore : ∀ {d a}, Largest candidates d a → (c.did = d → c.available ≤ a) → Largest (candidates ++ [c]) d a := by
    intro d a hlargest hle
    obtain ⟨c', hc', heq⟩ := hlargest.listed
    refine ⟨⟨c', mem_append_left _ hc', heq⟩, fun c'' hc'' hd => ?_⟩
    rcases mem_append.1 hc'' with hc'' | hc''
    · exact hlargest.le c'' hc'' hd
    · rw [mem_singleton.1 hc''] at hd ⊢
      exact hle hd
  split
  · rename_i hskip
    refine ⟨h.nodup, fun d a hmem => ?_, fun c' hc' hroom hhome => ?_⟩
    · obtain ⟨hhome, hle, hlargest⟩ := h.sound d a hmem
      refine ⟨hhome, hle, hmore hlargest ?_⟩
      rintro rfl
      rcases hskip with hlt | heq
      · omega
      · exact absurd heq hhome
    · rcases mem_append.1 hc' with hc' | hc'
      · exact h.complete c' hc' hroom hhome
      · rw [mem_singleton.1 hc'] at hroom hhome
        rcases hskip with hlt | heq
        · omega
        · exact absurd heq hhome
  · rename_i hskip
    rw [not_or, Nat.not_lt] at hskip
    refine ⟨upsertMax_nodup h.nodup, fun d a hmem => ?_, fun c' hc' hroom hhome => ?_⟩
    · rcases mem_upsertMax_cases h.nodup hmem with ⟨hne, hmem⟩ | ⟨rfl, ⟨b, hb, rfl⟩ | ⟨hnot, rfl⟩⟩
      · obtain ⟨hhome, hle, hlargest⟩ := h.sound d a hmem
        exact ⟨hhome, hle, hmore hlargest (fun heq => absurd heq.symm hne)⟩
      · obtain ⟨hhome, hle, hlargest⟩ := h.sound _ b hb
        refine ⟨hhome, hle.trans (le_max_left _ _), ?_, fun c' hc' hd => ?_⟩
        · rcases le_total c.available b with hcb | hcb
          · obtain ⟨c', hc', heq⟩ := hlargest.listed
            exact ⟨c', mem_append_left _ hc', by rwa [max_eq_left hcb]⟩
          · exact ⟨c, mem_append_right _ mem_cons_self, rfl, (max_eq_right hcb).symm⟩
        · rcases mem_append.1 hc' with hc' | hc'
          · exact (hlargest.le c' hc' hd).trans (le_max_left _ _)
          · rw [mem_singleton.1 hc']
            exact le_max_right _ _
      · -- whoever was listed before under this DID had no room
        refine ⟨hskip.2, hskip.1, ⟨c, mem_append_right _ mem_cons_self, rfl, rfl⟩, fun c' hc' hd => ?_⟩
        rcases mem_append.1 hc' with hc' | hc'
        · by_contra hlt
          exact hnot (hd ▸ h.complete c' hc' (by omega) (hd ▸ hskip.2))
        · rw [mem_singleton.1 hc']
    · rw [upsertMax_keys]
      rcases mem_append.1 hc' with hc' | hc'
      · exact .inr (h.complete c' hc' hroom hhome)
      · rw [mem_singleton.1 hc']
        exact .inl rfl

theorem members_listed (bytes : Nat) (home : Option String) (candidates : List Candidate) :
    Listed bytes home candidates (members bytes home candidates) := by
  induction candidates using List.reverseRecOn with
  | nil => exact ⟨nodup_nil, nofun, nofun⟩
  | append_singleton candidates c ih =>
    rw [members, foldl_concat]
    exact ih.next

theorem mem_members {d : String} {a : Nat} : (d, a) ∈ members bytes home candidates ↔
    home ≠ some d ∧ bytes ≤ a ∧ Largest candidates d a := by
  have h := members_listed bytes home candidates
  refine ⟨h.sound d a, fun ⟨hhome, hle, hlargest⟩ => ?_⟩
  obtain ⟨c, hc, rfl, rfl⟩ := hlargest.listed
  obtain ⟨⟨d, b⟩, hmem, rfl⟩ := mem_map.1 (h.complete c hc hle hhome)
  rwa [hlargest.unique (h.sound _ _ hmem).2.2]

/-! ## The ranking -/

variable (score : String → String → Nat → Int) (owner : String)

theorem place_eq (replicas : Nat) : place score owner bytes replicas home candidates =
    (home.toList ++ (ranked score owner bytes home candidates).map Prod.fst).take replicas := by
  unfold place
  split
  · rename_i hzero
    rw [hzero, take_zero]
  · have hlen : home.toList.length ≤ replicas := by
      cases home <;> simp
      omega
    rw [take_append, take_of_length_le hlen, map_take]

instance : IsTrans (String × Int) rankLe := ⟨fun _ _ _ h h' => le_trans h h'⟩

instance : Std.Total (α := String × Int) rankLe := ⟨fun _ _ => le_total _ _⟩

instance : Std.Antisymm (α := String × Int) rankLe := ⟨fun x y h h' => by
  obtain ⟨hscore, hdid⟩ := Prod.mk.inj (toLex.injective (le_antisymm h h'))
  exact Prod.ext hdid hscore⟩

theorem sort_perm {l l' : List (String × Int)} (h : l.Perm l') : l.insertionSort rankLe = l'.insertionSort rankLe :=
  Perm.eq_of_pairwise' (pairwise_insertionSort _ _) (pairwise_insertionSort _ _)
    ((perm_insertionSort _ _).trans (h.trans (perm_insertionSort _ _).symm))

theorem ranked_congr (h : ∀ d a, Largest candidates d a ↔ Largest candidates' d a) :
    ranked score owner bytes home candidates = ranked score owner bytes home candidates' := by
  refine sort_perm (Perm.map _ ?_)
  refine (perm_ext_iff_of_nodup (members_listed _ _ _).nodup.of_map (members_listed _ _ _).nodup.of_map).2 ?_
  rintro ⟨d, a⟩
  rw [mem_members, mem_members, h]

theorem upsertMax_new {available : Nat} : ∀ {l : List (String × Nat)}, did ∉ l.map Prod.fst →
    upsertMax did available l = l ++ [(did, available)]
  | [], _ => rfl
  | (e, b) :: l, h => by
    rw [map_cons, mem_cons, not_or] at h
    rw [upsertMax, if_neg (Ne.symm h.1), upsertMax_new h.2, cons_append]

theorem ranked_insert (hnew : ∀ c' ∈ candidates, c'.did ≠ c.did) :
    ranked score owner bytes home (candidates ++ [c]) = ranked score owner bytes home candidates ∨
    (home ≠ some c.did ∧ ∃ p q, ranked score owner bytes home candidates = p ++ q ∧
      ranked score owner bytes home (candidates ++ [c]) = p ++ (c.did, score owner c.did c.available) :: q) := by
  have hmembers : members bytes home (candidates ++ [c]) = if c.available < bytes ∨ home = some c.did then members bytes home candidates
      else upsertMax c.did c.available (members bytes home candidates) := by
    rw [members, foldl_concat]
    rfl
  unfold ranked
  rw [hmembers]
  split
  · exact .inl rfl
  · rename_i hskip
    have hnot : c.did ∉ (members bytes home candidates).map Prod.fst := fun hmem => by
      obtain ⟨⟨d, a⟩, hda, heq⟩ := mem_map.1 hmem
      obtain ⟨c', hc', hd, -⟩ := (mem_members.1 hda).2.2.listed
      exact hnew c' hc' (hd.trans heq)
    rw [upsertMax_new hnot, map_append, map_singleton, sort_perm (perm_append_singleton _ _),
      insertionSort_cons, orderedInsert_eq_take_drop]
    exact .inr ⟨fun heq => hskip (.inr heq), _, _, takeWhile_append_dropWhile.symm, rfl⟩

theorem ranked_keys : ((ranked score owner bytes home candidates).map Prod.fst).Perm
    ((members bytes home candidates).map Prod.fst) := by
  refine ((perm_insertionSort _ _).map Prod.fst).trans (Perm.of_eq ?_)
  rw [map_map]
  rfl

theorem home_ranked_nodup : (home.toList ++ (ranked score owner bytes home candidates).map Prod.fst).Nodup := by
  refine nodup_append.2 ⟨by cases home <;> simp, ?_, fun d hd d' hd' heq => ?_⟩
  · exact (ranked_keys score owner).nodup_iff.2 (members_listed bytes home candidates).nodup
  · subst heq
    obtain ⟨⟨e, a⟩, hea, rfl⟩ := mem_map.1 ((ranked_keys score owner).subset hd')
    exact (mem_members.1 hea).1 (Option.mem_toList.1 hd)

/-! ## The placement -/

/-- **A placement is a stable choice that depends on no view's order**: no DID twice, at most `replicas`, the home
first where there is one; the same for any listing; and one more DID comes in for at most the last one placed. -/
theorem place_stable (score : String → String → Nat → Int) (owner : String) (bytes replicas : Nat) (home : Option String)
    (candidates : List Candidate) :
    (place score owner bytes replicas home candidates).Nodup ∧
    (place score owner bytes replicas home candidates).length ≤ replicas ∧
    (0 < replicas → ∀ h, home = some h → (place score owner bytes replicas home candidates).head? = some h) ∧
    (∀ d ∈ place score owner bytes replicas home candidates, home = some d ∨ ∃ c ∈ candidates, c.did = d ∧ bytes ≤ c.available) ∧
    (∀ candidates', (∀ c, c ∈ candidates ↔ c ∈ candidates') ∨ (∀ d a, Largest candidates d a ↔ Largest candidates' d a) →
      place score owner bytes replicas home candidates' = place score owner bytes replicas home candidates) ∧
    ∀ c candidates', (∀ c' ∈ candidates, c'.did ≠ c.did) → (∀ c', c' ∈ candidates' ↔ c' = c ∨ c' ∈ candidates) →
      place score owner bytes replicas home candidates' = place score owner bytes replicas home candidates ∨
      (c.did ∈ place score owner bytes replicas home candidates' ∧
        ((place score owner bytes replicas home candidates').erase c.did = place score owner bytes replicas home candidates ∨
        (place score owner bytes replicas home candidates').erase c.did =
          (place score owner bytes replicas home candidates).dropLast)) := by
  have hsame : ∀ {l l' : List Candidate}, (∀ d a, Largest l d a ↔ Largest l' d a) →
      place score owner bytes replicas home l' = place score owner bytes replicas home l := fun h => by
    rw [place_eq, place_eq, ranked_congr score owner h]
  have hlargest : ∀ {l l' : List Candidate}, (∀ c, c ∈ l ↔ c ∈ l') → ∀ d a, Largest l d a ↔ Largest l' d a :=
    fun h d a => ⟨fun ⟨h1, h2⟩ => ⟨by simpa only [h] using h1, by simpa only [h] using h2⟩,
      fun ⟨h1, h2⟩ => ⟨by simpa only [h] using h1, by simpa only [h] using h2⟩⟩
  refine ⟨?_, ?_, fun hpos h hhome => ?_, fun d hd => ?_, fun candidates' h => ?_, fun c candidates' hnew hmem => ?_⟩
  · rw [place_eq]
    exact (home_ranked_nodup score owner).sublist (take_sublist _ _)
  · rw [place_eq]
    exact length_take_le _ _
  · obtain ⟨n, rfl⟩ : ∃ n, replicas = n + 1 := ⟨replicas - 1, by omega⟩
    rw [hhome]
    rfl
  · rw [place_eq] at hd
    rcases mem_append.1 (mem_of_mem_take hd) with hd | hd
    · exact .inl (Option.mem_toList.1 hd)
    · obtain ⟨⟨d, a⟩, hda, rfl⟩ := mem_map.1 ((ranked_keys score owner).subset hd)
      obtain ⟨-, hle, hlargest⟩ := mem_members.1 hda
      obtain ⟨c, hc, hcd, rfl⟩ := hlargest.listed
      exact .inr ⟨c, hc, hcd, hle⟩
  · rcases h with h | h
    · exact hsame (hlargest h)
    · exact hsame h
  · have hadded : ∀ d a, Largest (candidates ++ [c]) d a ↔ Largest candidates' d a :=
      hlargest (fun c' => by rw [hmem, mem_append, mem_singleton, or_comm])
    rw [hsame hadded]
    rw [place_eq, place_eq]
    rcases ranked_insert score owner hnew with heq | ⟨hhome, p, q, hold, hmore⟩
    · rw [heq]
      exact .inl rfl
    · rw [hold, hmore, map_append, map_append, ← append_assoc, ← append_assoc]
      refine take_insert_cases (fun hmem => ?_) replicas
      rcases mem_append.1 hmem with hmem | hmem
      · exact hhome (Option.mem_toList.1 hmem)
      · have hranked : c.did ∈ (ranked score owner bytes home candidates).map Prod.fst := by
          rw [hold, map_append]
          exact mem_append_left _ hmem
        obtain ⟨⟨d, a⟩, hda, heq⟩ := mem_map.1 ((ranked_keys score owner).subset hranked)
        obtain ⟨c', hc', hd, -⟩ := (mem_members.1 hda).2.2.listed
        exact hnew c' hc' (hd.trans heq)

end Mistl.Mesh
