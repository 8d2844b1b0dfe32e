import Mathlib.Data.List.Dedup
import Mathlib.Data.List.Forall2
import Mathlib.Data.List.Nodup

/-!
# Lists

Lists whose repeated entries are left out, look-ups in association lists, and the list of all the
ends of a list of pairs.
-/

namespace InteractionNets

/-- Above some numbers there is always a number. -/
theorem exists_bound (l : List Nat) : ∃ bound, ∀ m ∈ l, m < bound :=
  ⟨_, fun _ hm => Nat.lt_succ_of_le (List.le_max?_getD_of_mem (k := 0) hm)⟩

theorem eq_of_mem_of_length_le_one {α : Type} {l : List α} (h : l.length ≤ 1) {a b : α}
    (ha : a ∈ l) (hb : b ∈ l) : a = b := by
  obtain _ | ⟨c, rest⟩ := l
  · cases ha
  · obtain rfl : rest = [] := List.length_eq_zero_iff.1 (by simpa using h)
    rw [List.mem_singleton.1 ha, List.mem_singleton.1 hb]

/-- Lists in increasing order of a number are equal if they have the same entries. -/
theorem eq_of_sorted_map {α : Type} (f : α → Nat) {l l' : List α}
    (hl : (l.map f).Pairwise (· < ·)) (hl' : (l'.map f).Pairwise (· < ·))
    (hmem : ∀ a, a ∈ l ↔ a ∈ l') : l = l' := by
  have hnodup : (l.map f).Nodup := hl.imp Nat.ne_of_lt
  have hnodup' : (l'.map f).Nodup := hl'.imp Nat.ne_of_lt
  have hperm : l.Perm l' := (List.perm_ext_iff_of_nodup hnodup.of_map hnodup'.of_map).2 hmem
  refine hperm.eq_of_pairwise ?_ (List.pairwise_map.1 hl) (List.pairwise_map.1 hl')
  intro a b _ _ hlt hgt
  exact absurd hgt (Nat.lt_asymm hlt)

/-! ### Repeated entries -/

theorem dedup_filter {α : Type} [DecidableEq α] (p : α → Bool) (l : List α) :
    (l.filter p).dedup = l.dedup.filter p := by
  induction l with
  | nil => rfl
  | cons a rest ih => by_cases hmem : a ∈ rest <;> by_cases hp : p a <;> simp [hmem, hp, ih]

/-- An entry at the end moves there from wherever it was. -/
theorem dedup_concat {α : Type} [DecidableEq α] (l : List α) (a : α) :
    (l ++ [a]).dedup = l.dedup.filter (fun b => b != a) ++ [a] := by
  induction l with
  | nil => rfl
  | cons b rest ih =>
    by_cases hb : b = a
    · subst hb
      rw [List.cons_append, List.dedup_cons_of_mem List.mem_concat_self, ih, ← dedup_filter,
        ← dedup_filter, List.filter_cons_of_neg (by simp)]
    · by_cases hmem : b ∈ rest <;> simp [hmem, hb, ih]

/-! ### Look-ups -/

/-- A look-up in a list with distinct keys finds exactly the listed pairs. -/
theorem lookup_eq_some_iff_mem {κ ν : Type} [DecidableEq κ] {l : List (κ × ν)}
    (hl : (l.map Prod.fst).Nodup) {k : κ} {v : ν} : l.lookup k = some v ↔ (k, v) ∈ l := by
  induction l with
  | nil => simp
  | cons entry rest ih =>
    obtain ⟨j, w⟩ := entry
    obtain ⟨hj, hrest⟩ := List.nodup_cons.1 hl
    by_cases hk : k = j
    · subst hk
      have hnot : (k, v) ∉ rest := fun hmem => hj (List.mem_map.2 ⟨_, hmem, rfl⟩)
      simp [hnot, eq_comm]
    · have hbeq : (k == j) = false := by simpa using hk
      rw [List.lookup_cons, hbeq]
      simp [ih hrest, hk]

theorem isSome_lookup_iff {κ ν : Type} [DecidableEq κ] {l : List (κ × ν)} {k : κ} :
    (l.lookup k).isSome ↔ k ∈ l.map Prod.fst := by
  induction l with
  | nil => simp
  | cons entry rest ih =>
    obtain ⟨j, w⟩ := entry
    by_cases hjk : k = j
    · subst hjk
      simp
    · have hf : (k == j) = false := by simpa using hjk
      simp [List.lookup_cons, hf, ih, hjk]

/-! ### Look-ups in lists that are compared -/

section BEq

variable {κ ν : Type} [DecidableEq κ] [BEq ν] {l l' : List (κ × ν)}

private theorem mk_beq_mk {j k : κ} {v w : ν} :
    ((j, v) == (k, w)) = true ↔ j = k ∧ (v == w) = true := by
  show (j == k && v == w) = true ↔ _
  rw [Bool.and_eq_true, beq_iff_eq]

theorem isSome_eq_of_beq {v w : Option ν} (h : (v == w) = true) : v.isSome = w.isSome := by
  cases v <;> cases w <;> simp_all

/-- Lists that are equal agree at every key. -/
theorem lookup_beq_lookup (h : (l == l') = true) (k : κ) :
    (l.lookup k == l'.lookup k) = true := by
  induction l generalizing l' with
  | nil =>
    obtain _ | ⟨entry, rest⟩ := l'
    · rfl
    · simp at h
  | cons entry rest ih =>
    obtain _ | ⟨entry', rest'⟩ := l'
    · simp at h
    · obtain ⟨j, v⟩ := entry
      obtain ⟨j', w⟩ := entry'
      obtain ⟨⟨rfl, hv⟩, hrest⟩ : (j = j' ∧ (v == w) = true) ∧ (rest == rest') = true := by
        rwa [List.cons_beq_cons, Bool.and_eq_true, mk_beq_mk] at h
      by_cases hk : k = j
      · subst hk
        simpa using hv
      · rw [List.lookup_cons, List.lookup_cons, beq_false_of_ne hk]
        exact ih hrest

/-- Lists with the same keys, each once, are equal if they agree at every key. -/
theorem beq_of_lookup_beq (hkeys : l.map Prod.fst = l'.map Prod.fst)
    (hnodup : (l.map Prod.fst).Nodup) (h : ∀ k, (l.lookup k == l'.lookup k) = true) :
    (l == l') = true := by
  induction l generalizing l' with
  | nil =>
    obtain rfl : l' = [] := by simpa using hkeys.symm
    rfl
  | cons entry rest ih =>
    obtain _ | ⟨entry', rest'⟩ := l'
    · simp at hkeys
    · obtain ⟨j, v⟩ := entry
      obtain ⟨j', w⟩ := entry'
      obtain ⟨rfl, hrest⟩ : j = j' ∧ rest.map Prod.fst = rest'.map Prod.fst := by
        simpa using hkeys
      obtain ⟨hj, hnodup⟩ := List.nodup_cons.1 hnodup
      have hhead : (v == w) = true := by simpa using h j
      have htail : (rest == rest') = true := by
        refine ih hrest hnodup fun k => ?_
        by_cases hk : k = j
        · have hnone : rest.lookup k = none ∧ rest'.lookup k = none := by
            refine ⟨Option.not_isSome_iff_eq_none.1 fun hsome => hj ?_,
              Option.not_isSome_iff_eq_none.1 fun hsome => hj ?_⟩
            · exact hk ▸ isSome_lookup_iff.1 hsome
            · exact hk ▸ hrest ▸ isSome_lookup_iff.1 hsome
          rw [hnone.1, hnone.2]
          rfl
        · have hkept := h k
          rwa [List.lookup_cons, List.lookup_cons, beq_false_of_ne hk] at hkept
      rw [List.cons_beq_cons, Bool.and_eq_true, mk_beq_mk]
      exact ⟨⟨rfl, hhead⟩, htail⟩

end BEq

/-! ### Ends of pairs -/

variable {ε : Type}

/-- The ends of some pairs, one pair after another. -/
def pairEnds (pairs : List (ε × ε)) : List ε :=
  pairs.flatMap fun pair => [pair.1, pair.2]

@[simp] theorem pairEnds_nil : pairEnds ([] : List (ε × ε)) = [] := rfl

@[simp] theorem pairEnds_cons (a b : ε) (pairs : List (ε × ε)) :
    pairEnds ((a, b) :: pairs) = a :: b :: pairEnds pairs := rfl

theorem pairEnds_append (l m : List (ε × ε)) : pairEnds (l ++ m) = pairEnds l ++ pairEnds m :=
  List.flatMap_append

/-- The ends of some pairs are their first and their second components. -/
theorem perm_pairEnds (pairs : List (ε × ε)) :
    (pairEnds pairs).Perm (pairs.map Prod.fst ++ pairs.map Prod.snd) := by
  induction pairs with
  | nil => rfl
  | cons pair rest ih =>
    obtain ⟨a, b⟩ := pair
    rw [pairEnds_cons, List.map_cons, List.map_cons, List.cons_append]
    exact ((ih.cons b).trans List.perm_middle.symm).cons a

theorem mem_pairEnds {pairs : List (ε × ε)} {e : ε} :
    e ∈ pairEnds pairs ↔ ∃ f, (e, f) ∈ pairs ∨ (f, e) ∈ pairs := by
  simp only [pairEnds, List.mem_flatMap, List.mem_cons, List.not_mem_nil, or_false, Prod.exists]
  constructor
  · rintro ⟨f, g, hpair, rfl | rfl⟩
    · exact ⟨g, .inl hpair⟩
    · exact ⟨f, .inr hpair⟩
  · rintro ⟨f, hpair | hpair⟩
    · exact ⟨e, f, hpair, .inl rfl⟩
    · exact ⟨f, e, hpair, .inr rfl⟩

/-- Lists are paired position by position. -/
theorem mem_zip_iff_zipIdx {α β : Type} {l : List α} {l' : List β} {a : α} {b : β} :
    (a, b) ∈ l.zip l' ↔ ∃ i, (a, i) ∈ l.zipIdx ∧ (b, i) ∈ l'.zipIdx := by
  rw [List.mem_iff_getElem?]
  simp only [List.getElem?_zip_eq_some, List.mk_mem_zipIdx_iff_getElem?]

/-- Entries of corresponding lists correspond. -/
theorem exists_getElem?_of_forall₂ {α β : Type} {R : α → β → Prop} {l : List α} {l' : List β}
    (h : List.Forall₂ R l l') {i : Nat} {a : α} (hi : l[i]? = some a) :
    ∃ b, l'[i]? = some b ∧ R a b := by
  induction h generalizing i with
  | nil => cases hi
  | @cons a' b' l l' hab _ ih =>
    cases i with
    | zero =>
      obtain rfl := Option.some.inj hi
      exact ⟨b', rfl, hab⟩
    | succ i => exact ih hi

end InteractionNets
