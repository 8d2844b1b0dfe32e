import Mathlib.Data.List.Nodup
import Mathlib.Data.List.Perm.Subperm
import InteractionNets.Arena
import InteractionNets.Proofs.Lists

/-!
# The contents of an arena

What an arena holds is told by its look-ups. The entries list each live id once, in increasing
order (`Arena.sorted_entries`), the size is their number (`Arena.length_entries`), and two arenas
hold the same contents exactly when they agree at every id (`Arena.same_iff`).
-/

namespace InteractionNets

namespace Arena

variable {α : Type} {a b : Arena α}

/-! ### Values and entries -/

/-- The stored values are those that some id leads to. -/
theorem mem_values_iff {a : Arena α} {v : α} : v ∈ a.values ↔ ∃ i, a.get? i = some v := by
  simp only [values, List.mem_filterMap, id, get?_eq_some_iff, Array.mem_toList_iff,
    exists_eq_right, Array.mem_iff_getElem?]

theorem values_eq_map_entries (a : Arena α) : a.values = a.entries.map Prod.snd := by
  have key (l : List (Option α)) (n : Nat) : l.filterMap id =
      ((l.zipIdx n).filterMap fun entry => entry.1.map (entry.2, ·)).map Prod.snd := by
    induction l generalizing n with
    | nil => rfl
    | cons slot rest ih =>
      cases slot with
      | none => simpa [List.zipIdx_cons] using ih (n + 1)
      | some v => simpa [List.zipIdx_cons] using ih (n + 1)
  exact key a.slots.toList 0

/-- The live ids are listed in increasing order. -/
theorem sorted_entries (a : Arena α) : (a.entries.map Prod.fst).Pairwise (· < ·) := by
  have key (l : List (Option α)) (n : Nat) :
      (((l.zipIdx n).filterMap fun entry => entry.1.map (entry.2, ·)).map Prod.fst).Sublist
        (List.range' n l.length) := by
    induction l generalizing n with
    | nil => simp
    | cons slot rest ih =>
      cases slot with
      | none => simpa [List.zipIdx_cons, List.range'_succ] using (ih (n + 1)).cons n
      | some v => simpa [List.zipIdx_cons, List.range'_succ] using ih (n + 1)
  exact (List.pairwise_lt_range' (s := 0) (n := a.slots.toList.length)).sublist
    (key a.slots.toList 0)

theorem nodup_entries (a : Arena α) : (a.entries.map Prod.fst).Nodup :=
  a.sorted_entries.imp Nat.ne_of_lt

theorem mem_map_fst_entries_iff {a : Arena α} {i : Nat} :
    i ∈ a.entries.map Prod.fst ↔ (a.get? i).isSome := by
  simp only [List.mem_map, Prod.exists, exists_and_right, exists_eq_right, mem_entries_iff,
    Option.isSome_iff_exists]

/-- The size is the number of entries: each slot that holds a value makes one. -/
theorem length_entries (a : Arena α) : a.entries.length = a.size := by
  have hslots : a.slots.countP Option.isSome =
      a.slots.toList.zipIdx.countP (Option.isSome ∘ Prod.fst) := by
    rw [← List.countP_map, List.zipIdx_map_fst, Array.countP_toList]
  rw [size, a.live_eq, hslots, entries, List.length_filterMap_eq_countP]
  exact List.countP_congr fun entry _ => by rw [Function.comp_apply, Option.isSome_map]

/-- There are no more different live ids than the size says. -/
theorem length_le_size (a : Arena α) {ids : List Nat} (hids : ids.Nodup)
    (hlive : ∀ i ∈ ids, (a.get? i).isSome) : ids.length ≤ a.size := by
  have hsubset : ids ⊆ a.entries.map Prod.fst := fun i hi =>
    mem_map_fst_entries_iff.2 (hlive i hi)
  rw [← length_entries, ← List.length_map Prod.fst]
  exact (List.subperm_of_subset hids hsubset).length_le

theorem get?_foldl_erase (a : Arena α) (ids : List Nat) (i : Nat) :
    (ids.foldl Arena.erase a).get? i = if i ∈ ids then none else a.get? i := by
  induction ids generalizing a with
  | nil => simp
  | cons j rest ih =>
    rw [List.foldl_cons, ih, get?_erase]
    by_cases hi : i = j
    · simp [hi]
    · simp [hi, Ne.symm hi]

/-! ### Arenas with the same contents -/

/-- The entries are determined by the look-ups: they are sorted by their ids. -/
theorem entries_congr (h : ∀ i, a.get? i = b.get? i) : a.entries = b.entries := by
  refine eq_of_sorted_map Prod.fst a.sorted_entries b.sorted_entries ?_
  rintro ⟨i, v⟩
  rw [mem_entries_iff, mem_entries_iff, h]

theorem size_congr (h : ∀ i, a.get? i = b.get? i) : a.size = b.size := by
  rw [← length_entries, ← length_entries, entries_congr h]

/-- The listed ids are determined by which ids are live. -/
theorem map_fst_entries_congr (h : ∀ i, a.contains i = b.contains i) :
    a.entries.map Prod.fst = b.entries.map Prod.fst := by
  refine eq_of_sorted_map id (by simpa using a.sorted_entries) (by simpa using b.sorted_entries)
    fun i => ?_
  rw [mem_map_fst_entries_iff, mem_map_fst_entries_iff]
  exact Bool.eq_iff_iff.1 (h i)

/-- A look-up among the entries is a look-up in the arena. -/
theorem lookup_entries (a : Arena α) (i : Nat) : a.entries.lookup i = a.get? i :=
  Option.ext fun _ => (lookup_eq_some_iff_mem a.nodup_entries).trans mem_entries_iff

/-- **Two arenas hold the same contents when they agree at every id.** -/
theorem same_iff [BEq α] : a.same b ↔ ∀ i, (a.get? i == b.get? i) = true := by
  rw [same, Bool.and_eq_true, beq_iff_eq]
  refine ⟨fun ⟨_, hentries⟩ i => ?_, fun h => ?_⟩
  · rw [← lookup_entries, ← lookup_entries]
    exact lookup_beq_lookup hentries i
  · have hcontains (i : Nat) : a.contains i = b.contains i := isSome_eq_of_beq (h i)
    have hkeys := map_fst_entries_congr hcontains
    refine ⟨?_, beq_of_lookup_beq hkeys a.nodup_entries fun i => ?_⟩
    · rw [← length_entries, ← length_entries, ← List.length_map Prod.fst, hkeys, List.length_map]
    · rw [lookup_entries, lookup_entries]
      exact h i

theorem same_of_get?_eq [DecidableEq α] (h : ∀ i, a.get? i = b.get? i) : a.same b :=
  same_iff.2 fun i => beq_iff_eq.2 (h i)

end Arena

end InteractionNets
