import InteractionNets.OrderedMap
import InteractionNets.Proofs.Lists
import Mathlib.Algebra.GroupWithZero.Nat
import Mathlib.Data.List.Perm.Subperm
import Mathlib.Data.Set.Function

/-!
# Maps as lists of entries

Writing changes one entry of a map, or adds one at the end. A map is a bijection between two lists
without repeats when its keys are the one list and its values are the other, each in some order
(`OrderedMap.isBijection_iff_perm`).
-/

namespace InteractionNets

namespace OrderedMap

variable {κ ν μ : Type} [DecidableEq κ]

/-! ### Entries that are written -/

/-- Writing commutes with looking at a part of the values only. -/
theorem map_upsertEntries {f : Option ν → ν} {g : Option μ → μ} (part : ν → μ)
    (hf : ∀ v, part (f v) = g (v.map part)) (k : κ) (l : List (κ × ν)) :
    (upsertEntries k f l).map (Prod.map id part) =
      upsertEntries k g (l.map (Prod.map id part)) := by
  induction l with
  | nil => simp [upsertEntries, hf]
  | cons entry rest ih =>
    obtain ⟨j, v⟩ := entry
    by_cases h : j = k
    · simp [upsertEntries, h, hf]
    · simpa [upsertEntries, h] using ih

/-- Writing under a key twice is writing once. -/
theorem upsertEntries_upsertEntries (k : κ) (f g : Option ν → ν) (l : List (κ × ν)) :
    upsertEntries k f (upsertEntries k g l) = upsertEntries k (fun v => f (some (g v))) l := by
  induction l with
  | nil => simp [upsertEntries]
  | cons entry rest ih =>
    obtain ⟨j, v⟩ := entry
    by_cases h : j = k
    · simp [upsertEntries, h]
    · simpa [upsertEntries, h] using ih

variable {m : OrderedMap κ ν} {k : κ}

/-- A new key is entered at the end. -/
theorem entries_insert_of_none (hk : m.get? k = none) (v : ν) :
    (m.insert k v).entries = m.entries ++ [(k, v)] := by
  have hnew : ∀ l : List (κ × ν), l.lookup k = none →
      upsertEntries k (fun _ => v) l = l ++ [(k, v)] := by
    intro l hl
    induction l with
    | nil => rfl
    | cons entry rest ih =>
      obtain ⟨j, w⟩ := entry
      have hj : j ≠ k := by
        rintro rfl
        simp at hl
      have hbeq : (k == j) = false := by simpa using hj.symm
      rw [List.lookup_cons, hbeq] at hl
      rw [upsertEntries, if_neg hj, ih hl, List.cons_append]
  exact hnew m.entries hk

theorem get?_eq_some_iff {v : ν} : m.get? k = some v ↔ (k, v) ∈ m.entries :=
  lookup_eq_some_iff_mem m.keys_nodup

theorem get?_eq_none_iff : m.get? k = none ↔ k ∉ m.keys := by
  rw [← Option.not_isSome_iff_eq_none, get?, isSome_lookup_iff]
  rfl

theorem mem_keys_iff : k ∈ m.keys ↔ ∃ v, m.get? k = some v := by
  simp [keys, get?_eq_some_iff]

theorem mem_values_iff {v : ν} : v ∈ m.values ↔ ∃ k, m.get? k = some v := by
  simp only [values, List.mem_map, Prod.exists, exists_eq_right, get?_eq_some_iff]

/-- Entries with different keys are all kept, in their order. -/
theorem entries_ofList {l : List (κ × ν)} (hl : (l.map Prod.fst).Nodup) :
    (ofList l).entries = l := by
  suffices ∀ (l : List (κ × ν)) (m : OrderedMap κ ν), (m.keys ++ l.map Prod.fst).Nodup →
      (l.foldl (fun m entry => m.insert entry.1 entry.2) m).entries = m.entries ++ l from
    this l empty hl
  clear hl l
  intro l
  induction l with
  | nil => simp
  | cons entry rest ih =>
    obtain ⟨k, v⟩ := entry
    intro m hm
    have hk : m.get? k = none :=
      get?_eq_none_iff.2 fun hmem => List.disjoint_of_nodup_append hm hmem List.mem_cons_self
    have hentries := entries_insert_of_none hk v
    rw [List.foldl_cons, ih, hentries, List.append_assoc, List.singleton_append]
    rwa [keys, hentries, List.map_append, List.append_assoc]

/-- Maps with the same keys in the same order and the same look-ups are equal. -/
theorem eq_of_keys_eq {m m' : OrderedMap κ ν} (hkeys : m.keys = m'.keys)
    (hget : ∀ k, m.get? k = m'.get? k) : m = m' := by
  refine OrderedMap.ext (List.ext_getElem? fun i => ?_)
  have hkey := congrArg (·[i]?) hkeys
  simp only [keys, List.getElem?_map] at hkey
  cases hentry : m.entries[i]? with
  | none =>
    rw [hentry, Option.map_none, eq_comm, Option.map_eq_none_iff] at hkey
    exact hkey.symm
  | some entry =>
    rw [hentry, Option.map_some, eq_comm, Option.map_eq_some_iff] at hkey
    obtain ⟨entry', hentry', hsame⟩ := hkey
    -- both entries are found by looking their key up
    have hvalue := get?_eq_some_iff.2 (List.mem_of_getElem? hentry)
    have hvalue' := get?_eq_some_iff.2 (List.mem_of_getElem? hentry')
    rw [hsame, ← hget, hvalue, Option.some.injEq] at hvalue'
    rw [hentry', Prod.ext hsame hvalue'.symm]

/-! ### Values that are written -/

theorem mem_values_upsert {f : Option ν → ν} {v : ν} (hv : v ∈ (m.upsert k f).values) :
    v = f (m.get? k) ∨ v ∈ m.values := by
  obtain ⟨j, hj⟩ := mem_values_iff.1 hv
  rw [get?_upsert] at hj
  split at hj
  · exact .inl (Option.some.inj hj).symm
  · exact .inr (mem_values_iff.2 ⟨j, hj⟩)

/-- When writing adds some number to a part of a value, it adds the number to the sum. -/
theorem sum_values_upsert {f : Option ν → ν} (part : ν → Nat) {n : Nat} (hnew : part (f none) = n)
    (hold : ∀ v, part (f (some v)) = part v + n) (m : OrderedMap κ ν) (k : κ) :
    ((m.upsert k f).values.map part).sum = (m.values.map part).sum + n := by
  have hsum : ∀ l : List (κ × ν), (((upsertEntries k f l).map Prod.snd).map part).sum =
      ((l.map Prod.snd).map part).sum + n := by
    intro l
    induction l with
    | nil => simp [upsertEntries, hnew]
    | cons entry rest ih =>
      obtain ⟨j, v⟩ := entry
      rw [upsertEntries]
      split
      · simp only [List.map_cons, List.sum_cons, hold]
        omega
      · simp only [List.map_cons, List.sum_cons, ih]
        omega
  exact hsum m.entries

/-! ### Parts of the values -/

/-- A map with a part of each value. -/
def mapValues (part : ν → μ) (m : OrderedMap κ ν) : OrderedMap κ μ where
  entries := m.entries.map (Prod.map id part)
  keys_nodup := by
    rw [List.map_map]
    exact m.keys_nodup

theorem mapValues_upsert {f : Option ν → ν} {g : Option μ → μ} (part : ν → μ)
    (hf : ∀ v, part (f v) = g (v.map part)) (m : OrderedMap κ ν) (k : κ) :
    (m.upsert k f).mapValues part = (m.mapValues part).upsert k g :=
  OrderedMap.ext (map_upsertEntries part hf k m.entries)

/-! ### Bijections -/

/-- The entries of a map are a bijection from the members of one list onto those of another. -/
def IsBijection (m : OrderedMap κ ν) (source : List κ) (target : List ν) : Prop :=
  ∃ f : κ → ν, Set.BijOn f {k | k ∈ source} {v | v ∈ target} ∧
    ∀ k v, m.get? k = some v ↔ k ∈ source ∧ f k = v

theorem isBijection_iff_perm [Inhabited ν] {source : List κ} {target : List ν}
    (hsource : source.Nodup) (htarget : target.Nodup) :
    m.IsBijection source target ↔ m.keys.Perm source ∧ m.values.Perm target := by
  constructor
  · rintro ⟨f, hf, hget⟩
    have hkeys : m.keys.Perm source := by
      refine (List.perm_ext_iff_of_nodup m.keys_nodup hsource).2 fun k => ?_
      show k ∈ m.keys ↔ k ∈ source
      simp [mem_keys_iff, hget]
    have hvalues : m.values = m.keys.map f := by
      rw [values, keys, List.map_map]
      refine List.map_congr_left fun entry hentry => ?_
      exact ((hget _ _).1 (get?_eq_some_iff.2 hentry)).2.symm
    have hnodup : m.values.Nodup := by
      rw [hvalues]
      exact m.keys_nodup.map_on fun k hk j hj heq =>
        hf.injOn (hkeys.mem_iff.1 hk) (hkeys.mem_iff.1 hj) heq
    refine ⟨hkeys, (List.perm_ext_iff_of_nodup hnodup htarget).2 fun v => ?_⟩
    rw [mem_values_iff]
    constructor
    · rintro ⟨k, hk⟩
      obtain ⟨hmem, rfl⟩ := (hget k v).1 hk
      exact hf.mapsTo hmem
    · intro hv
      obtain ⟨k, hk, rfl⟩ := hf.surjOn hv
      exact ⟨k, (hget k _).2 ⟨hk, rfl⟩⟩
  · rintro ⟨hkeys, hvalues⟩
    -- outside the source the function may have any value
    have hget : ∀ k v, m.get? k = some v ↔ k ∈ source ∧ (m.get? k).getD default = v := by
      intro k v
      rw [← hkeys.mem_iff, mem_keys_iff]
      constructor
      · intro hk
        exact ⟨⟨v, hk⟩, by rw [hk, Option.getD_some]⟩
      · rintro ⟨⟨w, hk⟩, rfl⟩
        rw [hk, Option.getD_some]
    have hvalue : ∀ k ∈ source, m.get? k = some ((m.get? k).getD default) :=
      fun k hk => (hget k _).2 ⟨hk, rfl⟩
    refine ⟨fun k => (m.get? k).getD default, ⟨fun k hk => ?_, fun k hk j hj heq => ?_, ?_⟩, hget⟩
    · exact hvalues.mem_iff.1 (mem_values_iff.2 ⟨k, hvalue k hk⟩)
    · have hk := get?_eq_some_iff.1 (hvalue k hk)
      have hj := get?_eq_some_iff.1 (hvalue j hj)
      have hnodup : (m.entries.map Prod.snd).Nodup := hvalues.nodup_iff.2 htarget
      exact congrArg Prod.fst (List.inj_on_of_nodup_map hnodup hk hj heq)
    · intro v hv
      obtain ⟨k, hk⟩ := mem_values_iff.1 (hvalues.mem_iff.2 hv)
      exact ⟨k, (hget k v).1 hk⟩

end OrderedMap

end InteractionNets
