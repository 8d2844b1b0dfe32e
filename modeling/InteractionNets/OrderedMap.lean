/-!
# Maps in order of insertion

A map that remembers the order in which its keys came. A key that is entered again keeps its place
and takes the new value. `upsert` is the one writing operation: it computes a key's value from the
value that was there, if any. Its two lemmas say what it does to the keys and to the look-ups.
-/

namespace InteractionNets

/-- Keys with values, in the order in which the keys were first entered; no key occurs twice. -/
@[ext]
structure OrderedMap (κ ν : Type) where
  entries : List (κ × ν)
  keys_nodup : (entries.map Prod.fst).Nodup

namespace OrderedMap

variable {κ ν : Type}

instance [DecidableEq κ] [DecidableEq ν] : DecidableEq (OrderedMap κ ν) := fun a b =>
  decidable_of_iff (a.entries = b.entries) ⟨OrderedMap.ext, fun h => h ▸ rfl⟩

/-- The map without keys. -/
def empty : OrderedMap κ ν :=
  ⟨[], List.nodup_nil⟩

instance : Inhabited (OrderedMap κ ν) := ⟨empty⟩

/-- The keys, in order of first entry. -/
def keys (m : OrderedMap κ ν) : List κ :=
  m.entries.map Prod.fst

/-- The values, in the order of their keys. -/
def values (m : OrderedMap κ ν) : List ν :=
  m.entries.map Prod.snd

/-- The number of keys. -/
def size (m : OrderedMap κ ν) : Nat :=
  m.entries.length

variable [DecidableEq κ]

/-- The value of a key. -/
def get? (m : OrderedMap κ ν) (k : κ) : Option ν :=
  m.entries.lookup k

/-! ### Writing -/

/-- Write `f` of its old value under a key: in place, or at the end when the key is new. -/
def upsertEntries (k : κ) (f : Option ν → ν) : List (κ × ν) → List (κ × ν)
  | [] => [(k, f none)]
  | (j, v) :: rest => if j = k then (j, f (some v)) :: rest else (j, v) :: upsertEntries k f rest

theorem map_fst_upsertEntries (k : κ) (f : Option ν → ν) (l : List (κ × ν)) :
    (upsertEntries k f l).map Prod.fst =
      if k ∈ l.map Prod.fst then l.map Prod.fst else l.map Prod.fst ++ [k] := by
  induction l with
  | nil => simp [upsertEntries]
  | cons entry rest ih =>
    obtain ⟨j, v⟩ := entry
    by_cases h : j = k
    · simp [upsertEntries, h]
    · simp only [upsertEntries, h, if_false, List.map_cons, ih, List.mem_cons, Ne.symm h, false_or]
      split <;> simp

private theorem lookup_of_ne {i j : κ} (h : j ≠ i) (v : ν) (l : List (κ × ν)) :
    ((i, v) :: l).lookup j = l.lookup j := by
  have hf : (j == i) = false := by simpa using h
  rw [List.lookup_cons, hf]

theorem lookup_upsertEntries (k j : κ) (f : Option ν → ν) (l : List (κ × ν)) :
    (upsertEntries k f l).lookup j = if j = k then some (f (l.lookup k)) else l.lookup j := by
  induction l with
  | nil =>
    by_cases h : j = k
    · simp [upsertEntries, h]
    · simp [upsertEntries, lookup_of_ne h, h]
  | cons entry rest ih =>
    obtain ⟨i, v⟩ := entry
    by_cases hik : i = k
    · subst hik
      by_cases hj : j = i
      · simp [upsertEntries, hj]
      · simp [upsertEntries, hj, lookup_of_ne hj]
    · by_cases hji : j = i
      · subst hji
        simp [upsertEntries, hik]
      · simp [upsertEntries, hik, lookup_of_ne hji, lookup_of_ne (Ne.symm hik), ih]

/-- Give a key the value `f` computes from its old one. -/
def upsert (m : OrderedMap κ ν) (k : κ) (f : Option ν → ν) : OrderedMap κ ν where
  entries := upsertEntries k f m.entries
  keys_nodup := by
    rw [map_fst_upsertEntries]
    split
    · exact m.keys_nodup
    · rename_i h
      refine List.nodup_append.2 ⟨m.keys_nodup, by simp, fun a ha b hb => ?_⟩
      rintro rfl
      exact h (List.mem_singleton.1 hb ▸ ha)

/-- Give a key a value. -/
def insert (m : OrderedMap κ ν) (k : κ) (v : ν) : OrderedMap κ ν :=
  m.upsert k fun _ => v

/-- The map that entering pairs one after another leaves. -/
def ofList (l : List (κ × ν)) : OrderedMap κ ν :=
  l.foldl (fun m entry => m.insert entry.1 entry.2) empty

theorem keys_upsert (m : OrderedMap κ ν) (k : κ) (f : Option ν → ν) :
    (m.upsert k f).keys = if k ∈ m.keys then m.keys else m.keys ++ [k] :=
  map_fst_upsertEntries k f m.entries

theorem get?_upsert (m : OrderedMap κ ν) (k j : κ) (f : Option ν → ν) :
    (m.upsert k f).get? j = if j = k then some (f (m.get? k)) else m.get? j :=
  lookup_upsertEntries k j f m.entries

theorem get?_insert (m : OrderedMap κ ν) (k j : κ) (v : ν) :
    (m.insert k v).get? j = if j = k then some v else m.get? j :=
  get?_upsert m k j _

end OrderedMap

end InteractionNets
