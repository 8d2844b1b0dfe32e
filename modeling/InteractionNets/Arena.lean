/-!
# Arenas

An arena keeps values under small numbers, their *ids*. A value that is taken out leaves a vacant
slot behind, and the slot freed last is the first to be filled again, so the ids handed out depend
only on the sequence of operations. The view of an arena is `Arena.get?`; each operation comes
with one lemma that says what it does to that view. The vacant slots are exactly the entries of
the free list, each listed once, and the live count is the number of slots that hold a value: this
is part of the type, so no operation can break it.
-/

namespace InteractionNets

/-- A store of values under ids. `free` lists the vacant slots, the one freed last at the head, and
`live` counts the others. -/
@[ext]
structure Arena (α : Type) where
  slots : Array (Option α)
  free : List Nat
  live : Nat
  free_nodup : free.Nodup
  mem_free_iff : ∀ i, i ∈ free ↔ slots[i]? = some none
  live_eq : live = slots.countP Option.isSome

namespace Arena

variable {α : Type}

instance [DecidableEq α] : DecidableEq (Arena α) := fun a b =>
  decidable_of_iff (a.slots = b.slots ∧ a.free = b.free)
    ⟨fun h => Arena.ext h.1 h.2 (by rw [a.live_eq, b.live_eq, h.1]), fun h => h ▸ ⟨rfl, rfl⟩⟩

/-- The arena in which nothing was ever stored. -/
def empty : Arena α :=
  ⟨#[], [], 0, List.nodup_nil, by simp, by simp⟩

instance : Inhabited (Arena α) := ⟨empty⟩

/-! ### Looking up -/

/-- The value stored under an id, if the id is live. -/
def get? (a : Arena α) (i : Nat) : Option α :=
  a.slots[i]?.join

/-- An id is **live** when a value is stored under it. -/
def contains (a : Arena α) (i : Nat) : Bool :=
  (a.get? i).isSome

/-- The number of live ids. -/
def size (a : Arena α) : Nat :=
  a.live

/-- Whether nothing is stored. -/
def isEmpty (a : Arena α) : Bool :=
  a.size == 0

/-- The live ids and their values, in increasing order of ids. -/
def entries (a : Arena α) : List (Nat × α) :=
  a.slots.toList.zipIdx.filterMap fun (slot, i) => slot.map (i, ·)

/-- The stored values, in increasing order of their ids. -/
def values (a : Arena α) : List α :=
  a.slots.toList.filterMap id

/-- Two arenas hold the **same** contents when they store equal values under the same ids. Vacant
slots and the order in which they will be filled again are not compared. -/
def same [BEq α] (a b : Arena α) : Bool :=
  a.size == b.size && a.entries == b.entries

@[simp] theorem get?_empty (i : Nat) : (empty : Arena α).get? i = none := by
  simp [get?, empty]

theorem get?_eq_some_iff {a : Arena α} {i : Nat} {v : α} :
    a.get? i = some v ↔ a.slots[i]? = some (some v) := by
  unfold get?
  cases h : a.slots[i]? with
  | none => simp
  | some slot => cases slot <;> simp

theorem lt_size_of_mem_free {a : Arena α} {i : Nat} (h : i ∈ a.free) : i < a.slots.size := by
  obtain ⟨hlt, -⟩ := Array.getElem?_eq_some_iff.1 ((a.mem_free_iff i).1 h)
  exact hlt

theorem get?_eq_none_of_mem_free {a : Arena α} {i : Nat} (h : i ∈ a.free) : a.get? i = none := by
  simp [get?, (a.mem_free_iff i).1 h]

theorem get?_eq_none_of_size_le {a : Arena α} {i : Nat} (h : a.slots.size ≤ i) :
    a.get? i = none := by
  simp [get?, Array.getElem?_eq_none h]

theorem lt_size_of_get?_eq_some {a : Arena α} {i : Nat} {v : α} (h : a.get? i = some v) :
    i < a.slots.size := by
  obtain ⟨hlt, -⟩ := Array.getElem?_eq_some_iff.1 (get?_eq_some_iff.1 h)
  exact hlt

theorem isSome_getElem {a : Arena α} {i : Nat} (h : i < a.slots.size) :
    (a.slots[i]).isSome = a.contains i := by
  simp [contains, get?, h]

theorem mem_entries_iff {a : Arena α} {i : Nat} {v : α} :
    (i, v) ∈ a.entries ↔ a.get? i = some v := by
  rw [get?_eq_some_iff, entries, List.mem_filterMap]
  constructor
  · rintro ⟨⟨slot, j⟩, hmem, hslot⟩
    have hget := List.mem_zipIdx_iff_getElem?.1 hmem
    cases slot with
    | none => simp at hslot
    | some w =>
      simp only [Option.map_some, Option.some.injEq, Prod.mk.injEq] at hslot
      obtain ⟨rfl, rfl⟩ := hslot
      simpa using hget
  · intro h
    exact ⟨(some v, i), List.mem_zipIdx_iff_getElem?.2 (by simpa using h), by simp⟩

/-! ### Storing -/

/-- The id the next stored value gets: the slot freed last, or a new one when none is vacant. -/
def nextId (a : Arena α) : Nat :=
  a.free.headD a.slots.size

/-- Store a value that may depend on the id it gets. -/
def allocWith (a : Arena α) (make : Nat → α) : Nat × Arena α :=
  match h : a.free with
  | i :: rest =>
    (i, {
      slots := a.slots.setIfInBounds i (some (make i))
      free := rest
      live := a.live + 1
      free_nodup := (List.nodup_cons.1 (h ▸ a.free_nodup)).2
      mem_free_iff := by
        intro j
        have hi : i < a.slots.size := lt_size_of_mem_free (h ▸ List.mem_cons_self)
        have hnot : i ∉ rest := (List.nodup_cons.1 (h ▸ a.free_nodup)).1
        have hj := a.mem_free_iff j
        rw [h, List.mem_cons] at hj
        rw [Array.getElem?_setIfInBounds]
        by_cases hij : i = j
        · subst hij
          simp [hi, hnot]
        · simp only [hij, if_false, ← hj]
          exact ⟨Or.inr, fun hor => hor.resolve_left (Ne.symm hij)⟩
      live_eq := by
        have hmem : i ∈ a.free := h ▸ List.mem_cons_self
        have hi : i < a.slots.size := lt_size_of_mem_free hmem
        have hvacant : (a.slots[i]).isSome = false := by
          rw [isSome_getElem hi, contains, get?_eq_none_of_mem_free hmem]
          rfl
        rw [Array.setIfInBounds, dif_pos hi, Array.countP_set, hvacant, a.live_eq]
        rfl })
  | [] =>
    (a.slots.size, {
      slots := a.slots.push (some (make a.slots.size))
      free := []
      live := a.live + 1
      free_nodup := List.nodup_nil
      mem_free_iff := by
        intro j
        have hj := a.mem_free_iff j
        rw [h] at hj
        rw [Array.getElem?_push]
        by_cases hjs : j = a.slots.size
        · simp [hjs]
        · simpa [hjs] using hj
      live_eq := by
        rw [Array.countP_push, a.live_eq]
        rfl })

/-- Store a value. -/
def alloc (a : Arena α) (v : α) : Nat × Arena α :=
  a.allocWith fun _ => v

theorem fst_allocWith (a : Arena α) (make : Nat → α) : (a.allocWith make).1 = a.nextId := by
  unfold allocWith nextId
  split <;> simp_all

/-- The next id is not live. -/
theorem get?_nextId (a : Arena α) : a.get? a.nextId = none := by
  unfold nextId
  cases h : a.free with
  | nil => exact get?_eq_none_of_size_le (by simp)
  | cons i rest => exact get?_eq_none_of_mem_free (by simp [h])

theorem get?_allocWith (a : Arena α) (make : Nat → α) (i : Nat) :
    (a.allocWith make).2.get? i = if i = a.nextId then some (make i) else a.get? i := by
  unfold allocWith nextId
  split
  · rename_i j rest h
    have hj : j < a.slots.size := lt_size_of_mem_free (h ▸ List.mem_cons_self)
    by_cases hij : i = j
    · subst hij
      simp [get?, h, hj]
    · simp [get?, h, hij, Ne.symm hij]
  · rename_i h
    by_cases hi : i = a.slots.size
    · subst hi
      simp [get?, h]
    · simp [get?, h, hi, Array.getElem?_push]

/-! ### Changing and taking out -/

/-- Replace the value under a live id by its image under `f`; do nothing for any other id. -/
def modify (a : Arena α) (i : Nat) (f : α → α) : Arena α where
  slots := a.slots.modify i (Option.map f)
  free := a.free
  live := a.live
  free_nodup := a.free_nodup
  mem_free_iff := by
    intro j
    rw [a.mem_free_iff j, Array.getElem?_modify]
    split
    · cases a.slots[j]? with
      | none => simp
      | some slot => cases slot <;> simp
    · rfl
  live_eq := by
    by_cases hi : i < a.slots.size
    · have hset : a.slots.modify i (Option.map f) = a.slots.set i (a.slots[i].map f) := by
        simp [Array.modify, Array.modifyM, hi]
      rw [hset, Array.countP_set, Option.isSome_map, a.live_eq]
      by_cases hsome : a.slots[i].isSome
      · have hpos : 0 < a.slots.countP Option.isSome :=
          Array.countP_pos_iff.2 ⟨a.slots[i], Array.getElem_mem hi, hsome⟩
        rw [if_pos hsome, Nat.sub_add_cancel hpos]
      · rw [if_neg hsome]
        rfl
    · rw [Array.modify, Array.modifyM, dif_neg hi, a.live_eq]
      rfl

/-- Take out the value under a live id; do nothing for any other id. -/
def erase (a : Arena α) (i : Nat) : Arena α :=
  if h : a.contains i then
    { slots := a.slots.setIfInBounds i none
      free := i :: a.free
      live := a.live - 1
      free_nodup := by
        refine List.nodup_cons.2 ⟨fun hmem => ?_, a.free_nodup⟩
        simp [contains, get?_eq_none_of_mem_free hmem] at h
      mem_free_iff := by
        intro j
        obtain ⟨v, hv⟩ := Option.isSome_iff_exists.1 h
        have hi := lt_size_of_get?_eq_some hv
        rw [Array.getElem?_setIfInBounds, List.mem_cons, a.mem_free_iff j]
        by_cases hij : i = j
        · subst hij
          simp [hi]
        · simp [hij, Ne.symm hij]
      live_eq := by
        obtain ⟨v, hv⟩ := Option.isSome_iff_exists.1 h
        have hi := lt_size_of_get?_eq_some hv
        rw [Array.setIfInBounds, dif_pos hi, Array.countP_set, isSome_getElem hi, h, a.live_eq]
        rfl }
  else a

/-- Take out the value under an id and give it back. There is nothing to give back for an id that
is not live. -/
def remove (a : Arena α) (i : Nat) : Option α × Arena α :=
  (a.get? i, a.erase i)

theorem get?_modify (a : Arena α) (i j : Nat) (f : α → α) :
    (a.modify i f).get? j = if i = j then (a.get? j).map f else a.get? j := by
  unfold modify get?
  simp only [Array.getElem?_modify]
  split
  · cases a.slots[j]? with
    | none => simp
    | some slot => cases slot <;> simp
  · rfl

theorem get?_erase (a : Arena α) (i j : Nat) :
    (a.erase i).get? j = if i = j then none else a.get? j := by
  unfold erase
  split
  · rename_i h
    obtain ⟨v, hv⟩ := Option.isSome_iff_exists.1 h
    have hi := lt_size_of_get?_eq_some hv
    by_cases hij : i = j
    · subst hij
      simp [get?, hi]
    · simp [get?, hij]
  · rename_i h
    by_cases hij : i = j
    · subst hij
      simpa [contains] using h
    · simp [hij]

/-- Taking out a live id makes it the next one to be given out. -/
theorem nextId_erase {a : Arena α} {i : Nat} (h : a.contains i) : (a.erase i).nextId = i := by
  simp [erase, h, nextId]

end Arena

end InteractionNets
