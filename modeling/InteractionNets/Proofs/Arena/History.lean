import Mathlib.Data.List.Induction
import Mathlib.Data.Set.Card
import InteractionNets.Proofs.Arena

/-!
# Arenas and their histories

An arena is a finite map whose ids are given out again, the one freed last first. The rule is told
by the history of the operations alone: `Arena.freedBy` lists the ids of the values that were taken
out, in the order of time, and the free list is that list read backwards, each vacant id at the last
place at which it was freed (`Arena.free_ofHistory`). So the next id is the vacant one that was freed
last (`Arena.IsNext`), and the whole behaviour of an arena after any history is
`Arena.isMap_ofHistory`.
-/

namespace InteractionNets

namespace Arena

variable {α : Type} {a : Arena α} {ids : List Nat} {i : Nat}

/-! ### Operations and histories -/

/-- An operation on an arena. Any id may be updated or removed, live or not. -/
inductive Operation (α : Type) where
  | alloc (v : α)
  | allocWith (make : Nat → α)
  | modify (i : Nat) (f : α → α)
  | remove (i : Nat)

namespace Operation

/-- The arena after an operation. -/
def perform : Operation α → Arena α → Arena α
  | alloc v, a => (a.alloc v).2
  | allocWith make, a => (a.allocWith make).2
  | modify i f, a => a.modify i f
  | remove i, a => (a.remove i).2

/-- The ids that an operation frees: a removal frees a live id, and nothing else frees any. -/
def freed : Operation α → Arena α → List Nat
  | alloc _, _ | allocWith _, _ | modify _ _, _ => []
  | remove i, a => if a.contains i then [i] else []

end Operation

/-- The arena after a history of operations on the empty one. -/
def ofHistory (past : List (Operation α)) : Arena α :=
  past.foldl (fun a operation => operation.perform a) empty

/-- The ids that some operations free one after another, from an arena on, in the order of time. An
id that is given out again can be freed again. -/
def freedFrom : List (Operation α) → Arena α → List Nat
  | [], _ => []
  | operation :: rest, a => operation.freed a ++ freedFrom rest (operation.perform a)

/-- The ids that a history freed, in the order of time. -/
def freedBy (past : List (Operation α)) : List Nat :=
  freedFrom past empty

theorem ofHistory_concat (past : List (Operation α)) (operation : Operation α) :
    ofHistory (past ++ [operation]) = operation.perform (ofHistory past) :=
  List.foldl_concat _ empty operation past

theorem freedBy_concat (past : List (Operation α)) (operation : Operation α) :
    freedBy (past ++ [operation]) = freedBy past ++ operation.freed (ofHistory past) := by
  have key (past : List (Operation α)) (a : Arena α) :
      freedFrom (past ++ [operation]) a = freedFrom past a ++
        operation.freed (past.foldl (fun a operation => operation.perform a) a) := by
    induction past generalizing a with
    | nil => simp [freedFrom]
    | cons first rest ih => simp [freedFrom, ih]
  exact key past empty

/-! ### Live ids and vacant slots after an operation -/

theorem contains_allocWith (a : Arena α) (make : Nat → α) (i : Nat) :
    (a.allocWith make).2.contains i = (i == a.nextId || a.contains i) := by
  rw [contains, contains, get?_allocWith]
  split <;> simp_all

theorem contains_modify (a : Arena α) (i : Nat) (f : α → α) (j : Nat) :
    (a.modify i f).contains j = a.contains j := by
  rw [contains, contains, get?_modify]
  split <;> simp

theorem contains_erase (a : Arena α) (i j : Nat) :
    (a.erase i).contains j = (j != i && a.contains j) := by
  rw [contains, contains, get?_erase]
  by_cases hij : i = j
  · simp [hij]
  · simp [hij, Ne.symm hij]

/-- Storing a value takes its id off the free list. -/
theorem free_allocWith (a : Arena α) (make : Nat → α) :
    (a.allocWith make).2.free = a.free.filter fun j => j != a.nextId := by
  rw [← a.free_nodup.erase_eq_filter, nextId, allocWith]
  split <;> simp_all

theorem free_erase (h : a.contains i) : (a.erase i).free = i :: a.free := by
  rw [erase, dif_pos h]

theorem erase_of_not_contains (h : ¬ a.contains i) : a.erase i = a := by
  rw [erase, dif_neg h]

/-- The vacant slots are those below the number of slots that are not live. -/
theorem mem_free_iff_vacant : i ∈ a.free ↔ i < a.slots.size ∧ ¬ a.contains i := by
  rw [mem_free_iff, Array.getElem?_eq_some_iff]
  refine ⟨fun ⟨hi, hnone⟩ => ⟨hi, ?_⟩, fun ⟨hi, hvacant⟩ => ⟨hi, ?_⟩⟩
  · rw [← isSome_getElem hi, hnone]
    exact Bool.false_ne_true
  · rwa [← isSome_getElem hi, Option.not_isSome_iff_eq_none] at hvacant

/-! ### The free list tells the order of the removals -/

/-- The ids of a list that are vacant, each at its last place. -/
def vacantOf (a : Arena α) (ids : List Nat) : List Nat :=
  (ids.filter fun i => !a.contains i).dedup

theorem vacantOf_allocWith (a : Arena α) (make : Nat → α) (ids : List Nat) :
    (a.allocWith make).2.vacantOf ids = (a.vacantOf ids).filter fun j => j != a.nextId := by
  rw [vacantOf, vacantOf, ← dedup_filter, List.filter_filter]
  congr 1
  refine List.filter_congr fun j _ => ?_
  rw [contains_allocWith, Bool.not_or, bne]

theorem vacantOf_modify (a : Arena α) (i : Nat) (f : α → α) (ids : List Nat) :
    (a.modify i f).vacantOf ids = a.vacantOf ids := by
  simp only [vacantOf, contains_modify]

theorem vacantOf_erase (h : a.contains i) (ids : List Nat) :
    (a.erase i).vacantOf (ids ++ [i]) = a.vacantOf ids ++ [i] := by
  have hfreed : [i].filter (fun j => !(a.erase i).contains j) = [i] := by simp [contains_erase]
  rw [vacantOf, vacantOf, List.filter_append, hfreed, dedup_concat, ← dedup_filter,
    List.filter_filter]
  congr 2
  refine List.filter_congr fun j _ => ?_
  rw [contains_erase]
  by_cases hj : j = i
  · simp [hj, h]
  · simp [bne_iff_ne.2 hj]

/-- An operation keeps what the free list is: the vacant ids of those that were freed, the last one
first. -/
theorem reverse_free_perform (h : a.free.reverse = a.vacantOf ids) (operation : Operation α) :
    (operation.perform a).free.reverse =
      (operation.perform a).vacantOf (ids ++ operation.freed a) := by
  have halloc (make : Nat → α) :
      (a.allocWith make).2.free.reverse = (a.allocWith make).2.vacantOf ids := by
    rw [free_allocWith, ← List.filter_reverse, h, vacantOf_allocWith]
  rcases operation with v | make | ⟨i, f⟩ | i
  · rw [Operation.freed, List.append_nil]
    exact halloc fun _ => v
  · rw [Operation.freed, List.append_nil]
    exact halloc make
  · rw [Operation.freed, List.append_nil, Operation.perform, vacantOf_modify]
    exact h
  · rw [Operation.freed, Operation.perform, remove]
    split
    · rename_i hi
      rw [free_erase hi, List.reverse_cons, h, vacantOf_erase hi]
    · rename_i hi
      rw [erase_of_not_contains hi, List.append_nil, h]

/-- **The free list after a history** is the list of the freed ids read backwards, each vacant one
at the last place at which it was freed. -/
theorem free_ofHistory (past : List (Operation α)) :
    (ofHistory past).free = ((ofHistory past).vacantOf (freedBy past)).reverse := by
  rw [← List.reverse_eq_iff]
  induction past using List.reverseRecOn with
  | nil => rfl
  | append_singleton past operation ih =>
    rw [ofHistory_concat, freedBy_concat]
    exact reverse_free_perform ih operation

/-! ### The next id -/

/-- An id is the **next** one when it is the vacant one that was freed last: what was freed after it
is live again. If no slot is vacant, a new slot is next. -/
inductive IsNext (a : Arena α) (ids : List Nat) : Nat → Prop
  | freedLast {before after : List Nat} {i : Nat} (hids : ids = before ++ i :: after)
      (hvacant : ¬ a.contains i) (hafter : ∀ j ∈ after, a.contains j) : IsNext a ids i
  | new (hlive : ∀ j < a.slots.size, a.contains j) : IsNext a ids a.slots.size

theorem isNext_nextId (h : a.free = (a.vacantOf ids).reverse) : a.IsNext ids a.nextId := by
  rw [nextId]
  obtain hfree | ⟨i, rest, hfree⟩ : a.free = [] ∨ ∃ i rest, a.free = i :: rest := by
    cases a.free <;> simp
  · -- A slot below the number of slots is vacant or live.
    rw [hfree]
    refine .new fun j hj => ?_
    by_contra hvacant
    exact absurd (mem_free_iff_vacant.2 ⟨hj, hvacant⟩) (hfree ▸ List.not_mem_nil)
  · -- The last vacant id stays last when its earlier places are left out.
    have hlast : (ids.filter fun i => !a.contains i).dedup = rest.reverse ++ [i] := by
      rw [← vacantOf, ← List.reverse_reverse (a.vacantOf ids), ← h, hfree, List.reverse_cons]
    obtain hnil | ⟨front, k, hk⟩ := List.eq_nil_or_concat' (ids.filter fun i => !a.contains i)
    · simp [hnil] at hlast
    · rw [hk, dedup_concat] at hlast
      obtain rfl : k = i := List.singleton_inj.1 (List.append_inj_right' hlast rfl)
      obtain ⟨before, after, rfl, -, hafter⟩ := List.filter_eq_append_iff.1 hk
      obtain ⟨between, after, rfl, -, hvacant, hafter⟩ := List.filter_eq_cons_iff.1 hafter
      have hids : before ++ (between ++ k :: after) = (before ++ between) ++ k :: after :=
        (List.append_assoc _ _ _).symm
      rw [hfree]
      refine .freedLast hids ?_ fun j hj => ?_
      · simpa using hvacant
      · simpa using List.filter_eq_nil_iff.1 hafter j hj

/-! ### What an arena is -/

/-- An arena is a **finite map** that gives out the ids of a list again, the last one first. What an
operation answers and how it changes the look-ups is one field an operation. -/
structure IsMap (a : Arena α) (ids : List Nat) : Prop where
  /-- The free list holds the vacant slots and no others, each once. -/
  nodup_free : a.free.Nodup
  mem_free_iff : ∀ i, i ∈ a.free ↔ i < a.slots.size ∧ ¬ a.contains i
  /-- These are the ids that were freed and not given out since, the last one first. -/
  free_eq : a.free = (a.vacantOf ids).reverse
  isNext_nextId : a.IsNext ids a.nextId
  not_contains_nextId : ¬ a.contains a.nextId
  alloc : ∀ v, (a.alloc v).1 = a.nextId ∧
    ∀ i, (a.alloc v).2.get? i = if i = a.nextId then some v else a.get? i
  allocWith : ∀ make, (a.allocWith make).1 = a.nextId ∧
    ∀ i, (a.allocWith make).2.get? i = if i = a.nextId then some (make i) else a.get? i
  modify : ∀ i f j, (a.modify i f).get? j = if i = j then (a.get? j).map f else a.get? j
  remove : ∀ i, (a.remove i).1 = a.get? i ∧
    ∀ j, (a.remove i).2.get? j = if i = j then none else a.get? j
  remove_of_not_contains : ∀ i, ¬ a.contains i → a.remove i = (none, a)
  /-- The size is the number of live ids. -/
  finite : {i | a.contains i}.Finite
  size_eq : a.size = {i | a.contains i}.ncard
  /-- The entries list each live id once, in increasing order. -/
  sorted : (a.entries.map Prod.fst).Pairwise (· < ·)
  mem_entries_iff : ∀ i v, (i, v) ∈ a.entries ↔ a.get? i = some v

/-- The live ids are the listed ones. -/
theorem setOf_contains_eq (a : Arena α) :
    {i | a.contains i} = ((a.entries.map Prod.fst).toFinset : Set Nat) := by
  ext i
  rw [Finset.mem_coe, List.mem_toFinset, mem_map_fst_entries_iff]
  rfl

theorem isMap (h : a.free = (a.vacantOf ids).reverse) : a.IsMap ids where
  nodup_free := a.free_nodup
  mem_free_iff _ := mem_free_iff_vacant
  free_eq := h
  isNext_nextId := isNext_nextId h
  not_contains_nextId := by simp [contains, get?_nextId]
  alloc v := ⟨a.fst_allocWith _, a.get?_allocWith _⟩
  allocWith make := ⟨a.fst_allocWith make, a.get?_allocWith make⟩
  modify i f j := a.get?_modify i j f
  remove i := ⟨rfl, a.get?_erase i⟩
  remove_of_not_contains i hi := by
    rw [Arena.remove, erase_of_not_contains hi, Option.not_isSome_iff_eq_none.1 hi]
  finite := a.setOf_contains_eq ▸ Finset.finite_toSet _
  size_eq := by
    rw [setOf_contains_eq, Set.ncard_coe_finset, List.toFinset_card_of_nodup a.nodup_entries,
      List.length_map, length_entries]
  sorted := a.sorted_entries
  mem_entries_iff _ _ := Arena.mem_entries_iff

/-- **An arena is a finite map that gives the id freed last out first**, whatever its history: every
operation finds and changes what a map would, and two arenas are the same exactly when they hold
equal values under the same ids, however they came about. -/
theorem isMap_ofHistory (past : List (Operation α)) :
    (ofHistory past).IsMap (freedBy past) ∧
      ∀ [BEq α] (other : List (Operation α)), (ofHistory past).same (ofHistory other) ↔
        ∀ i, ((ofHistory past).get? i == (ofHistory other).get? i) = true :=
  ⟨isMap (free_ofHistory past), fun _ => same_iff⟩

/-- Two values are taken out and one of them twice: the id that became vacant last comes first, and
an id that is not live frees nothing. -/
example : (ofHistory [.alloc 'a', .alloc 'b', .alloc 'c', .remove 0, .remove 2, .remove 0,
    .alloc 'd', .modify 7 Char.toUpper]).entries = [(1, 'b'), (2, 'd')] := by
  decide

end Arena

end InteractionNets
