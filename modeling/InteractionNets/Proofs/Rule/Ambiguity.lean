import InteractionNets.Proofs.Rule.Lookup

/-!
# Ambiguous keys

The keys that more than one of some rules have are reported once each, in the order in which they
occur for the second time: a key is written down at the moment it turns out to be ambiguous
(`ambiguousKeys_inOrder`). This is not the order in which the keys appear for the first time, if one
key occurs twice between the first two occurrences of another one
(`ambiguousKeys_crossedRules`).
-/

namespace InteractionNets

variable {keys listed : List RuleKey} {key other : RuleKey} {n i j : Nat}

/-! ### Occurrences -/

/-- At position `i` stands a key that occurred `n` times before. -/
def OccursAt (keys : List RuleKey) (key : RuleKey) (n i : Nat) : Prop :=
  keys[i]? = some key ∧ (keys.take i).count key = n

instance : Decidable (OccursAt keys key n i) :=
  inferInstanceAs (Decidable (_ ∧ _))

theorem OccursAt.lt_length (h : OccursAt keys key n i) : i < keys.length :=
  (List.getElem?_eq_some_iff.1 h.1).1

/-- A key at the end adds one occurrence, at the end. -/
theorem occursAt_concat_iff : OccursAt (keys ++ [other]) key n i ↔
    OccursAt keys key n i ∨ (i = keys.length ∧ other = key ∧ keys.count key = n) := by
  unfold OccursAt
  rcases Nat.lt_trichotomy i keys.length with hlt | rfl | hgt
  · have hne : i ≠ keys.length := Nat.ne_of_lt hlt
    rw [List.getElem?_append_left hlt, List.take_append_of_le_length (Nat.le_of_lt hlt)]
    simp [hne]
  · simp
  · have hnone : keys[i]? = none := List.getElem?_eq_none (Nat.le_of_lt hgt)
    have hnone' : (keys ++ [other])[i]? = none := by
      rw [List.getElem?_append_right (Nat.le_of_lt hgt)]
      exact List.getElem?_eq_none (Nat.sub_pos_of_lt hgt)
    have hne : i ≠ keys.length := Nat.ne_of_gt hgt
    simp [hnone, hnone', hne]

/-- A key that occurs more than `n` times has occurred `n` times before at some position. -/
theorem exists_occursAt_iff : (∃ i, OccursAt keys key n i) ↔ n < keys.count key := by
  induction keys using List.reverseRecOn with
  | nil => simp [OccursAt]
  | append_singleton keys last ih =>
    simp only [occursAt_concat_iff, exists_or, exists_eq_left, ih, List.count_append,
      List.count_singleton, beq_iff_eq]
    by_cases hlast : last = key
    · simp only [hlast, true_and, if_true]
      omega
    · simp [hlast]

/-- A key has occurred `n` times before at one position only. -/
theorem OccursAt.unique (hi : OccursAt keys key n i) (hj : OccursAt keys key n j) : i = j := by
  induction keys using List.reverseRecOn with
  | nil => exact absurd hi.lt_length (Nat.not_lt_zero i)
  | append_singleton keys last ih =>
    have hlt : ∀ {k}, OccursAt keys key n k → n < keys.count key :=
      fun hk => exists_occursAt_iff.1 ⟨_, hk⟩
    rcases occursAt_concat_iff.1 hi with hi | ⟨rfl, -, hcount⟩ <;>
      rcases occursAt_concat_iff.1 hj with hj | ⟨rfl, -, hcount'⟩
    · exact ih hi hj
    · exact absurd hcount' (Nat.ne_of_gt (hlt hi))
    · exact absurd hcount (Nat.ne_of_gt (hlt hj))
    · rfl

/-! ### Lists of the repeated keys -/

/-- A list of the keys that occur more than once, each once, in the order of the positions at which
they have occurred `n` times before. -/
structure ListsRepeated (n : Nat) (keys listed : List RuleKey) : Prop where
  nodup : listed.Nodup
  mem_iff : ∀ key, key ∈ listed ↔ 2 ≤ keys.count key
  order : listed.Pairwise fun key other =>
    ∀ i j, OccursAt keys key n i → OccursAt keys other n j → i < j

/-- Of two repeated keys, the one that occurs first is repeated first. -/
def RepeatsInOrder (keys : List RuleKey) : Prop :=
  ∀ key other i j i' j', OccursAt keys key 0 i → OccursAt keys other 0 j →
    OccursAt keys key 1 i' → OccursAt keys other 1 j' → i < j → i' < j'

/-- A key that occurs twice has a first occurrence and a second one. -/
theorem exists_occursAt_of_repeated (h : 2 ≤ keys.count key) :
    (∃ i, OccursAt keys key 0 i) ∧ ∃ i, OccursAt keys key 1 i :=
  ⟨exists_occursAt_iff.2 (Nat.lt_of_lt_of_le Nat.zero_lt_two h), exists_occursAt_iff.2 h⟩

/-- The keys that two lists have in the order of the second occurrences and in the order of the
first ones: two keys of the list stand in both orders. -/
theorem ListsRepeated.ordered (hsecond : ListsRepeated 1 keys listed)
    (hfirst : ListsRepeated 0 keys listed) (hne : key ≠ other) (hkey : key ∈ listed)
    (hother : other ∈ listed) :
    (∀ n < 2, ∀ i j, OccursAt keys key n i → OccursAt keys other n j → i < j) ∨
      ∀ n < 2, ∀ i j, OccursAt keys other n i → OccursAt keys key n j → i < j := by
  have hboth : listed.Pairwise fun key other =>
      (∀ n < 2, ∀ i j, OccursAt keys key n i → OccursAt keys other n j → i < j) ∨
        ∀ n < 2, ∀ i j, OccursAt keys other n i → OccursAt keys key n j → i < j := by
    refine (hfirst.order.and hsecond.order).imp fun {key other} h => Or.inl fun n hn => ?_
    obtain rfl | rfl : n = 0 ∨ n = 1 := by omega
    · exact h.1
    · exact h.2
  have : Std.Symm fun key other =>
      (∀ n < 2, ∀ i j, OccursAt keys key n i → OccursAt keys other n j → i < j) ∨
        ∀ n < 2, ∀ i j, OccursAt keys other n i → OccursAt keys key n j → i < j :=
    ⟨fun _ _ => Or.symm⟩
  exact hboth.forall hkey hother hne

/-- A list in the order of the second occurrences is in the order of the first ones, too, exactly
when these orders agree. -/
theorem ListsRepeated.first_iff (h : ListsRepeated 1 keys listed) :
    ListsRepeated 0 keys listed ↔ RepeatsInOrder keys := by
  constructor
  · intro hfirst key other i j i' j' hi hj hi' hj' hij
    have hne : key ≠ other := by
      rintro rfl
      exact Nat.ne_of_lt hij (hi.unique hj)
    have hkey : key ∈ listed := (h.mem_iff key).2 (exists_occursAt_iff.1 ⟨i', hi'⟩)
    have hother : other ∈ listed := (h.mem_iff other).2 (exists_occursAt_iff.1 ⟨j', hj'⟩)
    rcases h.ordered hfirst hne hkey hother with horder | horder
    · exact horder 1 Nat.one_lt_two i' j' hi' hj'
    · exact absurd (horder 0 Nat.zero_lt_two j i hj hi) (Nat.lt_asymm hij)
  · intro horder
    refine ⟨h.nodup, h.mem_iff, ?_⟩
    refine (h.order.and h.nodup).imp_of_mem fun {key other} hkey hother hboth i j hi hj => ?_
    obtain ⟨-, i', hi'⟩ := exists_occursAt_of_repeated ((h.mem_iff key).1 hkey)
    obtain ⟨-, j', hj'⟩ := exists_occursAt_of_repeated ((h.mem_iff other).1 hother)
    have hij' : i' < j' := hboth.1 i' j' hi' hj'
    rcases Nat.lt_trichotomy i j with hlt | rfl | hgt
    · exact hlt
    · exact absurd (Option.some.inj (hi.1.symm.trans hj.1)) hboth.2
    · exact absurd (horder other key j i j' i' hj hi hj' hi' hgt) (Nat.lt_asymm hij')

/-! ### The report -/

/-- A key at the end is reported if it has occurred once before. -/
theorem repeatedKeys_concat (keys seen : List RuleKey) (key : RuleKey) :
    repeatedKeys (keys ++ [key]) seen =
      repeatedKeys keys seen ++ if (keys ++ seen).count key = 1 then [key] else [] := by
  induction keys generalizing seen with
  | nil => simp [repeatedKeys]
  | cons first rest ih =>
    have hcount : (rest ++ first :: seen).count key = (first :: rest ++ seen).count key :=
      List.perm_middle.count_eq key
    rw [List.cons_append, repeatedKeys, repeatedKeys, ih, hcount]
    split <;> rfl

/-- The repeated keys are written down in the order of their second occurrences. -/
theorem listsRepeated_repeatedKeys (keys : List RuleKey) :
    ListsRepeated 1 keys (repeatedKeys keys []) := by
  induction keys using List.reverseRecOn with
  | nil => exact ⟨List.nodup_nil, by simp [repeatedKeys], List.Pairwise.nil⟩
  | append_singleton keys last ih =>
    rw [repeatedKeys_concat, List.append_nil]
    have hcount : ∀ key, (keys ++ [last]).count key =
        keys.count key + if last = key then 1 else 0 := by
      intro key
      rw [List.count_append, List.count_singleton]
      simp only [beq_iff_eq]
    -- what is listed already was repeated before the end
    have hlisted : ∀ key ∈ repeatedKeys keys [], ∀ i,
        OccursAt (keys ++ [last]) key 1 i → i < keys.length := by
      intro key hkey i hi
      rcases occursAt_concat_iff.1 hi with hi | ⟨-, -, hone⟩
      · exact hi.lt_length
      · have := (ih.mem_iff key).1 hkey
        omega
    have horder : (repeatedKeys keys []).Pairwise fun key other =>
        ∀ i j, OccursAt (keys ++ [last]) key 1 i → OccursAt (keys ++ [last]) other 1 j → i < j := by
      refine ih.order.imp_of_mem fun {key other} hkey hother horder i j hi hj => ?_
      rcases occursAt_concat_iff.1 hi with hi' | ⟨rfl, -⟩
      · rcases occursAt_concat_iff.1 hj with hj' | ⟨rfl, -⟩
        · exact horder i j hi' hj'
        · exact hi'.lt_length
      · exact absurd (hlisted key hkey _ hi) (Nat.lt_irrefl _)
    split
    case isTrue hone =>
      have hnot : last ∉ repeatedKeys keys [] := by
        intro hmem
        have := (ih.mem_iff last).1 hmem
        omega
      refine ⟨List.nodup_append.2 ⟨ih.nodup, List.nodup_singleton last, ?_⟩, fun key => ?_,
        List.pairwise_append.2 ⟨horder, List.pairwise_singleton _ _, ?_⟩⟩
      · rintro key hkey other hother rfl
        exact hnot (List.mem_singleton.1 hother ▸ hkey)
      · rw [List.mem_append, List.mem_singleton, ih.mem_iff, hcount]
        by_cases hlast : last = key
        · subst hlast
          simp [hone]
        · simp [hlast, Ne.symm hlast]
      · intro key hkey other hother i j hi hj
        obtain rfl := List.mem_singleton.1 hother
        have hj' : OccursAt (keys ++ [other]) other 1 keys.length :=
          occursAt_concat_iff.2 (Or.inr ⟨rfl, rfl, hone⟩)
        exact hj.unique hj' ▸ hlisted key hkey i hi
    case isFalse hone =>
      rw [List.append_nil]
      refine ⟨ih.nodup, fun key => ?_, horder⟩
      rw [ih.mem_iff, hcount]
      by_cases hlast : last = key
      · subst hlast
        simp only [if_true]
        omega
      · simp [hlast]

/-- **Ambiguous keys**: for any list of rules, no key is reported exactly when all keys are
different; the keys that occur more than once are reported once each, in the order of their second
occurrences; and this is the order of their first occurrences exactly when the keys are repeated in
the order in which they occur first. -/
theorem ambiguousKeys_inOrder (rules : List Rule) :
    (ambiguousKeys rules = [] ↔ (rules.map Rule.key).Nodup) ∧
      ListsRepeated 1 (rules.map Rule.key) (ambiguousKeys rules) ∧
      (ListsRepeated 0 (rules.map Rule.key) (ambiguousKeys rules) ↔
        RepeatsInOrder (rules.map Rule.key)) := by
  have hlists : ListsRepeated 1 (rules.map Rule.key) (ambiguousKeys rules) :=
    listsRepeated_repeatedKeys (rules.map Rule.key)
  exact ⟨ambiguousKeys_eq_nil_iff, hlists, hlists.first_iff⟩

/-- Four rules with two keys, of which the second one is repeated first. -/
def crossedRules : List Rule :=
  let outer : Rule := ⟨⟨"X", 1⟩, ⟨"X", 1⟩, .empty⟩
  let inner : Rule := ⟨⟨"Y", 1⟩, ⟨"Y", 1⟩, .empty⟩
  [outer, inner, inner, outer]

/-- The key that occurs first may be reported last. -/
theorem ambiguousKeys_crossedRules :
    (crossedRules.map Rule.key).head? = some ⟨"X", "X"⟩ ∧
      ambiguousKeys crossedRules = [⟨"Y", "Y"⟩, ⟨"X", "X"⟩] ∧
      ¬ ListsRepeated 0 (crossedRules.map Rule.key) (ambiguousKeys crossedRules) := by
  have hkeys : crossedRules.map Rule.key = [⟨"X", "X"⟩, ⟨"Y", "Y"⟩, ⟨"Y", "Y"⟩, ⟨"X", "X"⟩] := by
    decide +kernel
  refine ⟨by rw [hkeys]; rfl, by decide +kernel, ?_⟩
  intro hlists
  have horder : RepeatsInOrder (crossedRules.map Rule.key) :=
    (listsRepeated_repeatedKeys _).first_iff.1 hlists
  rw [hkeys] at horder
  have hlt : 3 < 2 := horder ⟨"X", "X"⟩ ⟨"Y", "Y"⟩ 0 1 3 2 (by decide) (by decide) (by decide)
    (by decide) Nat.zero_lt_one
  omega

end InteractionNets
