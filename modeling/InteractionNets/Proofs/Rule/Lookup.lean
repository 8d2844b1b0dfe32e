import Mathlib.Data.Sym.Sym2
import InteractionNets.Proofs.OrderedMap
import InteractionNets.Proofs.Rule.Assembly
import InteractionNets.Rule.Confluence

/-!
# Looking rules up

A set finds the rule for two symbols by the key of their names. The key forgets the arities and the
order of the symbols, while a rule is for two full symbols in either order. Nevertheless a look-up
finds what a scan of all rules would find (`RuleSet.lookup_eq_scan`): a rule that is for two symbols
has their key, and no two rules of a set have one key, so no rule hides behind another one.
-/

namespace InteractionNets

/-! ### Keys -/

/-- The unordered pair of the names of a rule's symbols. -/
def Rule.names (r : Rule) : Sym2 String :=
  s(r.left.name, r.right.name)

private theorem RuleKey.mk_first_second (a b : Symbol) :
    s((of a b).first, (of a b).second) = s(a.name, b.name) := by
  unfold of
  split
  · exact Sym2.eq_swap
  · rfl

/-- A key says as much as the unordered pair of names. -/
theorem RuleKey.of_eq_of_iff {a b c d : Symbol} :
    of a b = of c d ↔ s(a.name, b.name) = s(c.name, d.name) := by
  constructor
  · intro h
    rw [← mk_first_second a b, ← mk_first_second c d, h]
  · intro h
    rcases Sym2.eq_iff.1 h with ⟨h₁, h₂⟩ | ⟨h₁, h₂⟩
    · rw [of, of, h₁, h₂]
    · rw [of_comm, of, of, h₁, h₂]

theorem Rule.key_eq_key_iff {r t : Rule} : r.key = t.key ↔ r.names = t.names :=
  RuleKey.of_eq_of_iff

theorem nodup_map_key_iff {list : List Rule} :
    (list.map Rule.key).Nodup ↔ (list.map Rule.names).Nodup := by
  simp only [List.Nodup, List.pairwise_map, ne_eq, Rule.key_eq_key_iff]

/-- No keys are repeated when all of them are different, from each other and from those that came
before. -/
theorem repeatedKeys_eq_nil_iff {keys seen : List RuleKey} (hseen : seen.Nodup) :
    repeatedKeys keys seen = [] ↔ (keys ++ seen).Nodup := by
  induction keys generalizing seen with
  | nil => simpa [repeatedKeys] using hseen
  | cons key rest ih =>
    rw [repeatedKeys]
    by_cases hkey : key ∈ seen
    · rw [if_pos (List.count_eq_one_of_mem hseen hkey)]
      refine iff_of_false (by simp) fun hnodup => ?_
      exact (List.nodup_cons.1 hnodup).1 (List.mem_append_right _ hkey)
    · rw [if_neg (by simp [List.count_eq_zero.2 hkey]), ih (List.nodup_cons.2 ⟨hkey, hseen⟩)]
      exact List.perm_middle.nodup_iff

/-- No key is ambiguous when the rules have different keys. -/
theorem ambiguousKeys_eq_nil_iff {list : List Rule} :
    ambiguousKeys list = [] ↔ (list.map Rule.key).Nodup := by
  rw [ambiguousKeys, repeatedKeys_eq_nil_iff List.nodup_nil, List.append_nil]

/-! ### Entering rules -/

namespace RuleSet

variable {rules start : RuleSet} {list : List Rule} {rule : Rule} {a b : Symbol}

/-- Rules can be entered when their keys are new and different from each other. -/
theorem exists_insertAll_iff : (∃ rules, start.insertAll list = .ok rules) ↔
    (list.map Rule.key).Nodup ∧ ∀ rule ∈ list, start.byKey.get? rule.key = none := by
  induction list generalizing start with
  | nil => simp [insertAll]
  | cons first rest ih =>
    rw [insertAll, insert, List.map_cons, List.nodup_cons, List.forall_mem_cons]
    cases hfirst : start.byKey.get? first.key with
    | some other => simp
    | none =>
      have hget : ∀ rule ∈ rest, (start.byKey.insert first.key first).get? rule.key = none ↔
          rule.key ≠ first.key ∧ start.byKey.get? rule.key = none := by
        intro rule _
        rw [OrderedMap.get?_insert]
        split <;> simp [*]
      have hnot : first.key ∉ rest.map Rule.key ↔ ∀ rule ∈ rest, rule.key ≠ first.key := by
        simp [List.mem_map]
      simp only [ih, hnot]
      rw [forall₂_congr hget]
      constructor
      · rintro ⟨hnodup, hnew⟩
        exact ⟨⟨fun rule hrule => (hnew rule hrule).1, hnodup⟩, trivial,
          fun rule hrule => (hnew rule hrule).2⟩
      · rintro ⟨⟨hne, hnodup⟩, -, hnew⟩
        exact ⟨hnodup, fun rule hrule => ⟨hne rule hrule, hnew rule hrule⟩⟩

/-- A set can be made of rules with different keys. -/
theorem exists_ofList_iff :
    (∃ rules, ofList list = .ok rules) ↔ (list.map Rule.key).Nodup := by
  rw [ofList, exists_insertAll_iff]
  exact and_iff_left fun rule _ => rfl

/-- Rules are entered one after another at the end. -/
theorem rules_insertAll (h : start.insertAll list = .ok rules) :
    rules.rules = start.rules ++ list := by
  induction list generalizing start with
  | nil =>
    obtain rfl := Except.ok.inj h
    rw [List.append_nil]
  | cons first rest ih =>
    rw [insertAll, insert] at h
    cases hfirst : start.byKey.get? first.key with
    | some other =>
      rw [hfirst] at h
      cases h
    | none =>
      rw [hfirst] at h
      rw [ih h, RuleSet.rules, OrderedMap.values, OrderedMap.entries_insert_of_none hfirst,
        List.map_append, List.append_assoc]
      rfl

/-- A set has the rules that it was made of, in their order. -/
theorem rules_ofList (h : ofList list = .ok rules) : rules.rules = list :=
  rules_insertAll h

/-! ### Finding rules -/

/-- The order in which two symbols are named does not matter for a look-up. -/
theorem lookup_comm (rules : RuleSet) (a b : Symbol) : rules.lookup a b = rules.lookup b a := by
  have horient : ∀ rule : Rule, (rule.orient a b).isSome = (rule.orient b a).isSome := by
    intro rule
    rw [Bool.eq_iff_iff, Rule.isSome_orient_iff, Rule.isSome_orient_iff]
    tauto
  simp only [lookup, RuleKey.of_comm a b, horient]

/-- A look-up finds the rules that are for the two symbols. -/
theorem lookup_eq_some_iff_mem_list (h : ofList list = .ok rules) :
    rules.lookup a b = some rule ↔ rule ∈ list ∧ (rule.orient a b).isSome := by
  rw [lookup_eq_some_iff]
  refine and_congr_left fun horient => ?_
  have hempty : empty.byKey.get? (.of a b) ≠ some rule := by
    rintro ⟨⟩
  rw [byKey_insertAll h, or_iff_right hempty]
  exact and_iff_left (Rule.key_eq_of_isSome_orient horient)

/-- The rules that are for two symbols are what a look-up finds. -/
theorem filter_isSome_orient (h : ofList list = .ok rules) (a b : Symbol) :
    list.filter (fun rule => (rule.orient a b).isSome) = (rules.lookup a b).toList := by
  have hnodup : list.Nodup := (exists_ofList_iff.1 ⟨rules, h⟩).of_map _
  have hperm : (list.filter fun rule => (rule.orient a b).isSome).Perm
      (rules.lookup a b).toList := by
    refine (List.perm_ext_iff_of_nodup (hnodup.filter _) ?_).2 fun rule => ?_
    · cases rules.lookup a b <;> simp
    · rw [List.mem_filter, Option.mem_toList, lookup_eq_some_iff_mem_list h]
  cases hlookup : rules.lookup a b with
  | none =>
    rw [hlookup] at hperm
    exact hperm.eq_nil
  | some rule =>
    rw [hlookup] at hperm
    exact List.perm_singleton.1 hperm

/-- **A look-up is a scan.** A set can be made of some rules exactly when none of their keys is
ambiguous, that is when no two rules have the same unordered pair of names. Then it has just these
rules. One of them at most is for any two symbols, and the look-up finds that one; the order in
which the rules were entered does not matter, nor that in which the symbols are named. -/
theorem lookup_eq_scan (list : List Rule) :
    ((∃ rules, ofList list = .ok rules) ↔ ambiguousKeys list = []) ∧
      (ambiguousKeys list = [] ↔ (list.map Rule.names).Nodup) ∧
      ∀ {rules}, ofList list = .ok rules →
        rules.rules = list ∧
        (∀ a b, list.filter (fun rule => (rule.orient a b).isSome) =
          (rules.lookup a b).toList) ∧
        (∀ a b, rules.lookup a b = rules.lookup b a) ∧
        ∀ {other}, other.Perm list → ∃ rules', ofList other = .ok rules' ∧
          ∀ a b, rules'.lookup a b = rules.lookup a b := by
  refine ⟨?_, ?_, fun {rules} h => ⟨rules_ofList h, filter_isSome_orient h, lookup_comm rules,
    fun {other} hperm => ?_⟩⟩
  · rw [exists_ofList_iff, ambiguousKeys_eq_nil_iff]
  · rw [ambiguousKeys_eq_nil_iff, nodup_map_key_iff]
  · have hnodup : (other.map Rule.key).Nodup :=
      (hperm.map _).nodup_iff.2 (exists_ofList_iff.1 ⟨rules, h⟩)
    obtain ⟨rules', h'⟩ := exists_ofList_iff.2 hnodup
    refine ⟨rules', h', fun a b => Option.ext fun rule => ?_⟩
    rw [lookup_eq_some_iff_mem_list h', lookup_eq_some_iff_mem_list h, hperm.mem_iff]

/-- Two kinds of agents that annihilate when they meet the first kind. -/
def unitRules : List Rule :=
  [⟨⟨"X", 1⟩, ⟨"X", 1⟩, .empty⟩, ⟨⟨"Y", 1⟩, ⟨"X", 1⟩, .empty⟩]

/-- The second rule is found, in either order of the symbols and of the rules, but not for a symbol
of the same name with another arity. -/
theorem lookup_eq_scan_unitRules : ∃ rules, ofList unitRules = .ok rules ∧
    rules.lookup ⟨"X", 1⟩ ⟨"Y", 1⟩ = some ⟨⟨"Y", 1⟩, ⟨"X", 1⟩, .empty⟩ ∧
    rules.lookup ⟨"X", 2⟩ ⟨"Y", 1⟩ = none ∧
    ∃ rules', ofList unitRules.reverse = .ok rules' ∧
      rules'.lookup ⟨"Y", 1⟩ ⟨"X", 1⟩ = some ⟨⟨"Y", 1⟩, ⟨"X", 1⟩, .empty⟩ := by
  obtain ⟨hmade, hnames, hscan⟩ := lookup_eq_scan unitRules
  obtain ⟨rules, hrules⟩ := hmade.2 (hnames.2 (by decide))
  obtain ⟨-, hfilter, hcomm, hperm⟩ := hscan hrules
  obtain ⟨rules', hrules', hsame⟩ := hperm unitRules.reverse_perm
  have hfound : rules.lookup ⟨"X", 1⟩ ⟨"Y", 1⟩ = some ⟨⟨"Y", 1⟩, ⟨"X", 1⟩, .empty⟩ :=
    Option.toList_eq_singleton_iff.1 ((hfilter _ _).symm.trans (by decide))
  have hnone : rules.lookup ⟨"X", 2⟩ ⟨"Y", 1⟩ = none :=
    Option.toList_eq_nil_iff.1 ((hfilter _ _).symm.trans (by decide))
  refine ⟨rules, hrules, hfound, hnone, rules', hrules', ?_⟩
  rw [hsame, hcomm, hfound]

end RuleSet

end InteractionNets
