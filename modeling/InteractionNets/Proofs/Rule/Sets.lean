import InteractionNets.Proofs.Rule.Valid
import InteractionNets.Rule.RuleSet

/-!
# Rules of a set

A set holds a rule under the key of its symbols. The rule that is found for an active pair is held
under its own key, because the key of two symbols does not depend on their order.
-/

namespace InteractionNets

/-- A rule that is for two symbols has their key. -/
theorem Rule.key_eq_of_isSome_orient {rule : Rule} {a b : Symbol}
    (h : (rule.orient a b).isSome) : rule.key = .of a b := by
  rcases isSome_orient_iff.1 h with ⟨rfl, rfl⟩ | ⟨rfl, rfl⟩
  · rfl
  · exact RuleKey.of_comm rule.left rule.right

namespace RuleSet

variable {rules : RuleSet} {rule : Rule} {pair : ActivePair}

/-- A rule is entered in a set under its key. -/
def Contains (rules : RuleSet) (rule : Rule) : Prop :=
  rules.byKey.get? rule.key = some rule

/-- A rule set of valid rules. -/
def Valid (s : RuleSet) : Prop :=
  ∀ rule ∈ s.rules, rule.Valid

theorem mem_rules_of_contains (h : rules.Contains rule) : rule ∈ rules.rules :=
  List.mem_map.2 ⟨_, (lookup_eq_some_iff_mem rules.byKey.keys_nodup).1 h, rfl⟩

/-- The rule found for a pair is for it. -/
theorem isFor_of_ruleFor (hfor : rules.ruleFor pair = some rule) : rule.isFor pair :=
  (lookup_eq_some_iff.1 hfor).2

/-- The rule found for a pair is entered under its own key. -/
theorem contains_of_ruleFor (hfor : rules.ruleFor pair = some rule) : rules.Contains rule := by
  obtain ⟨hget, horient⟩ := lookup_eq_some_iff.1 hfor
  rw [Contains, Rule.key_eq_of_isSome_orient horient]
  exact hget

theorem mem_rules_of_ruleFor (hfor : rules.ruleFor pair = some rule) : rule ∈ rules.rules :=
  mem_rules_of_contains (contains_of_ruleFor hfor)

theorem Valid.of_ruleFor (hs : rules.Valid) (hfor : rules.ruleFor pair = some rule) : rule.Valid :=
  hs rule (mem_rules_of_ruleFor hfor)

end RuleSet

end InteractionNets
