import InteractionNets.Rule.Basic

/-!
# Rule sets

A rule set holds at most one rule for each key, so looking a rule up never has to choose. The
rules keep the order in which they were entered.
-/

namespace InteractionNets

/-- Rules by their keys, in order of entry. -/
structure RuleSet where
  byKey : OrderedMap RuleKey Rule
deriving DecidableEq

namespace RuleSet

/-- The set without rules. -/
def empty : RuleSet :=
  ⟨.empty⟩

instance : Inhabited RuleSet := ⟨empty⟩

/-- The rules, in order of entry. -/
def rules (s : RuleSet) : List Rule :=
  s.byKey.values

/-- The number of rules. -/
def size (s : RuleSet) : Nat :=
  s.byKey.size

/-- Enter a rule, unless there is one for its key. -/
def insert (s : RuleSet) (rule : Rule) : Except Fault RuleSet :=
  match s.byKey.get? rule.key with
  | some _ => .error (.ambiguousRule rule.key)
  | none => .ok ⟨s.byKey.insert rule.key rule⟩

/-- Enter some rules one after another. -/
def insertAll (s : RuleSet) : List Rule → Except Fault RuleSet
  | [] => .ok s
  | rule :: rest =>
    match s.insert rule with
    | .ok s => s.insertAll rest
    | .error fault => .error fault

/-- The set of some rules. -/
def ofList (rules : List Rule) : Except Fault RuleSet :=
  empty.insertAll rules

/-- The rule for two symbols: the one of their key, if it is for just these symbols. -/
def lookup (s : RuleSet) (a b : Symbol) : Option Rule :=
  (s.byKey.get? (.of a b)).filter fun rule => (rule.orient a b).isSome

/-- The rule for the symbols that the record of an active pair names. -/
def ruleFor (s : RuleSet) (pair : ActivePair) : Option Rule :=
  s.lookup pair.symbol₁ pair.symbol₂

theorem lookup_eq_some_iff {s : RuleSet} {a b : Symbol} {rule : Rule} :
    s.lookup a b = some rule ↔ s.byKey.get? (.of a b) = some rule ∧ (rule.orient a b).isSome := by
  simp [lookup, Option.filter_eq_some_iff]

end RuleSet

end InteractionNets
