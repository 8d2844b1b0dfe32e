import InteractionNets.Symbol

/-!
# Rule keys

A rule is meant for an unordered pair of symbol names. Its key is that pair, written in order, so
that the two ways of naming the pair give one key.
-/

namespace InteractionNets

/-- An unordered pair of symbol names, the smaller name first. -/
structure RuleKey where
  first : String
  second : String
deriving DecidableEq, Inhabited

namespace RuleKey

/-- The key of two symbols. -/
def of (a b : Symbol) : RuleKey :=
  if b.name < a.name then ⟨b.name, a.name⟩ else ⟨a.name, b.name⟩

/-- Keys are ordered by their first name and then by their second. -/
instance : Ord RuleKey where
  compare a b := (compare a.first b.first).then (compare a.second b.second)

/-- A key is written as its two names in parentheses. -/
def text (k : RuleKey) : String :=
  "(" ++ k.first ++ ", " ++ k.second ++ ")"

/-- The order in which two symbols are named does not matter. -/
theorem of_comm (a b : Symbol) : of a b = of b a := by
  unfold of
  by_cases hab : a.name < b.name
  · have hba : ¬ b.name < a.name := fun h => String.lt_irrefl _ (String.lt_trans hab h)
    simp [hab, hba]
  · by_cases hba : b.name < a.name
    · simp [hab, hba]
    · have heq : a.name = b.name := String.le_antisymm hba hab
      simp [heq]

end RuleKey

end InteractionNets
