import InteractionNets.Rule.Assembly
import InteractionNets.Rule.RuleSet

/-!
# Symmetric interaction combinators

The constructor γ, the duplicator δ and the eraser ε. Two combinators of one kind annihilate: γ
crosses its wires and δ keeps them straight. γ and δ commute through each other, and ε erases
whatever it meets.
-/

namespace InteractionNets.Combinators

open Assembly

/-- The constructor. -/
def gamma : Symbol :=
  ⟨"γ", 3⟩

/-- The duplicator. -/
def delta : Symbol :=
  ⟨"δ", 3⟩

/-- The eraser. -/
def epsilon : Symbol :=
  ⟨"ε", 1⟩

/-- The combinators. -/
def symbols : List Symbol :=
  [gamma, delta, epsilon]

/-- Two constructors annihilate and cross their wires. -/
def gammaGamma : Except Fault Rule :=
  Rule.ofReplacement gamma gamma
    ((Replacement.empty.wire (.left 0) (.right 1)).wire (.left 1) (.right 0))

/-- Two duplicators annihilate and keep their wires straight. -/
def deltaDelta : Except Fault Rule :=
  Rule.ofReplacement delta delta
    ((Replacement.empty.wire (.left 0) (.right 0)).wire (.left 1) (.right 1))

/-- Two erasers leave nothing. -/
def epsilonEpsilon : Except Fault Rule :=
  Rule.ofReplacement epsilon epsilon .empty

/-- A constructor and a duplicator pass through each other, and each is doubled. -/
def gammaDelta : Except Fault Rule := do
  let r ← replacement do
    let d₁ ← agent delta
    let d₂ ← agent delta
    let g₁ ← agent gamma
    let g₂ ← agent gamma
    wire d₁ 1 g₁ 1
    wire d₁ 2 g₂ 1
    wire d₂ 1 g₁ 2
    wire d₂ 2 g₂ 2
    return [(.left 0, ← portAt d₁ 0), (.left 1, ← portAt d₂ 0), (.right 0, ← portAt g₁ 0),
      (.right 1, ← portAt g₂ 0)]
  Rule.ofReplacement gamma delta r

/-- An eraser goes on into both auxiliary ports of what it meets. -/
def erase (symbol : Symbol) : Except Fault Rule := do
  let r ← replacement do
    let a ← agent epsilon
    let b ← agent epsilon
    return [(.left 0, ← portAt a 0), (.left 1, ← portAt b 0)]
  Rule.ofReplacement symbol epsilon r

/-- The rules of the combinators. -/
def rules : Except Fault RuleSet := do
  RuleSet.ofList [← gammaGamma, ← deltaDelta, ← epsilonEpsilon, ← gammaDelta, ← erase gamma,
    ← erase delta]

end InteractionNets.Combinators
