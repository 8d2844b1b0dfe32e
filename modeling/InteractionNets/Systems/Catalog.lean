import InteractionNets.Systems.Combinators
import InteractionNets.Systems.Peano

/-!
# The rule systems

The rule systems that come with the library, by their names.
-/

namespace InteractionNets

/-- A rule system that comes with the library. -/
inductive RuleSystem where
  | peano
  | combinators
deriving DecidableEq, Inhabited

namespace RuleSystem

/-- All the rule systems. -/
def all : List RuleSystem :=
  [peano, combinators]

/-- The name of a rule system. -/
def name : RuleSystem → String
  | peano => "peano"
  | combinators => "combinators"

/-- The symbols of a rule system. -/
def symbols : RuleSystem → List Symbol
  | peano => Peano.symbols
  | combinators => Combinators.symbols

/-- The rules of a rule system. -/
def rules : RuleSystem → Except Fault RuleSet
  | peano => Peano.rules
  | combinators => Combinators.rules

/-- The rule system with a name. -/
def ofName? (name : String) : Option RuleSystem :=
  all.find? fun system => system.name == name

/-- The sentence that reports a name no rule system has. -/
def unknownName (name : String) : String :=
  "unknown rule system \x60" ++ name ++ "\x60"

end RuleSystem

end InteractionNets
