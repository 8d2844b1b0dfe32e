import InteractionNets.Reduction.Round
import InteractionNets.Text.Json

/-!
# The engine

An engine reduces nets as its settings say: one pair at a time or in rounds, with or without a
limit on the number of interactions.
-/

namespace InteractionNets

/-- Which active pairs interact next: the first one, or all of them in a round. -/
inductive Strategy where
  | sequential
  | parallel
deriving DecidableEq, Inhabited

/-- The name of a strategy. -/
def Strategy.text : Strategy → String
  | .sequential => "Sequential"
  | .parallel => "Parallel"

/-- The settings of an engine. Without `maxSteps` it goes on until there is a normal form. -/
structure Settings where
  maxSteps : Option Nat
  strategy : Strategy
deriving DecidableEq, Inhabited

/-- The settings as JSON. -/
def Settings.json (s : Settings) : Json :=
  .obj [("max_steps", .option .nat s.maxSteps), ("strategy", .str s.strategy.text)]

/-- A finished run as JSON. -/
def Run.json (r : Run) : Json :=
  .obj [("outcome", .str r.outcome.text), ("steps", .nat r.steps)]

/-- A reducer with the settings it is used with. -/
structure Engine where
  settings : Settings
  reducer : Reducer

/-- Reduce a net as the settings say. With a limit there is always a result or a fault; without
one the result is missing if more than `fuel` interactions would be needed. -/
def Engine.run (e : Engine) (fuel : Nat) : Edit (Option Run) :=
  match e.settings.strategy, e.settings.maxSteps with
  | .sequential, some limit => some <$> e.reducer.normalize limit
  | .sequential, none => e.reducer.reduce fuel
  | .parallel, some limit => some <$> e.reducer.normalizeInRounds limit
  | .parallel, none => e.reducer.reduceInRounds fuel

end InteractionNets
