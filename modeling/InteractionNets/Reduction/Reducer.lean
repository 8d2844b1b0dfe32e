import InteractionNets.Redex.Interaction
import InteractionNets.Rule.RuleSet

/-!
# Reducing one pair at a time

A reducer lets the first active pair of a net interact, in the order of connections, as often as
it is asked to. A run counts its interactions and says whether it reached a normal form.
Interactions made before a fault stay made, and the fault says how many they were.
-/

namespace InteractionNets

/-- How a run came to its end. -/
inductive Outcome where
  /-- No active pair is left. -/
  | normalForm
  /-- The allowed number of interactions is used up, with active pairs left. -/
  | diverging
deriving DecidableEq, Inhabited

/-- The name of an outcome. -/
def Outcome.text : Outcome → String
  | .normalForm => "NormalForm"
  | .diverging => "Diverging"

/-- How a run ended and how many interactions it made. -/
structure Run where
  outcome : Outcome
  steps : Nat
deriving DecidableEq, Inhabited

/-- What a net is reduced with: the rules, and the stopwatch that times the interactions. -/
structure Reducer where
  rules : RuleSet
  watch : Stopwatch

/-- The run that ends with the allowed number of interactions used up. -/
def Net.runAtLimit (net : Net) (steps : Nat) : Run :=
  ⟨if net.isNormal then .normalForm else .diverging, steps⟩

namespace Reducer

/-- Carry out a run and count its time. -/
def timed {α : Type} (r : Reducer) (run : Edit α) : Edit α := fun net =>
  let (result, after) := run net
  (result, { after with tally := after.tally.recordBusy (r.watch.run net after) })

/-- Let the first active pair interact, and tell which pair it was and by which rule's key. A net
in normal form is left as it is. -/
def step (r : Reducer) : Edit (Option (ActivePair × RuleKey)) := fun net =>
  match net.activePairs.head? with
  | none => (.ok none, net)
  | some pair =>
    match r.rules.ruleFor pair with
    | none => (.error (.noApplicableRule pair), net)
    | some rule =>
      match net.interact r.watch rule pair with
      | (.ok (), net) => (.ok (some (pair, rule.key)), net)
      | (.error fault, net) => (.error fault, net)

/-- Go on with a run after some interactions, for at most the given number of further ones. -/
def runFrom (r : Reducer) (steps : Nat) : Nat → Edit Run
  | 0 => fun net => (.ok (net.runAtLimit steps), net)
  | remaining + 1 => fun net =>
    match r.step net with
    | (.ok none, net) => (.ok ⟨.normalForm, steps⟩, net)
    | (.ok (some _), net) => r.runFrom (steps + 1) remaining net
    | (.error fault, net) => (.error (fault.endingRun steps), net)

/-- Reduce for at most the given number of interactions. -/
def normalize (r : Reducer) (limit : Nat) : Edit Run :=
  r.timed (r.runFrom 0 limit)

/-- Take a run as one without limit: it counts only if it did not end at the limit. -/
def unlimited (run : Edit Run) : Edit (Option Run) := do
  let run ← run
  return if run.outcome = .diverging then none else some run

/-- Reduce to normal form. The result is missing if that takes more than `fuel` interactions, so
the reduction ends exactly when there is a result for some `fuel`. -/
def reduce (r : Reducer) (fuel : Nat) : Edit (Option Run) :=
  unlimited (r.normalize fuel)

end Reducer

end InteractionNets
