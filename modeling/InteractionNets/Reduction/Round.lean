import InteractionNets.Reduction.Reducer

/-!
# Rounds of interactions

The active pairs of a net share no agent, so they can all interact in one round. The interactions
of a round are all planned on the net as it was before the round, and then the plans are carried
out in the order of the pairs. An interaction changes the surroundings of pairs next to it; a plan
that is no longer fresh when its turn comes is made again.
-/

namespace InteractionNets

/-- An interaction that is planned within a round. -/
structure PlannedInteraction where
  plan : Plan
  rule : Rule
deriving DecidableEq

namespace Net

/-- The surroundings of some active pairs with the rules for them. The first pair without a rule
is a fault, and so is the first one whose surroundings cannot be read. -/
def survey (net : Net) (rules : RuleSet) :
    List ActivePair → Except Fault (List (Surroundings × Rule))
  | [] => .ok []
  | pair :: rest =>
    match rules.ruleFor pair with
    | none => .error (.noApplicableRule pair)
    | some rule =>
      match Surroundings.read net pair rule with
      | .error fault => .error fault
      | .ok surroundings =>
        match net.survey rules rest with
        | .error fault => .error fault
        | .ok found => .ok ((surroundings, rule) :: found)

end Net

namespace PlannedInteraction

/-- Plan an interaction for each of some surroundings. -/
def planAll : List (Surroundings × Rule) → Except Fault (List PlannedInteraction)
  | [] => .ok []
  | (surroundings, rule) :: rest =>
    match Plan.make surroundings rule with
    | .error fault => .error fault
    | .ok plan =>
      match planAll rest with
      | .error fault => .error fault
      | .ok plans => .ok (⟨plan, rule⟩ :: plans)

/-- Carry out a planned interaction: as planned while the plan is fresh, and otherwise with a plan
made again, which is counted. -/
def carryOut (watch : Stopwatch) (planned : PlannedInteraction) : Edit Unit := fun net =>
  let pair := planned.plan.surroundings.pair
  if planned.plan.isFresh net planned.rule then
    (.ok (), planned.plan.commit planned.rule (watch.interaction net pair) net)
  else
    let net := { net with tally := net.tally.recordReplan planned.rule.label }
    net.interact watch planned.rule pair

/-- Carry out planned interactions until one fails: how many were made, the fault if there was
one, and the net as it is then. -/
def carryOutAll (watch : Stopwatch) (done : Nat) :
    List PlannedInteraction → Net → (Nat × Option Fault) × Net
  | [], net => ((done, none), net)
  | planned :: rest, net =>
    match planned.carryOut watch net with
    | (.ok (), net) => carryOutAll watch (done + 1) rest net
    | (.error fault, net) => ((done, some fault), net)

end PlannedInteraction

namespace Reducer

/-- The first active pairs of a net, at most as many as the limit allows. -/
def batch (net : Net) : Option Nat → List ActivePair
  | none => net.activePairs
  | some limit => net.activePairs.take limit

/-- Plan a round on a net. -/
def planRound (r : Reducer) (net : Net) (limit : Option Nat) :
    Except Fault (List PlannedInteraction) :=
  match net.survey r.rules (batch net limit) with
  | .error fault => .error fault
  | .ok found => PlannedInteraction.planAll found

/-- Make a round: the number of interactions made, and the fault that ended it early if there was
one. A round in which nothing interacted is not counted. -/
def runRound (r : Reducer) (limit : Option Nat) (net : Net) : (Nat × Option Fault) × Net :=
  match r.planRound net limit with
  | .error fault => ((0, some fault), net)
  | .ok plans =>
    let (result, net) := PlannedInteraction.carryOutAll r.watch 0 plans net
    (result, if result.1 = 0 then net else { net with tally := net.tally.recordRound })

/-- Let the first active pairs of a net interact in one round, and tell how many they were. A
fault after some of the interactions says how many were made. -/
def round (r : Reducer) (limit : Option Nat) : Edit Nat := fun net =>
  match r.runRound limit net with
  | ((done, none), net) => (.ok done, net)
  | ((0, some fault), net) => (.error fault, net)
  | ((done + 1, some fault), net) => (.error (.aborted (done + 1) fault), net)

/-- Go on with a run in rounds after some interactions, for at most `remaining` further ones and
at most as many rounds as the first number says. -/
def roundsFrom (r : Reducer) : Nat → Nat → Nat → Edit Run
  | 0, steps, _ => fun net => (.ok (net.runAtLimit steps), net)
  | rounds + 1, steps, remaining => fun net =>
    if remaining = 0 then (.ok (net.runAtLimit steps), net)
    else
      match r.runRound (some remaining) net with
      | ((done, some fault), net) => (.error (fault.endingRun (steps + done)), net)
      | ((0, none), net) => (.ok ⟨.normalForm, steps⟩, net)
      | ((done + 1, none), net) =>
        r.roundsFrom rounds (steps + (done + 1)) (remaining - (done + 1)) net

/-- Reduce in rounds for at most the given number of interactions. Every round makes an
interaction, so there are no more rounds than interactions. -/
def normalizeInRounds (r : Reducer) (limit : Nat) : Edit Run :=
  r.timed (r.roundsFrom limit 0 limit)

/-- Reduce in rounds to normal form. The result is missing if that takes more than `fuel`
interactions. -/
def reduceInRounds (r : Reducer) (fuel : Nat) : Edit (Option Run) :=
  unlimited (r.normalizeInRounds fuel)

end Reducer

end InteractionNets
