import InteractionNets.Net.Shape
import InteractionNets.Rule.RuleSet

/-!
# Conditions for confluence

The order of interactions does not matter for the result when every pair of symbols has one rule
at most, and when a rule between two agents of one symbol does not care which of them plays the
left side. The checks here name the keys of the rules that break these conditions.
-/

namespace InteractionNets

/-- Those of some keys that occur for the second time, when the given keys came before. -/
def repeatedKeys : List RuleKey → List RuleKey → List RuleKey
  | [], _ => []
  | key :: rest, seen =>
    if seen.count key = 1 then key :: repeatedKeys rest (key :: seen)
    else repeatedKeys rest (key :: seen)

/-- The keys that more than one of some rules have, each once, in the order in which they occur
for the second time. -/
def ambiguousKeys (rules : List Rule) : List RuleKey :=
  repeatedKeys (rules.map Rule.key) []

namespace Rule

/-- The splice of a slot when the two sides of the pattern trade places. -/
def flippedSplice? (r : Rule) (slot : Slot) : Option Splice :=
  match r.replacement.splice? slot.flip with
  | some (.wire target) => some (.wire target.flip)
  | other => other

/-- The ports that some slots are reconnected to, with those they are reconnected to when the
sides trade places; nothing if wires and ports do not fall on each other. -/
def flippedPorts? (r : Rule) : List Slot → Option (List (PortId × PortId))
  | [] => some []
  | slot :: rest =>
    match r.replacement.splice? slot, r.flippedSplice? slot with
    | some (.wire a), some (.wire b) => if a = b then r.flippedPorts? rest else none
    | some (.port a), some (.port b) => (r.flippedPorts? rest).map ((a, b) :: ·)
    | _, _ => none

/-- Whether the rule replaces its pattern by the same net when the two sides trade places. -/
def isSymmetric (r : Rule) : Bool :=
  match r.flippedPorts? r.slots with
  | none => false
  | some ports =>
    Shape.withBoundary r.replacement.net (ports.map Prod.fst) ==
      Shape.withBoundary r.replacement.net (ports.map Prod.snd)

end Rule

namespace RuleSet

/-- The keys of the rules between agents of one symbol that are not symmetric. -/
def asymmetricKeys (s : RuleSet) : List RuleKey :=
  (s.rules.filter fun rule => rule.isSelfInteraction && !rule.isSymmetric).map Rule.key

/-- The keys of the rules that stand in the way of confluence: repeated ones if there are any, and
otherwise those of asymmetric rules. -/
def confluenceFaults (s : RuleSet) : List RuleKey :=
  match ambiguousKeys s.rules with
  | [] => s.asymmetricKeys
  | keys => keys

/-- Whether reduction with these rules is confluent as far as the rules can tell. -/
def isConfluent (s : RuleSet) : Bool :=
  s.confluenceFaults.isEmpty

end RuleSet

end InteractionNets
