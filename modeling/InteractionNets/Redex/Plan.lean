import InteractionNets.Redex.Surroundings

/-!
# Plans

A plan says which links an interaction has to make. It is found by following paths through the
pattern: a path enters a slot from outside, crosses it, follows the rule's splice, may pass
through wires and further slots, and comes to an end at a port that will be there afterwards, at a
place on the interface, or at a hidden port. A path without ends is a loop and disappears. A plan
is made from the surroundings and the rule alone; it looks at no net.
-/

namespace InteractionNets

/-- Where a path through a pattern ends. -/
inductive PathEnd where
  /-- A port of the net that survives the interaction. -/
  | host (port : PortId)
  /-- A port of the replacement net, before it is copied. -/
  | fresh (port : PortId)
  /-- The place on the interface of a port that the interaction takes away. -/
  | free (port : PortId)
  /-- A hidden port. -/
  | hidden
deriving DecidableEq, Inhabited

/-- The end of a path that leaves the pattern; a path that enters another slot goes on. -/
def Outside.pathEnd? : Outside → Option PathEnd
  | .peer port => some (.host port)
  | .free port => some (.free port)
  | .hidden => some .hidden
  | .slot _ => none

/-- The surroundings of a pair with the two ends of every path through the pattern. -/
structure Plan where
  surroundings : Surroundings
  links : List (PathEnd × PathEnd)
deriving DecidableEq, Inhabited

namespace Plan

/-- What is reported when a slot of the surroundings is not one of the rule's, or the other way
round. -/
def mismatch (s : Surroundings) (rule : Rule) : Fault :=
  .arityMismatch rule.key rule.slots.length s.slots.length

/-! ### Following paths

Both walks take the number of slots they may enter. They give the slots they pass, in order, and the
end they come to. A walk that enters more slots than there are cannot end. -/

/-- Follow a path that has entered a slot from outside. -/
def walkIn (s : Surroundings) (rule : Rule) : Nat → Slot → Except Fault (List Slot × PathEnd)
  | 0, _ => .error (mismatch s rule)
  | fuel + 1, slot =>
    match rule.replacement.splice? slot with
    | none => .error (mismatch s rule)
    | some (.port port) => .ok ([slot], .fresh port)
    | some (.wire next) =>
      match s.outside? next with
      | none => .error (mismatch s rule)
      | some (.slot further) =>
        match walkIn s rule fuel further with
        | .error fault => .error fault
        | .ok (trail, stop) => .ok (slot :: next :: trail, stop)
      | some (.peer port) => .ok ([slot, next], .host port)
      | some (.free port) => .ok ([slot, next], .free port)
      | some .hidden => .ok ([slot, next], .hidden)

/-- Follow a path that has come to a slot from the rule's side. -/
def walkOut (s : Surroundings) (rule : Rule) : Nat → Slot → Except Fault (List Slot × PathEnd)
  | 0, _ => .error (mismatch s rule)
  | fuel + 1, slot =>
    match s.outside? slot with
    | none => .error (mismatch s rule)
    | some (.slot next) =>
      match rule.replacement.splice? next with
      | none => .error (mismatch s rule)
      | some (.port port) => .ok ([slot, next], .fresh port)
      | some (.wire further) =>
        match walkOut s rule fuel further with
        | .error fault => .error fault
        | .ok (trail, stop) => .ok (slot :: next :: trail, stop)
    | some (.peer port) => .ok ([slot], .host port)
    | some (.free port) => .ok ([slot], .free port)
    | some .hidden => .ok ([slot], .hidden)

/-! ### Collecting paths -/

/-- The slots passed so far and the paths found so far. -/
abbrev Found := List Slot × List (PathEnd × PathEnd)

/-- Follow the paths that start outside the pattern, from each of some slots not passed before. -/
def pathsFromOutside (s : Surroundings) (rule : Rule) :
    List (Slot × Outside) → Found → Except Fault Found
  | [], found => .ok found
  | (slot, outside) :: rest, found =>
    match outside.pathEnd? with
    | none => pathsFromOutside s rule rest found
    | some start =>
      if found.1.contains slot then pathsFromOutside s rule rest found
      else
        match walkIn s rule s.slots.length slot with
        | .error fault => .error fault
        | .ok (trail, stop) =>
          pathsFromOutside s rule rest (trail ++ found.1, found.2 ++ [(start, stop)])

/-- Follow the paths that start at a port of the replacement net, from each of some slots not
passed before. -/
def pathsFromInside (s : Surroundings) (rule : Rule) :
    List (Slot × Outside) → Found → Except Fault Found
  | [], found => .ok found
  | (slot, _) :: rest, found =>
    if found.1.contains slot then pathsFromInside s rule rest found
    else
      match rule.replacement.splice? slot with
      | none => .error (mismatch s rule)
      | some (.wire _) => pathsFromInside s rule rest found
      | some (.port port) =>
        match walkOut s rule s.slots.length slot with
        | .error fault => .error fault
        | .ok (trail, stop) =>
          pathsFromInside s rule rest (trail ++ found.1, found.2 ++ [(.fresh port, stop)])

/-- Whether a path joins two places on the interface. -/
def isFreeWire : PathEnd × PathEnd → Bool
  | (.free _, .free _) => true
  | _ => false

/-- Plan an interaction: follow the paths from outside and then those between replacement ports
only. A path that joins two places on the interface would leave a wire without agents, and is
refused. -/
def make (s : Surroundings) (rule : Rule) : Except Fault Plan :=
  match pathsFromOutside s rule s.slots ([], []) with
  | .error fault => .error fault
  | .ok found =>
    match pathsFromInside s rule s.slots found with
    | .error fault => .error fault
    | .ok (_, links) =>
      if links.any isFreeWire then .error (.freeWire rule.key)
      else .ok { surroundings := s, links }

/-- A plan is **fresh** while reading the surroundings again gives what it was made from. -/
def isFresh (plan : Plan) (net : Net) (rule : Rule) : Bool :=
  match Surroundings.read net plan.surroundings.pair rule with
  | .ok s => s == plan.surroundings
  | .error _ => false

end Plan

end InteractionNets
