import InteractionNets.Net.Inject
import InteractionNets.Redex.Plan

/-!
# Interactions

An interaction reads the surroundings of an active pair, makes a plan, and carries the plan out.
Only the last step changes the net, and nothing can fail there.
-/

namespace InteractionNets

/-- How long things take: the interaction of a pair of a net, and a run from one net to another.
Times are counted in tallies and decide nothing. -/
structure Stopwatch where
  interaction : Net → ActivePair → Duration
  run : Net → Net → Duration

namespace Stopwatch

/-- The stopwatch on which everything takes no time. -/
def stopped : Stopwatch :=
  ⟨fun _ _ => .zero, fun _ _ => .zero⟩

instance : Inhabited Stopwatch := ⟨stopped⟩

/-- The stopwatch on which everything takes a nanosecond. -/
def ticking : Stopwatch :=
  ⟨fun _ _ => ⟨1⟩, fun _ _ => ⟨1⟩⟩

end Stopwatch

namespace Plan

/-! ### Carrying a plan out -/

/-- Cut a pair off: remove the connection that makes it a pair and those of its auxiliary
ports. -/
def detach (net : Net) (pair : ActivePair) : Net :=
  let consumed := net.auxiliaryOf pair.agent₁ ++ net.auxiliaryOf pair.agent₂
  consumed.foldl
    (fun net port =>
      match net.linkOf? port with
      | some connection => net.unlink connection
      | none => net)
    (net.unlink pair.connection)

/-- The port at the end of a path, once the replacement net is copied. A place on the interface
and a hidden port are no ports that could be linked. -/
def resolve (copies : PortMap) : PathEnd → Option PortId
  | .host port => some port
  | .fresh port => copies.lookup port
  | .free _ => none
  | .hidden => none

/-- The ports that take the places of ports on the interface, or `none` where a place is given
up. -/
def substitutes (copies : PortMap) (links : List (PathEnd × PathEnd)) :
    List (PortId × Option PortId) :=
  links.filterMap fun link =>
    match link with
    | (.free port, stop) => some (port, resolve copies stop)
    | (start, .free port) => some (port, resolve copies start)
    | _ => none

/-- Link the ends of the paths that come to a port at both ends. -/
def linkPaths (copies : PortMap) : List (PathEnd × PathEnd) → Net → Net
  | [], net => net
  | (start, stop) :: rest, net =>
    match resolve copies start, resolve copies stop with
    | some a, some b => linkPaths copies rest (net.link a b).2
    | _, _ => linkPaths copies rest net

/-- Put substitutes in the places of ports on an interface. -/
def substitute (substitutes : List (PortId × Option PortId)) (interface : Interface) : Interface :=
  if substitutes.isEmpty then interface
  else
    Interface.extend [] (interface.filterMap fun port =>
      match substitutes.lookup port with
      | some replacement => replacement
      | none => some port)

/-- Carry a fresh plan out: cut the pair off, copy the replacement net, link the ends of the
paths, pass the places on the interface on, and drop the two agents. -/
def commit (plan : Plan) (rule : Rule) (took : Duration) (net : Net) : Net :=
  let pair := plan.surroundings.pair
  let (copies, net) := (detach net pair).inject rule.replacement.net false
  let net := linkPaths copies plan.links net
  let net := { net with
    interface := substitute (substitutes copies plan.links) net.interface }
  let net := (net.dropAgent pair.agent₁).dropAgent pair.agent₂
  { net with tally := net.tally.record rule.label took }

end Plan

namespace Net

/-- The plan for replacing an active pair of a net by a rule. -/
def planFor (net : Net) (rule : Rule) (pair : ActivePair) : Except Fault Plan :=
  if rule.isFor pair then
    match Surroundings.read net pair rule with
    | .error fault => .error fault
    | .ok surroundings => Plan.make surroundings rule
  else .error (.noApplicableRule pair)

/-- Let an active pair interact by a rule. -/
def interact (watch : Stopwatch) (rule : Rule) (pair : ActivePair) : Edit Unit := fun net =>
  match net.planFor rule pair with
  | .error fault => (.error fault, net)
  | .ok plan => (.ok (), plan.commit rule (watch.interaction net pair) net)

end Net

end InteractionNets
