import InteractionNets.Net.Wiring
import InteractionNets.Rule.Replacement

/-!
# Assembling nets by hand

The steps by which small nets are put together: make an agent, name one of its ports, and wire two
ports given by their agents and positions. A replacement is assembled from the empty net.
-/

namespace InteractionNets.Assembly

/-- The port at a position of an agent, as a step of an edit. -/
def portAt (agent : AgentId) (position : Nat) : Edit PortId :=
  .look fun net => net.portAt agent position

/-- Make an agent, as a step of an edit. -/
def agent (symbol : Symbol) : Edit AgentId :=
  .update fun net => net.newAgent symbol

/-- Connect two ports, each given by its agent and its position there. -/
def wire (a : AgentId) (i : Nat) (b : AgentId) (j : Nat) : Edit Unit := do
  let _ ← Net.connect (← portAt a i) (← portAt b j)

/-- The replacement that an edit of the empty net makes, with the slots bound to the ports the
edit gives. -/
def replacement (edit : Edit (List (Slot × PortId))) : Except Fault Replacement :=
  match edit.result .empty with
  | .error fault => .error fault
  | .ok (ports, net) =>
    .ok (ports.foldl (fun r entry => r.bind entry.1 entry.2) (.ofNet net))

end InteractionNets.Assembly
