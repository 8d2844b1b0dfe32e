import InteractionNets.Net.ActivePairs
import InteractionNets.Rule.Basic

/-!
# The surroundings of a redex

Before an active pair is replaced, its surroundings are read: for every auxiliary port of the two
agents, what it is attached to outside the pair. Each such port is a slot of the rule's pattern.
The reading also checks that the record of the pair still describes the net.
-/

namespace InteractionNets

/-- What a slot is attached to outside the pattern. -/
inductive Outside where
  /-- A port of another agent. -/
  | peer (port : PortId)
  /-- Nothing: the slot's own port, given here, is on the interface. -/
  | free (port : PortId)
  /-- Nothing: the slot's own port is hidden. -/
  | hidden
  /-- Another slot of the same pattern. -/
  | slot (slot : Slot)
deriving DecidableEq, Inhabited

/-- An active pair with the outside of each of its slots, those of the first agent first. -/
structure Surroundings where
  pair : ActivePair
  slots : List (Slot × Outside)
deriving DecidableEq, Inhabited

namespace Surroundings

/-- The side that an agent plays in a pair whose agents play the given sides. -/
def sideOf? (pair : ActivePair) (sides : Side × Side) (agent : AgentId) : Option Side :=
  if agent = pair.agent₁ then some sides.1
  else if agent = pair.agent₂ then some sides.2
  else none

/-- What a port of a pair's agent is attached to outside the pair. -/
def outsideOf (net : Net) (pair : ActivePair) (sides : Side × Side) (port : PortId) : Outside :=
  match net.peerPort? port with
  | some peer =>
    match sideOf? pair sides peer.agent with
    | some side => .slot ⟨side, peer.position - 1⟩
    | none => .peer peer.id
  | none => if net.interface.contains port then .free port else .hidden

/-- The slots of one agent of a pair, numbered from the given index on, with their outsides. -/
def slotsFrom (net : Net) (pair : ActivePair) (sides : Side × Side) (side : Side) :
    Nat → List PortId → List (Slot × Outside)
  | _, [] => []
  | index, port :: rest =>
    (⟨side, index⟩, outsideOf net pair sides port) ::
      slotsFrom net pair sides side (index + 1) rest

/-- Read the surroundings of an active pair for a rule. The recorded connection must join the
recorded principal ports of the recorded agents, and the rule must be for the agents' symbols. -/
def read (net : Net) (pair : ActivePair) (rule : Rule) : Except Fault Surroundings :=
  match net.connection? pair.connection with
  | none => .error (.notActive pair.connection)
  | some connection =>
    if connection.ports ≠ (pair.port₁, pair.port₂) ∨
        connection.agents ≠ (pair.agent₁, pair.agent₂) then
      .error (.notActive pair.connection)
    else
      match net.agent? pair.agent₁, net.agent? pair.agent₂ with
      | none, _ => .error (.unknownAgent pair.agent₁)
      | some _, none => .error (.unknownAgent pair.agent₂)
      | some agent₁, some agent₂ =>
        if agent₁.principal? ≠ some pair.port₁ ∨ agent₂.principal? ≠ some pair.port₂ then
          .error (.notActive pair.connection)
        else
          match rule.orient agent₁.symbol agent₂.symbol with
          | none => .error (.noApplicableRule pair)
          | some sides =>
            .ok {
              pair
              slots :=
                slotsFrom net pair sides sides.1 0 agent₁.auxiliary ++
                  slotsFrom net pair sides sides.2 0 agent₂.auxiliary }

/-- What a slot is attached to outside the pattern. -/
def outside? (s : Surroundings) (slot : Slot) : Option Outside :=
  s.slots.lookup slot

end Surroundings

end InteractionNets
