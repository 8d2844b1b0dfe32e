/-!
# Ids

Agents, ports and connections are known by ids, which mean something only within the net that gave
them out.
-/

namespace InteractionNets

/-- The id of an agent within its net. -/
abbrev AgentId := Nat

/-- The id of a port within its net. -/
abbrev PortId := Nat

/-- The id of a connection within its net. -/
abbrev ConnectionId := Nat

/-- An id is written with a number sign in front. -/
def idText (i : Nat) : String :=
  "#" ++ toString i

end InteractionNets
