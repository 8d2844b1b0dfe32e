import InteractionNets.Net.Wiring

/-!
# Copying one net into another

A copy of a net is made inside a host net with fresh ids: first the agents in the order of their
ids, then the connections in the order of theirs. The port map says which port of the host each
port of the copied net became.
-/

namespace InteractionNets

/-- The ports of a copied net, each with the port of the host that it became. -/
abbrev PortMap := List (PortId × PortId)

namespace Net

/-- Make a copy of each of some agents, with the same symbol and the ports in the same places. -/
def copyAgents : List Agent → Net → PortMap × Net
  | [], host => ([], host)
  | agent :: rest, host =>
    let (copy, host) := host.allocAgent agent.symbol
    let ports := agent.ports.zip (host.portsOf copy)
    let (map, host) := copyAgents rest host
    (ports ++ map, host)

/-- Make a copy of each of some connections, its two ends in the same order. -/
def copyConnections (map : PortMap) : List Connection → Net → Net
  | [], host => host
  | connection :: rest, host =>
    match map.lookup connection.ports.1, map.lookup connection.ports.2 with
    | some a, some b => copyConnections map rest (host.link a b).2
    | _, _ => copyConnections map rest host

/-- Copy a net into a host. The copy's interface is put after the host's when it is to be exposed;
otherwise the free ports of the copy are hidden. The tallies are added. -/
def inject (host other : Net) (expose : Bool) : PortMap × Net :=
  let (map, host) := copyAgents other.agentList host
  let host := copyConnections map other.connectionList host
  let interface :=
    if expose then host.interface.extend (other.interface.filterMap fun port => map.lookup port)
    else host.interface
  (map, { host with interface, tally := host.tally + other.tally })

end Net

end InteractionNets
