import InteractionNets.Net.Basic

/-!
# Making and dropping agents

An agent is made together with its ports, one after another from the principal port on, so their
ids follow from the state of the arenas. Dropping an agent takes its ports along.
-/

namespace InteractionNets

namespace Net

/-- Make some ports of an agent, from a position on. -/
def allocPorts (agent : AgentId) : Nat → Nat → Arena Port → List PortId × Arena Port
  | 0, _, ports => ([], ports)
  | count + 1, position, ports =>
    let (port, ports) := ports.allocWith fun id =>
      { id, agent, position, principal := position == 0, link := none }
    let (rest, ports) := allocPorts agent count (position + 1) ports
    (port :: rest, ports)

/-- Make an agent with its ports; the ports are hidden. -/
def allocAgent (net : Net) (symbol : Symbol) : AgentId × Net :=
  let (agent, agents) := net.agents.allocWith fun id => { id, symbol, ports := [] }
  let (ports, portArena) := allocPorts agent symbol.arity 0 net.ports
  (agent, { net with
    agents := agents.modify agent fun data => { data with ports }
    ports := portArena })

/-- Make an agent with its ports, and put the ports at the end of the interface. -/
def newAgent (net : Net) (symbol : Symbol) : AgentId × Net :=
  let (agent, net) := net.allocAgent symbol
  (agent, { net with interface := net.interface.extend (net.portsOf agent) })

/-- The net of one agent, all of whose ports are exposed. -/
def single (symbol : Symbol) : Net :=
  (empty.newAgent symbol).2

/-- Drop an agent and its ports. Connections of the ports are not looked after. -/
def dropAgent (net : Net) (agent : AgentId) : Net :=
  let ports := net.portsOf agent
  { net with
    agents := net.agents.erase agent
    ports := ports.foldl Arena.erase net.ports
    interface := ports.foldl List.erase net.interface }

end Net

end InteractionNets
