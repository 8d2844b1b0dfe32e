import InteractionNets.Arena
import InteractionNets.Fault
import InteractionNets.Net.Interface
import InteractionNets.Tally

/-!
# Nets

A net is a set of agents, their ports, and the connections between ports. Everything has an id in
an arena of its own and refers to everything else by id. The unconnected ports that are exposed to
the outside form the interface, in an order that matters: it is what nets are composed along. A
port that is neither connected nor on the interface is hidden.
-/

namespace InteractionNets

/-- A port of an agent, the place it has there, whether it is the principal port, and the
connection it takes part in. -/
structure Port where
  id : PortId
  agent : AgentId
  position : Nat
  principal : Bool
  link : Option ConnectionId
deriving DecidableEq, Inhabited

/-- Whether a port takes part in a connection. -/
def Port.isConnected (p : Port) : Bool :=
  p.link.isSome

/-- An agent: its symbol and its ports, the principal port first. -/
structure Agent where
  id : AgentId
  symbol : Symbol
  ports : List PortId
deriving DecidableEq, Inhabited

/-- The principal port of an agent. -/
def Agent.principal? (a : Agent) : Option PortId :=
  a.ports.head?

/-- The auxiliary ports of an agent, in order. -/
def Agent.auxiliary (a : Agent) : List PortId :=
  a.ports.tail

/-- A connection between two ports, with the agents that own them and where the ports go back
to. -/
structure Connection where
  id : ConnectionId
  ports : PortId × PortId
  agents : AgentId × AgentId
  restore : Restore × Restore
deriving DecidableEq, Inhabited

namespace Connection

/-- The end opposite to a port, if the port is one of the two ends. -/
def other? (c : Connection) (port : PortId) : Option PortId :=
  if c.ports.1 = port then some c.ports.2
  else if c.ports.2 = port then some c.ports.1
  else none

theorem other?_eq_some_iff {c : Connection} {p q : PortId} :
    c.other? p = some q ↔ c.ports = (p, q) ∨ (c.ports.1 ≠ p ∧ c.ports = (q, p)) := by
  obtain ⟨_, ⟨a, b⟩, _, _⟩ := c
  unfold other?
  by_cases ha : a = p
  · subst ha
    simp [eq_comm]
  · by_cases hb : b = p
    · subst hb
      simp [ha]
    · simp [ha, hb]

/-- What a connection joins, under its id; not where its ends came from. -/
def ends (c : Connection) : ConnectionId × (PortId × PortId) × (AgentId × AgentId) :=
  (c.id, c.ports, c.agents)

end Connection

/-- Agents, ports and connections, the interface, and the tally of the interactions made so
far. -/
@[ext]
structure Net where
  agents : Arena Agent
  ports : Arena Port
  connections : Arena Connection
  interface : Interface
  tally : Tally
deriving DecidableEq

namespace Net

/-- The net without agents. -/
def empty : Net :=
  ⟨.empty, .empty, .empty, [], .empty⟩

instance : Inhabited Net := ⟨empty⟩

/-! ### Looking up -/

/-- The agent with an id. -/
def agent? (net : Net) (agent : AgentId) : Option Agent :=
  net.agents.get? agent

/-- The port with an id. -/
def port? (net : Net) (port : PortId) : Option Port :=
  net.ports.get? port

/-- The connection with an id. -/
def connection? (net : Net) (connection : ConnectionId) : Option Connection :=
  net.connections.get? connection

/-- The agents of a net, in the order of their ids. -/
def agentList (net : Net) : List Agent :=
  net.agents.values

/-- The ports of a net, in the order of their ids. -/
def portList (net : Net) : List Port :=
  net.ports.values

/-- The connections of a net, in the order of their ids. -/
def connectionList (net : Net) : List Connection :=
  net.connections.values

/-- The ports of an agent; none for an unknown agent. -/
def portsOf (net : Net) (agent : AgentId) : List PortId :=
  ((net.agent? agent).map Agent.ports).getD []

/-- The auxiliary ports of an agent; none for an unknown agent. -/
def auxiliaryOf (net : Net) (agent : AgentId) : List PortId :=
  ((net.agent? agent).map Agent.auxiliary).getD []

/-- The port at a position of an agent. A position the agent does not have counts as an unknown
agent, too. -/
def portAt (net : Net) (agent : AgentId) (position : Nat) : Except Fault PortId :=
  match (net.portsOf agent)[position]? with
  | some port => .ok port
  | none => .error (.unknownAgent agent)

/-- The connection that a port takes part in. -/
def linkOf? (net : Net) (port : PortId) : Option ConnectionId :=
  (net.port? port).bind Port.link

/-- The **peer** of a port is the other end of its connection. -/
def peer? (net : Net) (port : PortId) : Option PortId :=
  ((net.linkOf? port).bind net.connection?).bind fun c => c.other? port

/-- The peer of a port, with what is stored about it. -/
def peerPort? (net : Net) (port : PortId) : Option Port :=
  (net.peer? port).bind net.port?

/-- Whether a port exists and is a principal port. -/
def isPrincipal (net : Net) (port : PortId) : Bool :=
  (net.port? port).any Port.principal

/-- Two nets are the **same** when they have the same agents, ports and connections under the same
ids and the same interface in the same order. What connections restore and the tallies are not
compared. -/
def same (net other : Net) : Bool :=
  net.agents.same other.agents &&
    net.ports.same other.ports &&
    net.connections.size == other.connections.size &&
    net.connections.entries.map (fun entry => (entry.1, entry.2.ends)) ==
      other.connections.entries.map (fun entry => (entry.1, entry.2.ends)) &&
    net.interface == other.interface

end Net

end InteractionNets
