import InteractionNets.Net.Basic

/-!
# Violations of a net's laws

A net is checked by looking at every agent, port, connection and interface entry. The ways in
which one can break the laws are the violations; `Net.violations` lists those that are found, and
a net that keeps all the laws has none. A port that is neither connected nor on the interface
breaks no law: it is hidden.
-/

namespace InteractionNets

/-- A law of nets that is broken, and where. -/
inductive Violation where
  | multiplePrincipal (agent : AgentId) (count : Nat)
  | principalNotFirst (agent : AgentId)
  | wrongPortCount (agent : AgentId) (expected found : Nat)
  | foreignPort (agent : AgentId) (port : PortId)
  | linkMismatch (port : PortId)
  | danglingConnection (connection : ConnectionId)
  | connectedOnInterface (port : PortId)
  | unknownInterfacePort (port : PortId)
deriving DecidableEq, Inhabited

/-- The sentence a violation is reported by. -/
def Violation.message : Violation → String
  | multiplePrincipal agent count =>
    "agent " ++ idText agent ++ " has " ++ toString count ++ " principal ports"
  | principalNotFirst agent =>
    "agent " ++ idText agent ++ " does not have its principal port first"
  | wrongPortCount agent expected found =>
    "agent " ++ idText agent ++ " has " ++ toString found ++ " port(s), its symbol has arity " ++
      toString expected
  | foreignPort agent port =>
    "agent " ++ idText agent ++ " lists port " ++ idText port ++ ", which it does not own"
  | linkMismatch port => "port " ++ idText port ++ " disagrees with the connection table"
  | danglingConnection connection =>
    "connection " ++ idText connection ++ " points at a missing port"
  | connectedOnInterface port => "port " ++ idText port ++ " is on the interface but connected"
  | unknownInterfacePort port => "port " ++ idText port ++ " is on the interface but not in the net"

namespace Net

/-- Whether a port is stored as one of the given agent's. -/
def ownsPort (net : Net) (agent : AgentId) (port : PortId) : Bool :=
  (net.port? port).any fun data => data.agent == agent

/-- The positions of those of an agent's ports that are stored as its own and as principal. -/
def principalPositions (net : Net) (agent : Agent) : List Nat :=
  agent.ports.filterMap fun port =>
    (net.port? port).bind fun data =>
      if data.agent = agent.id ∧ data.principal then some data.position else none

/-- What is wrong with the principal ports of an agent, given their positions. -/
def principalViolations (agent : Agent) : List Nat → List Violation
  | [] => if agent.symbol.arity = 0 then [] else [.principalNotFirst agent.id]
  | [position] => if position = 0 then [] else [.principalNotFirst agent.id]
  | positions => [.multiplePrincipal agent.id positions.length]

/-- What is wrong with an agent. -/
def agentViolations (net : Net) (agent : Agent) : List Violation :=
  (if agent.ports.length = agent.symbol.arity then []
    else [.wrongPortCount agent.id agent.symbol.arity agent.ports.length]) ++
  (agent.ports.filter fun port => !net.ownsPort agent.id port).map (.foreignPort agent.id) ++
  principalViolations agent (net.principalPositions agent)

/-- What is wrong with a port: a connection that does not list it. -/
def portViolations (net : Net) (port : Port) : List Violation :=
  match port.link with
  | none => []
  | some connection =>
    if (net.connection? connection).any fun data =>
        data.ports.1 == port.id || data.ports.2 == port.id then []
    else [.linkMismatch port.id]

/-- What is wrong with one end of a connection. -/
def endViolations (net : Net) (connection : Connection) (port : PortId) (agent : AgentId) :
    List Violation :=
  match net.port? port with
  | none => [.danglingConnection connection.id]
  | some data =>
    if data.link = some connection.id ∧ data.agent = agent then [] else [.linkMismatch port]

/-- What is wrong with a connection. -/
def connectionViolations (net : Net) (connection : Connection) : List Violation :=
  net.endViolations connection connection.ports.1 connection.agents.1 ++
    net.endViolations connection connection.ports.2 connection.agents.2

/-- What is wrong with an entry of the interface. -/
def interfaceViolations (net : Net) (port : PortId) : List Violation :=
  match net.port? port with
  | none => [.unknownInterfacePort port]
  | some data => if data.isConnected then [.connectedOnInterface port] else []

/-- All the violations found in a net: those of its agents, its ports, its connections and its
interface. -/
def violations (net : Net) : List Violation :=
  net.agentList.flatMap net.agentViolations ++
    net.portList.flatMap net.portViolations ++
    net.connectionList.flatMap net.connectionViolations ++
    net.interface.flatMap net.interfaceViolations

end Net

end InteractionNets
