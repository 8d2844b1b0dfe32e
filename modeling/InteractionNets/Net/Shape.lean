import InteractionNets.Net.Basic

/-!
# Shapes

The shape of a net is what is left of it when ids are forgotten. Agents that can be reached from
the interface are numbered by a breadth-first walk from the interface, in the order of the
interface and of the ports on each agent, so their numbers follow from the net alone. A closed
component, which cannot be reached, is walked from each of its agents in turn; its code is the
least one found, and the codes of all closed components are sorted.
-/

namespace InteractionNets

/-- One entry of a code. Tokens are ordered by their kind, in the order given here, and then by
their fields. -/
inductive Token where
  /-- An interface entry: the number of its agent, and the position of the port there. -/
  | boundary (agent position : Nat)
  /-- An agent: its name and how many ports follow. -/
  | agent (name : String) (ports : Nat)
  /-- A connected port: the number of the agent at the other end, and the position there. -/
  | peer (agent position : Nat)
  /-- A port in the given place of the boundary. -/
  | free (index : Nat)
  /-- A port that is neither connected nor in the boundary. -/
  | hidden
deriving DecidableEq, Inhabited, Ord

/-- What a walk writes down. -/
abbrev Code := List Token

namespace Code

/-- Codes are compared token by token; an initial part comes first. -/
def order : Code → Code → Ordering
  | [], [] => .eq
  | [], _ :: _ => .lt
  | _ :: _, [] => .gt
  | a :: as, b :: bs => (compare a b).then (order as bs)

/-- Whether a code may stand before another. -/
def le (a b : Code) : Bool :=
  order a b != .gt

/-- The least of some codes. -/
def least : List Code → Code
  | [] => []
  | [code] => code
  | code :: rest =>
    let other := least rest
    if le code other then code else other

end Code

namespace Net

/-! ### Walks -/

/-- The place of a port in a boundary; the last one if it occurs more than once. -/
def boundaryIndex? (boundary : List PortId) (port : PortId) : Option Nat :=
  (boundary.reverse.idxOf? port).map fun i => boundary.length - 1 - i

/-- The number of an agent among those numbered so far; a new agent gets the next one. -/
def number (numbered : List AgentId) (agent : AgentId) : Nat × List AgentId :=
  match numbered.idxOf? agent with
  | some n => (n, numbered)
  | none => (numbered.length, numbered ++ [agent])

/-- Write down some ports of an agent, numbering the agents at their other ends. -/
def walkPorts (net : Net) (boundary : List PortId) :
    List PortId → List AgentId → Code × List AgentId
  | [], numbered => ([], numbered)
  | port :: rest, numbered =>
    match net.peerPort? port with
    | some peer =>
      let (n, numbered) := number numbered peer.agent
      let (code, numbered) := net.walkPorts boundary rest numbered
      (.peer n peer.position :: code, numbered)
    | none =>
      let token := ((boundaryIndex? boundary port).map Token.free).getD .hidden
      let (code, numbered) := net.walkPorts boundary rest numbered
      (token :: code, numbered)

/-- Go through the numbered agents from a number on, at most as many as the first argument says,
and write each down with its ports. -/
def walkFrom (net : Net) (boundary : List PortId) : Nat → Nat → List AgentId → Code × List AgentId
  | 0, _, numbered => ([], numbered)
  | fuel + 1, next, numbered =>
    match numbered[next]? with
    | none => ([], numbered)
    | some agent =>
      match net.agent? agent with
      | none => net.walkFrom boundary fuel (next + 1) numbered
      | some data =>
        let (ports, numbered) := net.walkPorts boundary data.ports numbered
        let (code, numbered) := net.walkFrom boundary fuel (next + 1) numbered
        (.agent data.symbol.name data.ports.length :: ports ++ code, numbered)

/-- Walk through all that can be reached from the numbered agents. No agent is numbered twice, so
there are no more steps than agents. -/
def walk (net : Net) (boundary : List PortId) (numbered : List AgentId) : Code × List AgentId :=
  net.walkFrom boundary net.agents.size 0 numbered

/-- Number the agents of a boundary, in its order. -/
def walkBoundary (net : Net) : List PortId → List AgentId → Code × List AgentId
  | [], numbered => ([], numbered)
  | port :: rest, numbered =>
    match net.port? port with
    | none =>
      let (code, numbered) := net.walkBoundary rest numbered
      (.hidden :: code, numbered)
    | some data =>
      let (n, numbered) := number numbered data.agent
      let (code, numbered) := net.walkBoundary rest numbered
      (.boundary n data.position :: code, numbered)

/-- The code of the component of some agents: the least of those that start at one of them. -/
def componentCode (net : Net) (boundary : List PortId) (component : List AgentId) : Code :=
  Code.least (component.map fun start => (net.walk boundary [start]).1)

/-- The codes of the components of some agents, without the agents that were seen. -/
def closedCodes (net : Net) (boundary : List PortId) : List AgentId → List AgentId → List Code
  | [], _ => []
  | agent :: rest, seen =>
    if seen.contains agent then net.closedCodes boundary rest seen
    else
      let component := (net.walk boundary [agent]).2
      net.componentCode boundary component ::
        net.closedCodes boundary rest (component ++ seen)

end Net

/-! ### Shapes -/

/-- The code of what can be reached from the boundary, and the sorted codes of the components that
cannot. -/
structure Shape where
  anchored : Code
  closed : List Code
deriving DecidableEq, Inhabited

namespace Shape

/-- The shape of a net as if the given ports were its interface. -/
def withBoundary (net : Net) (boundary : List PortId) : Shape :=
  let (entries, numbered) := net.walkBoundary boundary []
  let (code, numbered) := net.walk boundary numbered
  let agents := net.agentList.map Agent.id
  { anchored := entries ++ code
    closed := (net.closedCodes boundary agents numbered).mergeSort Code.le }

/-- The shape of a net. -/
def of (net : Net) : Shape :=
  withBoundary net net.interface

/-- The number of components that are not connected to the interface. -/
def closedComponents (s : Shape) : Nat :=
  s.closed.length

end Shape

namespace Token

/-- A token is written as its kind with its fields in parentheses. -/
def text : Token → String
  | boundary n position => "Boundary(" ++ toString n ++ ", " ++ toString position ++ ")"
  | agent name ports => "Agent(\"" ++ name ++ "\", " ++ toString ports ++ ")"
  | peer n position => "Peer(" ++ toString n ++ ", " ++ toString position ++ ")"
  | free index => "Free(" ++ toString index ++ ")"
  | hidden => "Hidden"

end Token

/-- A code is written as the list of its tokens in brackets. -/
def Code.text (code : Code) : String :=
  "[" ++ ", ".intercalate (code.map Token.text) ++ "]"

/-- A shape is written as its two fields in braces. -/
def Shape.text (s : Shape) : String :=
  "Shape \x7b anchored: " ++ s.anchored.text ++ ", closed: [" ++
    ", ".intercalate (s.closed.map Code.text) ++ "] \x7d"

/-- Whether two nets are the same up to the choice of ids. -/
def Net.isomorphic (a b : Net) : Bool :=
  a.agents.size == b.agents.size && a.connections.size == b.connections.size &&
    Shape.of a == Shape.of b

end InteractionNets
