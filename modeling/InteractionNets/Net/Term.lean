import InteractionNets.Net.ActivePairs
import InteractionNets.Text.Letters

/-!
# Nets as terms

A net is written as a list of equations between trees. An agent stands in front of what is seen
through its auxiliary ports: the tree of the agent at the other end, when that end is a principal
port and its agent is not written yet; a place on the interface; a hidden end; and otherwise a
variable, which stands for the connection and is written again at its other end. An active pair is
an equation between its two agents.
-/

namespace InteractionNets

/-- What is seen looking along a port. -/
inductive Term where
  /-- An agent with what is seen through its auxiliary ports. -/
  | agent (name : String) (args : List Term)
  /-- A connection that is written at both its ends, by the number of its name. -/
  | variable (number : Nat)
  /-- A place on the interface. -/
  | free (index : Nat)
  /-- A hidden end. -/
  | hidden
  /-- An agent that does not exist. -/
  | missing
deriving Inhabited

/-- A line of the written form. -/
inductive Equation where
  /-- An active pair. -/
  | pair (left right : Term)
  /-- A tree with what its root is connected to. -/
  | root (label tree : Term)
  /-- A tree whose root has no port. -/
  | lone (tree : Term)
deriving Inhabited

/-- What is written so far: the agents, and the connections that have a name, in the order of
their names. -/
structure Written where
  agents : List AgentId
  names : List ConnectionId
deriving Inhabited

namespace Written

/-- Nothing. -/
def nothing : Written :=
  ⟨[], []⟩

/-- One more agent. -/
def agent (w : Written) (agent : AgentId) : Written :=
  { w with agents := agent :: w.agents }

/-- The number of a connection's name; a connection without name gets the next one. -/
def name (w : Written) (connection : ConnectionId) : Nat × Written :=
  match w.names.idxOf? connection with
  | some n => (n, w)
  | none => (w.names.length, { w with names := w.names ++ [connection] })

end Written

namespace Net

/-- The term of a port that is not connected. -/
def freeTerm (net : Net) (port : PortId) : Term :=
  match net.interface.idxOf? port with
  | some index => .free index
  | none => .hidden

/-- The term that is seen looking out of a port, when `descend` writes the agent at the other
end. -/
def lookOut (net : Net) (descend : AgentId → Written → Term × Written) (port : PortId)
    (w : Written) : Term × Written :=
  match net.peerPort? port with
  | none => (net.freeTerm port, w)
  | some peer =>
    if peer.principal && !w.agents.contains peer.agent then
      descend peer.agent (w.agent peer.agent)
    else
      match net.linkOf? port with
      | some connection =>
        let (number, w) := w.name connection
        (.variable number, w)
      | none => (.hidden, w)

/-- The terms that are seen looking out of some ports, from left to right. -/
def lookOutAll (look : PortId → Written → Term × Written) :
    List PortId → Written → List Term × Written
  | [], w => ([], w)
  | port :: rest, w =>
    let (term, w) := look port w
    let (terms, w) := lookOutAll look rest w
    (term :: terms, w)

/-- The term of an agent. Trees stand inside each other at most as deep as the first argument
says; since no agent is written twice, the number of agents is enough. -/
def agentTerm (net : Net) : Nat → AgentId → Written → Term × Written
  | 0, _, w => (.missing, w)
  | fuel + 1, agent, w =>
    match net.agent? agent with
    | none => (.missing, w)
    | some data =>
      let (args, w) := lookOutAll (net.lookOut (net.agentTerm fuel)) data.auxiliary w
      (.agent data.symbol.name args, w)

/-- The tree of an agent that is not written yet. -/
def tree (net : Net) (depth : Nat) (agent : AgentId) (w : Written) : Term × Written :=
  net.agentTerm depth agent (w.agent agent)

/-- The equations of some active pairs. -/
def pairEquations (net : Net) (depth : Nat) : List ActivePair → Written → List Equation × Written
  | [], w => ([], w)
  | pair :: rest, w =>
    let w := (w.agent pair.agent₁).agent pair.agent₂
    let (left, w) := net.agentTerm depth pair.agent₁ w
    let (right, w) := net.agentTerm depth pair.agent₂ w
    let (equations, w) := net.pairEquations depth rest w
    (.pair left right :: equations, w)

/-- The equations of those of some agents that are not written yet and whose principal port is
missing or unconnected. -/
def rootEquations (net : Net) (depth : Nat) : List Agent → Written → List Equation × Written
  | [], w => ([], w)
  | agent :: rest, w =>
    if w.agents.contains agent.id then net.rootEquations depth rest w
    else
      match agent.principal? with
      | none =>
        let (tree, w) := net.tree depth agent.id w
        let (equations, w) := net.rootEquations depth rest w
        (.lone tree :: equations, w)
      | some port =>
        if (net.peer? port).isSome then net.rootEquations depth rest w
        else
          let (tree, w) := net.tree depth agent.id w
          let (equations, w) := net.rootEquations depth rest w
          (.root (net.freeTerm port) tree :: equations, w)

/-- The equations of those of some agents that are not written yet: these hang off cycles. -/
def cycleEquations (net : Net) (depth : Nat) : List Agent → Written → List Equation × Written
  | [], w => ([], w)
  | agent :: rest, w =>
    if w.agents.contains agent.id then net.cycleEquations depth rest w
    else
      let (label, w) :=
        match agent.principal? with
        | some port => net.lookOut (net.agentTerm depth) port w
        | none => (.hidden, w)
      let (tree, w) := net.tree depth agent.id w
      let (equations, w) := net.cycleEquations depth rest w
      (.root label tree :: equations, w)

/-- The equations of a net: its active pairs, then the trees with a free root, then what hangs off
cycles. Trees are written down to some depth. -/
def equationsWithin (net : Net) (depth : Nat) : List Equation :=
  let (pairs, w) := net.pairEquations depth net.activePairs .nothing
  let (roots, w) := net.rootEquations depth net.agentList w
  let (cycles, _) := net.cycleEquations depth net.agentList w
  pairs ++ roots ++ cycles

/-- The equations of a net, with all its trees. -/
def equations (net : Net) : List Equation :=
  net.equationsWithin net.agents.size

end Net

/-! ### Writing terms -/

mutual

/-- A term as text: an agent's arguments in parentheses, a variable as a word, a place on the
interface by its number, and a hidden end as a low line. -/
def Term.text : Term → String
  | .agent name [] => name
  | .agent name (arg :: args) =>
    name ++ "(" ++ ", ".intercalate (Term.text arg :: Term.textAll args) ++ ")"
  | .variable number => Letters.ofNat number
  | .free index => "#" ++ toString index
  | .hidden => "_"
  | .missing => "<missing>"

/-- Some terms as texts. -/
def Term.textAll : List Term → List String
  | [] => []
  | term :: rest => Term.text term :: Term.textAll rest

end

/-- An equation as text. -/
def Equation.text : Equation → String
  | .pair left right => left.text ++ " ~ " ++ right.text
  | .root label tree => label.text ++ " = " ++ tree.text
  | .lone tree => tree.text

/-- A net as text, one equation a line, each after four blanks for every level of indentation. -/
def Net.text (net : Net) (indent : Nat) : String :=
  let margin := String.ofList (List.replicate (4 * indent) ' ')
  String.join (net.equations.map fun equation => margin ++ equation.text ++ "\n")

end InteractionNets
