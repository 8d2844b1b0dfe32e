import InteractionNets.Id
import InteractionNets.Symbol

/-!
# Active pairs

Two agents whose principal ports are connected to each other form an active pair, the place where
a rule can act. The record of one names everything that takes part; it may be kept while the net
changes, so what it says has to be checked against the net before it is acted on.
-/

namespace InteractionNets

/-- The record of an active pair: the connection, and at its two ends the agent, the agent's
principal port and the agent's symbol. -/
structure ActivePair where
  connection : ConnectionId
  agent₁ : AgentId
  agent₂ : AgentId
  port₁ : PortId
  port₂ : PortId
  symbol₁ : Symbol
  symbol₂ : Symbol
deriving DecidableEq, Inhabited

namespace ActivePair

/-- The two agents of a pair. -/
def agents (p : ActivePair) : List AgentId :=
  [p.agent₁, p.agent₂]

/-- Two pairs are **independent** when they share no agent. -/
def isIndependentOf (p q : ActivePair) : Bool :=
  p.agents.all fun agent => !q.agents.contains agent

/-- A pair is written as its two agents, each by its symbol's name and its id. -/
def text (p : ActivePair) : String :=
  p.symbol₁.name ++ idText p.agent₁ ++ " >< " ++ p.symbol₂.name ++ idText p.agent₂

end ActivePair

end InteractionNets
