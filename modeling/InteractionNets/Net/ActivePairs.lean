import InteractionNets.Net.Basic

/-!
# The active pairs of a net

A connection between two principal ports makes its agents an active pair. The pairs of a net are
listed in the order of their connections. A net without active pairs is in normal form.
-/

namespace InteractionNets

namespace Net

/-- The active pair that a connection makes, if both its ends are principal ports. The agent and
the port at each end are recorded in the order of the ends. -/
def activePairOf? (net : Net) (connection : Connection) : Option ActivePair :=
  if net.isPrincipal connection.ports.1 && net.isPrincipal connection.ports.2 then
    match net.agent? connection.agents.1, net.agent? connection.agents.2 with
    | some agent₁, some agent₂ =>
      some {
        connection := connection.id
        agent₁ := connection.agents.1
        agent₂ := connection.agents.2
        port₁ := connection.ports.1
        port₂ := connection.ports.2
        symbol₁ := agent₁.symbol
        symbol₂ := agent₂.symbol }
    | _, _ => none
  else none

/-- The active pairs of a net, in the order of their connections. -/
def activePairs (net : Net) : List ActivePair :=
  net.connectionList.filterMap net.activePairOf?

/-- A net is in **normal form** when it has no active pair. -/
def isNormal (net : Net) : Bool :=
  net.activePairs.isEmpty

theorem mem_activePairs_iff {net : Net} {pair : ActivePair} :
    pair ∈ net.activePairs ↔ ∃ c ∈ net.connectionList, net.activePairOf? c = some pair :=
  List.mem_filterMap

theorem isNormal_iff {net : Net} : net.isNormal ↔ ∀ pair, pair ∉ net.activePairs := by
  rw [isNormal, List.isEmpty_iff, List.eq_nil_iff_forall_not_mem]

end Net

end InteractionNets
