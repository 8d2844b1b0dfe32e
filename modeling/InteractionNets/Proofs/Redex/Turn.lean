import InteractionNets.Proofs.Net.Isomorphic
import InteractionNets.Proofs.Redex.Exchange

/-!
# Connections read from the other end

A connection records its two ends in an order, and so does an active pair. `Net.turn` exchanges the
ends of one connection of a net. The net stays well-formed, and agents, joined ports and the
interface are as they were; an active pair that the connection makes is recorded from the other end
(`Net.turn_mem_activePairs`). So the diagram does not change at all (`Net.diagram_turn`).
-/

namespace InteractionNets

/-- The connection with its ends in the other order. -/
def Connection.turn (c : Connection) : Connection :=
  ⟨c.id, c.ports.swap, c.agents.swap, c.restore.swap⟩

theorem Connection.hasEnd_turn_iff {c : Connection} {p : PortId} {a : AgentId} :
    c.turn.HasEnd p a ↔ c.HasEnd p a :=
  or_comm

/-- The record of an active pair from the other end. -/
def ActivePair.turn (pair : ActivePair) : ActivePair :=
  ⟨pair.connection, pair.agent₂, pair.agent₁, pair.port₂, pair.port₁, pair.symbol₂, pair.symbol₁⟩

theorem ActivePair.ends_turn (pair : ActivePair) : pair.turn.ends = pair.ends ∘ Side.flip := by
  funext side
  cases side <;> rfl

namespace Net

/-- The net with the ends of a connection in the other order. -/
def turn (net : Net) (c : ConnectionId) : Net :=
  { net with connections := net.connections.modify c Connection.turn }

variable {net : Net} {c : ConnectionId}

@[simp] theorem agent?_turn (a : AgentId) : (net.turn c).agent? a = net.agent? a := rfl

@[simp] theorem port?_turn (p : PortId) : (net.turn c).port? p = net.port? p := rfl

@[simp] theorem portsOf_turn (a : AgentId) : (net.turn c).portsOf a = net.portsOf a := rfl

@[simp] theorem interface_turn : (net.turn c).interface = net.interface := rfl

theorem connection?_turn (d : ConnectionId) : (net.turn c).connection? d =
    if c = d then (net.connection? d).map Connection.turn else net.connection? d :=
  net.connections.get?_modify c d Connection.turn

/-- The ends of a connection are the same ports of the same agents, in one order or the other. -/
theorem connection?_of_turn {d : ConnectionId} {data : Connection}
    (hdata : (net.turn c).connection? d = some data) :
    net.connection? d = some data ∨ ∃ old, net.connection? d = some old ∧ data = old.turn := by
  rw [connection?_turn] at hdata
  split at hdata
  · obtain ⟨old, hold, rfl⟩ := Option.map_eq_some_iff.1 hdata
    exact .inr ⟨old, hold, rfl⟩
  · exact .inl hdata

theorem exists_connection?_turn {d : ConnectionId} {data : Connection}
    (hdata : net.connection? d = some data) :
    ∃ new, (net.turn c).connection? d = some new ∧ (new = data ∨ new = data.turn) := by
  rw [connection?_turn, hdata]
  split
  · exact ⟨data.turn, rfl, .inr rfl⟩
  · exact ⟨data, rfl, .inl rfl⟩

theorem joined_turn_iff {p q : PortId} : (net.turn c).Joined p q ↔ net.Joined p q := by
  constructor
  · rintro ⟨d, data, hdata, hends⟩
    rcases connection?_of_turn hdata with hold | ⟨old, hold, rfl⟩
    · exact ⟨d, data, hold, hends⟩
    · refine ⟨d, old, hold, ?_⟩
      simpa [Connection.turn, Prod.swap_eq_iff_eq_swap, or_comm] using hends
  · rintro ⟨d, data, hdata, hends⟩
    obtain ⟨new, hnew, rfl | rfl⟩ := exists_connection?_turn (c := c) hdata
    · exact ⟨d, new, hnew, hends⟩
    · refine ⟨d, data.turn, hnew, ?_⟩
      simpa [Connection.turn, Prod.swap_eq_iff_eq_swap, or_comm] using hends

protected theorem WellFormed.turn (h : net.WellFormed) (c : ConnectionId) :
    (net.turn c).WellFormed where
  agent_id := h.agent_id
  port_id := h.port_id
  connection_id hdata := by
    rcases connection?_of_turn hdata with hold | ⟨old, hold, rfl⟩
    · exact h.connection_id hold
    · have hid := h.connection_id hold
      exact hid
  arity := h.arity
  port_of_agent := h.port_of_agent
  agent_of_port := h.agent_of_port
  ends_ne hdata := by
    rcases connection?_of_turn hdata with hold | ⟨old, hold, rfl⟩
    · exact h.ends_ne hold
    · exact (h.ends_ne hold).symm
  port_of_end hdata hend := by
    rcases connection?_of_turn hdata with hold | ⟨old, hold, rfl⟩
    · exact h.port_of_end hold hend
    · exact h.port_of_end hold (Connection.hasEnd_turn_iff.1 hend)
  end_of_link hport hlink := by
    obtain ⟨data, hdata, hend⟩ := h.end_of_link hport hlink
    obtain ⟨new, hnew, rfl | rfl⟩ := exists_connection?_turn (c := c) hdata
    · exact ⟨new, hnew, hend⟩
    · exact ⟨data.turn, hnew, Connection.hasEnd_turn_iff.2 hend⟩
  interface_nodup := h.interface_nodup
  port_of_interface := h.port_of_interface

/-- Diagrams do not show in which order connections record their ends. -/
theorem diagram_turn (labels : List (PortId × Nat)) :
    (net.turn c).diagram labels = net.diagram labels := by
  refine Diagram.ext rfl (funext fun x => funext fun y => propext ⟨fun hxy => ?_, fun hxy => ?_⟩)
  · rcases hxy with ⟨hp, hq, hpq⟩ | ⟨hi, hp⟩ | ⟨hi, hp⟩ | ⟨hij, hji⟩
    · exact .joined hp hq (joined_turn_iff.1 hpq)
    · exact .exposed hi hp
    · exact .exposed' hi hp
    · exact .wired hij hji
  · rcases hxy with ⟨hp, hq, hpq⟩ | ⟨hi, hp⟩ | ⟨hi, hp⟩ | ⟨hij, hji⟩
    · exact .joined hp hq (joined_turn_iff.2 hpq)
    · exact .exposed hi hp
    · exact .exposed' hi hp
    · exact .wired hij hji

/-- The pair that a connection makes is recorded from the other end when the connection is
turned. -/
theorem turn_mem_activePairs (h : net.WellFormed) {pair : ActivePair}
    (hpair : pair ∈ net.activePairs) : pair.turn ∈ (net.turn pair.connection).activePairs := by
  obtain ⟨data, agent₁, agent₂, hdata, hports, -, h₁, h₂, -, -, hsymbol₁, hsymbol₂⟩ :=
    Surroundings.activePair_spec h hpair
  obtain ⟨hport₁, hport₂⟩ := principal_of_mem_activePairs h hpair
  have hturned : (net.turn pair.connection).connection? pair.turn.connection = some data.turn := by
    rw [connection?_turn, ActivePair.turn, if_pos rfl, hdata]
    rfl
  have hends : data.turn.ports = (pair.turn.port₁, pair.turn.port₂) := by
    rw [Connection.turn, hports]
    rfl
  exact Surroundings.mem_activePairs_of_principal (h.turn _) hturned hends h₂ h₁ hport₂ hport₁
    hsymbol₂ hsymbol₁

end Net

end InteractionNets
