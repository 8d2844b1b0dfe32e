import InteractionNets.Net.Violation
import InteractionNets.Proofs.Net.Lookup

/-!
# Well-formed nets

A net refers to everything by id, so its four parts have to agree with each other. `Net.WellFormed`
says how: agents and ports list each other, ports and connections list each other, the interface
lists unconnected ports once, and everything is stored under its own id. The record of a port in a
well-formed net is determined by the agents and the connections, so an operation on well-formed
nets is described by what it does to these and to the interface. A well-formed net has no
violations.

Two ports are **joined** when a connection lists them; in a well-formed net that is what
`Net.peer?` finds, and every port is joined to one port at most.
-/

namespace InteractionNets

/-- A port and the agent that is recorded with it at one of the ends of a connection. -/
def Connection.HasEnd (c : Connection) (p : PortId) (a : AgentId) : Prop :=
  (p = c.ports.1 ∧ a = c.agents.1) ∨ (p = c.ports.2 ∧ a = c.agents.2)

namespace Net

/-- The parts of a net agree with each other. -/
structure WellFormed (net : Net) : Prop where
  /-- An agent is stored under its id. -/
  agent_id : ∀ {a data}, net.agent? a = some data → data.id = a
  /-- A port is stored under its id. -/
  port_id : ∀ {p port}, net.port? p = some port → port.id = p
  /-- A connection is stored under its id. -/
  connection_id : ∀ {c data}, net.connection? c = some data → data.id = c
  /-- An agent has as many ports as its symbol says. -/
  arity : ∀ {a data}, net.agent? a = some data → data.ports.length = data.symbol.arity
  /-- The ports that an agent lists are live; they name the agent and their places on it, and the
  first one is the principal port. -/
  port_of_agent : ∀ {a p} {k : Nat}, (net.portsOf a)[k]? = some p →
    ∃ port, net.port? p = some port ∧ port.agent = a ∧ port.position = k ∧
      (port.principal = true ↔ k = 0)
  /-- A port is listed by the agent it names, at the position it names. -/
  agent_of_port : ∀ {p port}, net.port? p = some port →
    (net.portsOf port.agent)[port.position]? = some p
  /-- A connection joins two different ports. -/
  ends_ne : ∀ {c data}, net.connection? c = some data → data.ports.1 ≠ data.ports.2
  /-- The ends of a connection are live, name the connection, and belong to the recorded
  agents. -/
  port_of_end : ∀ {c data p a}, net.connection? c = some data → data.HasEnd p a →
    ∃ port, net.port? p = some port ∧ port.link = some c ∧ port.agent = a
  /-- A connection that a port names is live and has the port as an end. -/
  end_of_link : ∀ {p port c}, net.port? p = some port → port.link = some c →
    ∃ data, net.connection? c = some data ∧ data.HasEnd p port.agent
  /-- The interface lists no port twice. -/
  interface_nodup : net.interface.Nodup
  /-- The ports on the interface are live and unconnected. -/
  port_of_interface : ∀ {p}, p ∈ net.interface → ∃ port, net.port? p = some port ∧ port.link = none

theorem portsOf_eq {net : Net} {a : AgentId} {data : Agent} (h : net.agent? a = some data) :
    net.portsOf a = data.ports := by
  simp [portsOf, h]

theorem getElem?_portsOf_zero {net : Net} {a : AgentId} {data : Agent}
    (h : net.agent? a = some data) : (net.portsOf a)[0]? = data.principal? := by
  rw [portsOf_eq h, ← List.head?_eq_getElem?]
  rfl

theorem portsOf_eq_nil {net : Net} {a : AgentId} (h : net.agent? a = none) :
    net.portsOf a = [] := by
  simp [portsOf, h]

theorem isSome_agent?_of_getElem? {net : Net} {a : AgentId} {k : Nat} {p : PortId}
    (hk : (net.portsOf a)[k]? = some p) : (net.agent? a).isSome := by
  cases ha : net.agent? a with
  | none => simp [portsOf_eq_nil ha] at hk
  | some data => rfl

/-- An agent that is there has another id than one that is not. -/
theorem agent_ne_of_eq_none {net : Net} {a b : AgentId} (ha : (net.agent? a).isSome)
    (hb : net.agent? b = none) : a ≠ b := by
  rintro rfl
  rw [hb] at ha
  cases ha

/-! ### Joined ports -/

/-- Two ports are joined when a connection lists them as its ends. -/
def Joined (net : Net) (p q : PortId) : Prop :=
  ∃ c data, net.connection? c = some data ∧ (data.ports = (p, q) ∨ data.ports = (q, p))

theorem Joined.symm {net : Net} {p q : PortId} (h : net.Joined p q) : net.Joined q p := by
  obtain ⟨c, data, hc, hends⟩ := h
  exact ⟨c, data, hc, hends.symm⟩

theorem joined_comm {net : Net} {p q : PortId} : net.Joined p q ↔ net.Joined q p :=
  ⟨Joined.symm, Joined.symm⟩

/-- A port is **free** when it is live and takes part in no connection. -/
def IsFree (net : Net) (p : PortId) : Prop :=
  ∃ port, net.port? p = some port ∧ port.link = none

namespace WellFormed

variable {net : Net} (h : net.WellFormed)

include h

/-- The ports of an agent are different from each other. -/
theorem nodup_portsOf (a : AgentId) : (net.portsOf a).Nodup := by
  rw [List.nodup_iff_injective_getElem]
  intro i j hij
  obtain ⟨port, hport, -, hi, -⟩ := h.port_of_agent (List.getElem?_eq_getElem i.2)
  obtain ⟨port', hport', -, hj, -⟩ := h.port_of_agent (List.getElem?_eq_getElem j.2)
  have heq : (net.portsOf a)[i.1] = (net.portsOf a)[j.1] := hij
  rw [heq, hport'] at hport
  obtain rfl := Option.some.inj hport
  exact Fin.ext (hi.symm.trans hj)

/-- A port belongs to one agent, at one position. -/
theorem port_unique {a b : AgentId} {i j : Nat} {p : PortId} (hi : (net.portsOf a)[i]? = some p)
    (hj : (net.portsOf b)[j]? = some p) : a = b ∧ i = j := by
  obtain ⟨port, hport, rfl, rfl, -⟩ := h.port_of_agent hi
  obtain ⟨port', hport', rfl, rfl, -⟩ := h.port_of_agent hj
  rw [hport] at hport'
  obtain rfl := Option.some.inj hport'
  exact ⟨rfl, rfl⟩

/-- A port belongs to one agent. -/
theorem agent_unique {a b : AgentId} {p : PortId} (ha : p ∈ net.portsOf a)
    (hb : p ∈ net.portsOf b) : a = b := by
  obtain ⟨i, hi⟩ := List.mem_iff_getElem?.1 ha
  obtain ⟨j, hj⟩ := List.mem_iff_getElem?.1 hb
  exact (h.port_unique hi hj).1

/-- The record of a port of an agent. -/
theorem port?_eq {a : AgentId} {k : Nat} {p : PortId} (hk : (net.portsOf a)[k]? = some p) :
    net.port? p = some ⟨p, a, k, k == 0, net.linkOf? p⟩ := by
  obtain ⟨port, hport, hagent, hposition, hprincipal⟩ := h.port_of_agent hk
  have hid := h.port_id hport
  have hlink : net.linkOf? p = port.link := by simp [linkOf?, hport]
  have hbool : port.principal = (k == 0) := by
    rw [Bool.eq_iff_iff, hprincipal, beq_iff_eq]
  rw [hport, hlink, ← hbool, ← hid, ← hagent, ← hposition]

/-- The first port of an agent is its principal port. -/
theorem isPrincipal_eq {a : AgentId} {k : Nat} {p : PortId} (hk : (net.portsOf a)[k]? = some p) :
    net.isPrincipal p = (k == 0) := by
  rw [isPrincipal, h.port?_eq hk]
  rfl

/-- The live ports are those of the agents. -/
theorem port?_isSome_iff {p : PortId} :
    (net.port? p).isSome ↔ ∃ (a : AgentId) (k : Nat), (net.portsOf a)[k]? = some p := by
  constructor
  · intro hp
    obtain ⟨port, hport⟩ := Option.isSome_iff_exists.1 hp
    exact ⟨_, _, h.agent_of_port hport⟩
  · rintro ⟨a, k, hk⟩
    rw [h.port?_eq hk]
    rfl

/-- A port that a connection lists is live and names the connection. -/
theorem port_of_listed {c : ConnectionId} {data : Connection} {p : PortId}
    (hc : net.connection? c = some data) (hp : p = data.ports.1 ∨ p = data.ports.2) :
    ∃ port, net.port? p = some port ∧ port.link = some c := by
  rcases hp with rfl | rfl
  · obtain ⟨port, hport, hlink, -⟩ := h.port_of_end hc (.inl ⟨rfl, rfl⟩)
    exact ⟨port, hport, hlink⟩
  · obtain ⟨port, hport, hlink, -⟩ := h.port_of_end hc (.inr ⟨rfl, rfl⟩)
    exact ⟨port, hport, hlink⟩

/-- A port names a connection exactly when the connection lists the port. -/
theorem linkOf?_eq_some_iff {p : PortId} {c : ConnectionId} :
    net.linkOf? p = some c ↔
      ∃ data, net.connection? c = some data ∧ (p = data.ports.1 ∨ p = data.ports.2) := by
  constructor
  · intro hlink
    obtain ⟨port, hport, hlink⟩ := Option.bind_eq_some_iff.1 hlink
    obtain ⟨data, hdata, hend⟩ := h.end_of_link hport hlink
    exact ⟨data, hdata, hend.imp And.left And.left⟩
  · rintro ⟨data, hdata, hp⟩
    obtain ⟨port, hport, hlink⟩ := h.port_of_listed hdata hp
    simp [linkOf?, hport, hlink]

/-- A port is an end of one connection at most. -/
theorem connection_unique {p : PortId} {c d : ConnectionId} {data data' : Connection}
    (hc : net.connection? c = some data) (hp : p = data.ports.1 ∨ p = data.ports.2)
    (hd : net.connection? d = some data') (hp' : p = data'.ports.1 ∨ p = data'.ports.2) :
    c = d ∧ data = data' := by
  have hcd : some c = some d :=
    (h.linkOf?_eq_some_iff.2 ⟨data, hc, hp⟩).symm.trans (h.linkOf?_eq_some_iff.2 ⟨data', hd, hp'⟩)
  obtain rfl := Option.some.inj hcd
  exact ⟨rfl, Option.some.inj (hc.symm.trans hd)⟩

theorem joined_ne {p q : PortId} (hpq : net.Joined p q) : p ≠ q := by
  obtain ⟨c, data, hc, hends | hends⟩ := hpq
  · have := h.ends_ne hc
    simpa [hends] using this
  · have := h.ends_ne hc
    simpa [hends] using this.symm

/-- A port is joined to one port at most. -/
theorem joined_unique {p q r : PortId} (hq : net.Joined p q) (hr : net.Joined p r) : q = r := by
  have hne := h.joined_ne hq
  obtain ⟨c, data, hc, hq⟩ := hq
  obtain ⟨d, data', hd, hr⟩ := hr
  have hp : p = data.ports.1 ∨ p = data.ports.2 := hq.imp (by simp [·]) (by simp [·])
  have hp' : p = data'.ports.1 ∨ p = data'.ports.2 := hr.imp (by simp [·]) (by simp [·])
  obtain ⟨-, rfl⟩ := h.connection_unique hc hp hd hp'
  rcases hq with hq | hq <;> rcases hr with hr | hr <;> simp_all

/-- The peer of a port is the port it is joined to. -/
theorem peer?_eq_some_iff {p q : PortId} : net.peer? p = some q ↔ net.Joined p q := by
  simp only [peer?, Option.bind_eq_some_iff, Connection.other?_eq_some_iff,
    h.linkOf?_eq_some_iff]
  constructor
  · rintro ⟨data, ⟨c, -, hc⟩, hends⟩
    exact ⟨c, data, hc, hends.imp id And.right⟩
  · rintro ⟨c, data, hc, hends⟩
    have hne := h.ends_ne hc
    refine ⟨data, ⟨c, ⟨data, hc, ?_⟩, hc⟩, ?_⟩
    · exact hends.imp (by simp [·]) (by simp [·])
    · refine hends.imp id fun hqp => ⟨?_, hqp⟩
      simpa [hqp] using hne

theorem port_of_joined {p q : PortId} (hpq : net.Joined p q) :
    ∃ port, net.port? p = some port ∧ port.link.isSome := by
  obtain ⟨c, data, hc, hends⟩ := hpq
  have hp : p = data.ports.1 ∨ p = data.ports.2 := hends.imp (by simp [·]) (by simp [·])
  have hlink := h.linkOf?_eq_some_iff.2 ⟨data, hc, hp⟩
  obtain ⟨port, hport, hlink⟩ := Option.bind_eq_some_iff.1 hlink
  exact ⟨port, hport, by simp [hlink]⟩

/-- Joined ports name one connection. -/
theorem linkOf?_eq_of_joined {p q : PortId} (hpq : net.Joined p q) :
    net.linkOf? p = net.linkOf? q := by
  obtain ⟨c, data, hc, hends⟩ := hpq
  have hp : p = data.ports.1 ∨ p = data.ports.2 := hends.imp (by simp [·]) (by simp [·])
  have hq : q = data.ports.1 ∨ q = data.ports.2 := hends.symm.imp (by simp [·]) (by simp [·])
  rw [h.linkOf?_eq_some_iff.2 ⟨data, hc, hp⟩, h.linkOf?_eq_some_iff.2 ⟨data, hc, hq⟩]

/-- Ports that name one connection are equal or joined. -/
theorem eq_or_joined_of_linkOf? {p q : PortId} {c : ConnectionId} (hp : net.linkOf? p = some c)
    (hq : net.linkOf? q = some c) : p = q ∨ net.Joined p q := by
  obtain ⟨data, hc, hp⟩ := h.linkOf?_eq_some_iff.1 hp
  obtain ⟨data', hc', hq⟩ := h.linkOf?_eq_some_iff.1 hq
  obtain rfl := Option.some.inj (hc.symm.trans hc')
  rcases hp with rfl | rfl <;> rcases hq with rfl | rfl
  · exact .inl rfl
  · exact .inr ⟨c, data, hc, .inl rfl⟩
  · exact .inr ⟨c, data, hc, .inr rfl⟩
  · exact .inl rfl

theorem isSome_of_joined {p q : PortId} (hpq : net.Joined p q) : (net.port? p).isSome := by
  obtain ⟨port, hport, -⟩ := h.port_of_joined hpq
  simp [hport]

/-- A live port is free exactly when it is joined to nothing. -/
theorem isFree_iff {p : PortId} :
    net.IsFree p ↔ (net.port? p).isSome ∧ ∀ q, ¬ net.Joined p q := by
  constructor
  · rintro ⟨port, hport, hlink⟩
    refine ⟨by simp [hport], fun q hpq => ?_⟩
    obtain ⟨port', hport', hlink'⟩ := h.port_of_joined hpq
    rw [hport] at hport'
    obtain rfl := Option.some.inj hport'
    simp [hlink] at hlink'
  · rintro ⟨hp, hnone⟩
    obtain ⟨port, hport⟩ := Option.isSome_iff_exists.1 hp
    refine ⟨port, hport, ?_⟩
    cases hlink : port.link with
    | none => rfl
    | some c =>
      obtain ⟨data, hdata, hend⟩ := h.end_of_link hport hlink
      rcases hend with ⟨rfl, -⟩ | ⟨rfl, -⟩
      · exact absurd ⟨c, data, hdata, .inl rfl⟩ (hnone data.ports.2)
      · exact absurd ⟨c, data, hdata, .inr rfl⟩ (hnone data.ports.1)

theorem isFree_of_mem_interface {p : PortId} (hp : p ∈ net.interface) : net.IsFree p :=
  h.port_of_interface hp

theorem isSome_of_mem_interface {p : PortId} (hp : p ∈ net.interface) : (net.port? p).isSome :=
  (h.isFree_iff.1 (h.isFree_of_mem_interface hp)).1

theorem not_mem_interface_of_joined {p q : PortId} (hpq : net.Joined p q) : p ∉ net.interface :=
  fun hp => (h.isFree_iff.1 (h.isFree_of_mem_interface hp)).2 q hpq

/-! ### No violations -/

theorem mem_agentList_iff {data : Agent} :
    data ∈ net.agentList ↔ net.agent? data.id = some data := by
  rw [agentList, Arena.mem_values_iff]
  constructor
  · rintro ⟨a, ha⟩
    rwa [h.agent_id ha]
  · intro ha
    exact ⟨_, ha⟩

/-- The agents are listed in the order of their ids, each once. -/
theorem map_id_agentList : net.agentList.map Agent.id = net.agents.entries.map Prod.fst := by
  rw [agentList, Arena.values_eq_map_entries, List.map_map]
  refine List.map_congr_left fun entry hentry => ?_
  exact h.agent_id (Arena.mem_entries_iff.1 hentry)

theorem nodup_map_id_agentList : (net.agentList.map Agent.id).Nodup := by
  rw [h.map_id_agentList]
  exact net.agents.nodup_entries

/-- The connections are listed in the order of their ids, each once. -/
theorem map_id_connectionList :
    net.connectionList.map Connection.id = net.connections.entries.map Prod.fst := by
  rw [connectionList, Arena.values_eq_map_entries, List.map_map]
  refine List.map_congr_left fun entry hentry => ?_
  exact h.connection_id (Arena.mem_entries_iff.1 hentry)

theorem nodup_map_id_connectionList : (net.connectionList.map Connection.id).Nodup := by
  rw [h.map_id_connectionList]
  exact net.connections.nodup_entries

theorem mem_portList_iff {port : Port} : port ∈ net.portList ↔ net.port? port.id = some port := by
  rw [portList, Arena.mem_values_iff]
  constructor
  · rintro ⟨p, hp⟩
    rwa [h.port_id hp]
  · intro hp
    exact ⟨_, hp⟩

theorem mem_connectionList_iff {data : Connection} :
    data ∈ net.connectionList ↔ net.connection? data.id = some data := by
  rw [connectionList, Arena.mem_values_iff]
  constructor
  · rintro ⟨c, hc⟩
    rwa [h.connection_id hc]
  · intro hc
    exact ⟨_, hc⟩

/-- The only principal port of an agent that has ports is its first one. -/
theorem principalPositions_eq {data : Agent} (ha : net.agent? data.id = some data) :
    net.principalPositions data = if data.symbol.arity = 0 then [] else [0] := by
  have hports := portsOf_eq ha
  rw [← h.arity ha]
  unfold principalPositions
  cases hlist : data.ports with
  | nil => simp
  | cons p rest =>
    have hhead := h.port?_eq (a := data.id) (k := 0) (p := p) (by simp [hports, hlist])
    have htail : rest.filterMap (fun port => (net.port? port).bind fun port =>
        if port.agent = data.id ∧ port.principal then some port.position else none) = [] := by
      rw [List.filterMap_eq_nil_iff]
      intro q hq
      obtain ⟨k, hk⟩ := List.mem_iff_getElem?.1 hq
      have hq := h.port?_eq (a := data.id) (k := k + 1) (p := q) (by simp [hports, hlist, hk])
      simp [hq]
    simp [hhead, htail]

theorem agentViolations_eq_nil {data : Agent} (ha : net.agent? data.id = some data) :
    net.agentViolations data = [] := by
  have howned : (data.ports.filter fun port => !net.ownsPort data.id port) = [] := by
    rw [List.filter_eq_nil_iff]
    intro p hp
    obtain ⟨k, hk⟩ := List.mem_iff_getElem?.1 hp
    have hport := h.port?_eq (a := data.id) (k := k) (by rwa [portsOf_eq ha])
    simp [ownsPort, hport]
  rw [agentViolations, if_pos (h.arity ha), howned, h.principalPositions_eq ha]
  split
  · rename_i harity
    simp [principalViolations, harity]
  · simp [principalViolations]

theorem portViolations_eq_nil {port : Port} (hp : net.port? port.id = some port) :
    net.portViolations port = [] := by
  unfold portViolations
  split
  · rfl
  · rename_i c hlink
    obtain ⟨data, hdata, hend⟩ := h.end_of_link hp hlink
    have hlisted : port.id = data.ports.1 ∨ port.id = data.ports.2 := hend.imp And.left And.left
    rcases hlisted with hlisted | hlisted <;> simp [hdata, hlisted]

theorem endViolations_eq_nil {data : Connection} {p : PortId} {a : AgentId}
    (hc : net.connection? data.id = some data) (hend : data.HasEnd p a) :
    net.endViolations data p a = [] := by
  obtain ⟨port, hport, hlink, hagent⟩ := h.port_of_end hc hend
  simp [endViolations, hport, hlink, hagent]

theorem interfaceViolations_eq_nil {p : PortId} (hp : p ∈ net.interface) :
    net.interfaceViolations p = [] := by
  obtain ⟨port, hport, hlink⟩ := h.port_of_interface hp
  simp [interfaceViolations, hport, Port.isConnected, hlink]

/-- A well-formed net breaks no law. -/
theorem violations_eq_nil : net.violations = [] := by
  simp only [violations, List.append_eq_nil_iff, List.flatMap_eq_nil_iff]
  refine ⟨⟨⟨fun data ha => ?_, fun port hp => ?_⟩, fun data hc => ?_⟩, fun p hp => ?_⟩
  · exact h.agentViolations_eq_nil (h.mem_agentList_iff.1 ha)
  · exact h.portViolations_eq_nil (h.mem_portList_iff.1 hp)
  · have hc := h.mem_connectionList_iff.1 hc
    rw [connectionViolations, h.endViolations_eq_nil hc (.inl ⟨rfl, rfl⟩),
      h.endViolations_eq_nil hc (.inr ⟨rfl, rfl⟩), List.append_nil]
  · exact h.interfaceViolations_eq_nil hp

end WellFormed

end Net

end InteractionNets
