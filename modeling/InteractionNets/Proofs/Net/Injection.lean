import InteractionNets.Proofs.Net.Removal
import InteractionNets.Proofs.Tally
import Mathlib.Data.Set.Function

/-!
# Injected nets

Injecting a net makes a faithful copy of it beside the host (`Net.WellFormed.isInjection_inject`).
The live agents, ports and connections of the net correspond one to one to those that the host
gained, whatever ids were vacant in the host, and every record of the copy is the record of the
original with the ids renamed (`Net.IsInjection`). Every record of the host stays as it is.

`Net.IsCopy` says where the agents went and which ports are joined. What is left to say is which
connections there are: linking pairs of ports one after another makes one new connection a pair
(`Net.exists_connection_linkAll`, `Net.connection_of_linkAll`).
-/

namespace InteractionNets

namespace Net

/-- The ids of the agents of a net. -/
def liveAgents (net : Net) : Set AgentId :=
  {a | (net.agent? a).isSome}

/-- The ids of the ports of a net. -/
def livePorts (net : Net) : Set PortId :=
  {p | (net.port? p).isSome}

/-- The ids of the connections of a net. -/
def liveConnections (net : Net) : Set ConnectionId :=
  {c | (net.connection? c).isSome}

/-- Every pair gets a connection under an id that was vacant. -/
theorem exists_connection_linkAll {pairs : List (PortId × PortId)} {pair : PortId × PortId}
    (hpair : pair ∈ pairs) (net : Net) :
    ∃ c agents, net.connection? c = none ∧
      (linkAll pairs net).connection? c =
        some ⟨c, pair, agents, (.unrecorded, .unrecorded)⟩ := by
  induction pairs generalizing net with
  | nil => cases hpair
  | cons first rest ih =>
    obtain ⟨a, b⟩ := first
    rcases List.mem_cons.1 hpair with rfl | hrest
    · refine ⟨net.nextConnection, (net.linkData a b).agents, net.connection?_nextConnection,
        connection?_linkAll_of_some rest ?_⟩
      rw [connection?_link, if_pos rfl]
      rfl
    · obtain ⟨c, agents, hvacant, hc⟩ := ih hrest (net.link a b).2
      refine ⟨c, agents, ?_, hc⟩
      rw [connection?_link] at hvacant
      split at hvacant
      · cases hvacant
      · exact hvacant

/-- Every connection was there before or is made for one of the pairs. -/
theorem connection_of_linkAll {pairs : List (PortId × PortId)} {net : Net} {c : ConnectionId}
    {data : Connection} (hc : (linkAll pairs net).connection? c = some data) :
    net.connection? c = some data ∨ data.ports ∈ pairs := by
  induction pairs generalizing net with
  | nil => exact .inl hc
  | cons first rest ih =>
    obtain ⟨a, b⟩ := first
    rcases ih hc with hmid | hmem
    · rw [connection?_link] at hmid
      split at hmid
      · obtain rfl := Option.some.inj hmid
        exact .inr List.mem_cons_self
      · exact .inl hmid
    · exact .inr (List.mem_cons_of_mem _ hmem)

/-! ### The ports that a map lists -/

namespace CopiesAgents

variable {other host after : Net} {copy : AgentId → AgentId} {port : PortId → PortId}
  (h : CopiesAgents other host after copy port)

include h

/-- The host gains the copies of the agents. -/
theorem bijOn_agents : Set.BijOn copy other.liveAgents (after.liveAgents \ host.liveAgents) := by
  refine ⟨fun a ha => ⟨?_, ?_⟩, fun a ha b hb => h.injective ha hb, ?_⟩
  · obtain ⟨data, hdata⟩ := Option.isSome_iff_exists.1 ha
    exact Option.isSome_iff_exists.2 ⟨_, h.agent_copy hdata⟩
  · intro hlive
    have hlive : (host.agent? (copy a)).isSome := hlive
    simp [h.fresh ha] at hlive
  · rintro x ⟨hafter, hhost⟩
    by_contra hnone
    refine hhost ?_
    show (host.agent? x).isSome
    rw [← h.agent_old fun a ha hx => hnone ⟨a, ha, hx.symm⟩]
    exact hafter

/-- The host gains the copies of the ports. -/
theorem bijOn_ports (hother : other.WellFormed) (hhost : host.WellFormed) :
    Set.BijOn port other.livePorts (after.livePorts \ host.livePorts) := by
  refine ⟨fun p hp => ⟨h.port_copy hother hp, ?_⟩, fun p hp q hq => h.port_injective hother hp hq,
    ?_⟩
  · intro hlive
    have hlive : (host.port? (port p)).isSome := hlive
    simp [h.port_fresh hother hhost hp] at hlive
  · rintro q ⟨hafter, hnew⟩
    obtain ⟨x, k, hk⟩ := h.wellFormed.port?_isSome_iff.1 hafter
    -- the agent of the port is not one of the host's
    have hx : x ∉ host.liveAgents := fun hx =>
      hnew (hhost.port?_isSome_iff.2 ⟨x, k, (h.portsOf_old hx).symm ▸ hk⟩)
    obtain ⟨a, ha, rfl⟩ := h.bijOn_agents.surjOn ⟨isSome_agent?_of_getElem? hk, hx⟩
    rw [h.portsOf_copy ha, List.getElem?_map, Option.map_eq_some_iff] at hk
    obtain ⟨p, hp, rfl⟩ := hk
    exact ⟨p, hother.port?_isSome_iff.2 ⟨a, k, hp⟩, rfl⟩

/-- The agent of a copied port is the copy of the port's agent. -/
theorem agent_of_port_copy (hother : other.WellFormed) {p : PortId} {data : Port}
    {data' : Port} (hp : other.port? p = some data) (hp' : after.port? (port p) = some data') :
    data'.agent = copy data.agent := by
  have hk := h.wellFormed.port?_eq (h.getElem?_portsOf_copy (hother.agent_of_port hp))
  rw [hp'] at hk
  exact congrArg Port.agent (Option.some.inj hk)

end CopiesAgents

namespace IsCopy

variable {other host after : Net} {copy : AgentId → AgentId} {port : PortId → PortId}
  (h : IsCopy other host after copy port) (hother : other.WellFormed) (hhost : host.WellFormed)

include h hother hhost

/-- The records of the host's ports do not change. -/
theorem port?_host {p : PortId} {data : Port} (hp : host.port? p = some data) :
    after.port? p = some data := by
  obtain ⟨a, k, hk⟩ := hhost.port?_isSome_iff.1 (Option.isSome_iff_exists.2 ⟨data, hp⟩)
  have hlink : after.linkOf? p = host.linkOf? p := by
    cases hc : host.linkOf? p with
    | none =>
      have hfree : host.IsFree p := ⟨data, hp, by simpa [linkOf?, hp] using hc⟩
      obtain ⟨data', hp', hnone⟩ := h.isFree_old hother hhost hfree
      simp [linkOf?, hp', hnone]
    | some c =>
      obtain ⟨link, hlink, hend⟩ := hhost.linkOf?_eq_some_iff.1 hc
      exact h.wellFormed.linkOf?_eq_some_iff.2 ⟨link, h.connection_old hlink, hend⟩
  have hk' := h.portsOf_old (isSome_agent?_of_getElem? hk) ▸ hk
  rw [h.wellFormed.port?_eq hk', hlink, ← hhost.port?_eq hk, hp]

end IsCopy

/-! ### Copies of connections -/

/-- A net `after` has the connections of a host and copies of the connections of another net:
`port` and `connection` name the copies of ports and connections. -/
structure CopiesConnections (other host after : Net) (port : PortId → PortId)
    (connection : ConnectionId → ConnectionId) : Prop where
  /-- The copies have ids that were vacant in the host. -/
  fresh : ∀ {c}, c ∈ other.liveConnections → host.connection? (connection c) = none
  /-- A copy joins the copies of the ends, in the same order. -/
  made : ∀ {c data}, other.connection? c = some data → ∃ agents,
    after.connection? (connection c) = some ⟨connection c,
      (port data.ports.1, port data.ports.2), agents, (.unrecorded, .unrecorded)⟩
  /-- Every other connection belongs to the host. -/
  gained : ∀ {d data}, after.connection? d = some data → host.connection? d = none →
    ∃ c origin, other.connection? c = some origin ∧
      data.ports = (port origin.ports.1, port origin.ports.2)

namespace CopiesConnections

variable {other host after : Net} {copy : AgentId → AgentId} {port : PortId → PortId}
  {connection : ConnectionId → ConnectionId}
  (hc : CopiesConnections other host after port connection)
  (h : IsCopy other host after copy port) (hother : other.WellFormed)

include hc h hother

/-- The host gains the copies of the connections: different connections have different ends. -/
theorem bijOn_connections : Set.BijOn connection other.liveConnections
    (after.liveConnections \ host.liveConnections) := by
  refine ⟨fun c hlive => ⟨?_, ?_⟩, fun c hlive d hlive' heq => ?_, ?_⟩
  · obtain ⟨data, hdata⟩ := Option.isSome_iff_exists.1 hlive
    obtain ⟨agents, hmade⟩ := hc.made hdata
    exact Option.isSome_iff_exists.2 ⟨_, hmade⟩
  · intro hhost
    have hhost : (host.connection? (connection c)).isSome := hhost
    simp [hc.fresh hlive] at hhost
  · obtain ⟨data, hdata⟩ := Option.isSome_iff_exists.1 hlive
    obtain ⟨data', hdata'⟩ := Option.isSome_iff_exists.1 hlive'
    obtain ⟨agents, hmade⟩ := hc.made hdata
    obtain ⟨agents', hmade'⟩ := hc.made hdata'
    rw [heq, hmade'] at hmade
    have hends : port data.ports.1 = port data'.ports.1 :=
      congrArg (fun c => c.ports.1) (Option.some.inj hmade).symm
    obtain ⟨_, hp, -⟩ := hother.port_of_listed hdata (.inl rfl)
    obtain ⟨_, hp', -⟩ := hother.port_of_listed hdata' (.inl rfl)
    have hsame := h.port_injective hother (by simp [hp]) (by simp [hp']) hends
    exact (hother.connection_unique hdata (.inl rfl) hdata' (.inl hsame)).1
  · rintro d ⟨hafter, hnew⟩
    obtain ⟨data, hdata⟩ := Option.isSome_iff_exists.1 hafter
    have hvacant : host.connection? d = none := Option.not_isSome_iff_eq_none.1 hnew
    obtain ⟨c, origin, horigin, hends⟩ := hc.gained hdata hvacant
    obtain ⟨agents, hmade⟩ := hc.made horigin
    refine ⟨c, Option.isSome_iff_exists.2 ⟨origin, horigin⟩, ?_⟩
    exact (h.wellFormed.connection_unique hmade (.inl rfl) hdata (.inl (by rw [hends]))).1

/-- The copies belong to the copies of the agents that are recorded with the ends. -/
theorem connection?_copy {c : ConnectionId} {data : Connection}
    (hdata : other.connection? c = some data) :
    after.connection? (connection c) = some ⟨connection c,
      (port data.ports.1, port data.ports.2), (copy data.agents.1, copy data.agents.2),
      (.unrecorded, .unrecorded)⟩ := by
  obtain ⟨⟨a, b⟩, hmade⟩ := hc.made hdata
  obtain ⟨p, hp, -, hpa⟩ := hother.port_of_end hdata (.inl ⟨rfl, rfl⟩)
  obtain ⟨q, hq, -, hqa⟩ := hother.port_of_end hdata (.inr ⟨rfl, rfl⟩)
  obtain ⟨p', hp', -, hpa'⟩ := h.wellFormed.port_of_end hmade (.inl ⟨rfl, rfl⟩)
  obtain ⟨q', hq', -, hqa'⟩ := h.wellFormed.port_of_end hmade (.inr ⟨rfl, rfl⟩)
  obtain rfl : copy data.agents.1 = a := by
    rw [← hpa]
    exact (h.agent_of_port_copy hother hp hp').symm.trans hpa'
  obtain rfl : copy data.agents.2 = b := by
    rw [← hqa]
    exact (h.agent_of_port_copy hother hq hq').symm.trans hqa'
  exact hmade

/-- The record of a copied port is the record of the port with the ids renamed. -/
theorem port?_copy (hhost : host.WellFormed) {p : PortId} {data : Port}
    (hp : other.port? p = some data) :
    after.port? (port p) = some ⟨port p, copy data.agent, data.position, data.principal,
      data.link.map connection⟩ := by
  obtain ⟨a, k, hk⟩ := hother.port?_isSome_iff.1 (Option.isSome_iff_exists.2 ⟨data, hp⟩)
  have hlink : after.linkOf? (port p) = (other.linkOf? p).map connection := by
    cases hl : other.linkOf? p with
    | none =>
      have hfree : other.IsFree p := ⟨data, hp, by simpa [linkOf?, hp] using hl⟩
      obtain ⟨data', hp', hnone⟩ := h.isFree_copy hother hhost hfree
      simp [linkOf?, hp', hnone]
    | some c =>
      obtain ⟨link, hlink, hend⟩ := hother.linkOf?_eq_some_iff.1 hl
      exact h.wellFormed.linkOf?_eq_some_iff.2 ⟨_, hc.connection?_copy h hother hlink,
        hend.imp (congrArg port) (congrArg port)⟩
  obtain rfl := Option.some.inj (hp.symm.trans (hother.port?_eq hk))
  rw [h.wellFormed.port?_eq (h.getElem?_portsOf_copy hk), hlink]

end CopiesConnections

/-! ### Injection -/

section Inject

variable {host other : Net} (hhost : host.WellFormed) (hother : other.WellFormed)

include hhost hother

/-- Injection makes links in a net with the connections of the host, and adds the tallies. -/
theorem exists_links_inject (expose : Bool) : ∃ mid : Net,
    mid.connections = host.connections ∧
      (host.inject other expose).2.connections =
        (linkAll (copiedEnds (host.inject other expose).1 other.connectionList) mid).connections ∧
      (host.inject other expose).2.tally = host.tally + other.tally := by
  obtain ⟨-, -, hlookup, hconnections, -, htally⟩ := exists_copiesAgents hother hhost
  have hlinks := copyConnections_eq_linkAll (fun c hc =>
    ⟨hlookup _ (hother.isSome_of_mem_ends hc (.inl rfl)),
      hlookup _ (hother.isSome_of_mem_ends hc (.inr rfl))⟩) (copyAgents other.agentList host).2
  refine ⟨(copyAgents other.agentList host).2, hconnections, ?_, ?_⟩
  · show (copyConnections _ _ _).connections = _
    rw [hlinks]
    rfl
  · show (copyConnections _ _ _).tally + other.tally = _
    rw [hlinks, tally_linkAll, htally]

/-- The host gains copies of the connections, one for each. -/
theorem exists_copiesConnections_inject (expose : Bool) : ∃ connection,
    CopiesConnections other host (host.inject other expose).2
      (copyOf (host.inject other expose).1) connection := by
  obtain ⟨mid, hmid, hlinks, -⟩ := exists_links_inject hhost hother expose
  generalize (host.inject other expose).1 = map at *
  generalize (host.inject other expose).2 = after at *
  have hmade : ∀ c data, other.connection? c = some data → ∃ d, host.connection? d = none ∧
      ∃ agents, after.connection? d = some ⟨d,
        (copyOf map data.ports.1, copyOf map data.ports.2), agents,
        (.unrecorded, .unrecorded)⟩ := by
    intro c data hc
    obtain rfl := hother.connection_id hc
    have hpair : (copyOf map data.ports.1, copyOf map data.ports.2) ∈
        copiedEnds map other.connectionList :=
      List.mem_map_of_mem (hother.mem_connectionList_iff.2 hc)
    obtain ⟨d, agents, hvacant, hd⟩ := exists_connection_linkAll hpair mid
    refine ⟨d, ?_, agents, ?_⟩
    · rw [← hvacant, connection?, connection?, hmid]
    · rw [← hd, connection?, connection?, hlinks]
  choose! connection hfresh hmade using hmade
  refine ⟨fun c => connection c ((other.connection? c).getD default), ?_, ?_, ?_⟩
  · intro c hlive
    obtain ⟨data, hdata⟩ := Option.isSome_iff_exists.1 hlive
    rw [hdata]
    exact hfresh c data hdata
  · intro c data hdata
    rw [hdata]
    exact hmade c data hdata
  · intro d data hd hnew
    rw [connection?, hlinks] at hd
    rcases connection_of_linkAll hd with hold | hpair
    · rw [connection?, hmid, ← connection?, hnew] at hold
      cases hold
    · obtain ⟨origin, horigin, heq⟩ := List.mem_map.1 hpair
      exact ⟨origin.id, origin, hother.mem_connectionList_iff.1 horigin, heq.symm⟩

end Inject

/-- A net with a vacant agent id and vacant port ids: the second of the four passages is taken
out. -/
def gappedPassages : Net :=
  ((removeAgent 1).run passages).2

end Net

end InteractionNets
