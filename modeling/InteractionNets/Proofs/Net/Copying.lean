import InteractionNets.Proofs.Net.Copy

/-!
# Copying a net into a host

Injecting a well-formed net into a well-formed host copies it there (`Net.exists_isCopy_inject`).
The agents are copied first, and then their ports are connected as those of the net are.
-/

namespace InteractionNets

namespace Net

section Inject

/-- The pairs of ports that the copies of some connections join. -/
def copiedEnds (map : PortMap) (connections : List Connection) : List (PortId × PortId) :=
  connections.map fun c => (copyOf map c.ports.1, copyOf map c.ports.2)

theorem copyConnections_eq_linkAll {map : PortMap} {connections : List Connection}
    (hmap : ∀ c ∈ connections, map.lookup c.ports.1 = some (copyOf map c.ports.1) ∧
      map.lookup c.ports.2 = some (copyOf map c.ports.2)) (host : Net) :
    copyConnections map connections host = linkAll (copiedEnds map connections) host := by
  induction connections generalizing host with
  | nil => rfl
  | cons c rest ih =>
    obtain ⟨h₁, h₂⟩ := hmap c List.mem_cons_self
    rw [copyConnections, h₁, h₂]
    exact ih (fun d hd => hmap d (List.mem_cons_of_mem _ hd)) _

theorem pairEnds_copiedEnds (map : PortMap) (connections : List Connection) :
    pairEnds (copiedEnds map connections) =
      (connections.flatMap fun c => [c.ports.1, c.ports.2]).map (copyOf map) := by
  rw [pairEnds, copiedEnds, List.flatMap_map, List.map_flatMap]
  rfl

/-- The ends of the connections of a net are different ports. -/
theorem WellFormed.nodup_ends {net : Net} (h : net.WellFormed) :
    (net.connectionList.flatMap fun c => [c.ports.1, c.ports.2]).Nodup := by
  rw [List.nodup_flatMap]
  constructor
  · intro c hc
    simpa using h.ends_ne (h.mem_connectionList_iff.1 hc)
  · refine (List.pairwise_map.1 h.nodup_map_id_connectionList).imp_of_mem ?_
    intro c d hc hd hne p hp hp'
    exact hne (h.connection_unique (h.mem_connectionList_iff.1 hc) (by simpa using hp)
      (h.mem_connectionList_iff.1 hd) (by simpa using hp')).1

theorem WellFormed.isSome_of_mem_ends {net : Net} (h : net.WellFormed) {c : Connection}
    (hc : c ∈ net.connectionList) {p : PortId} (hp : p = c.ports.1 ∨ p = c.ports.2) :
    (net.port? p).isSome := by
  obtain ⟨port, hport, -⟩ := h.port_of_listed (h.mem_connectionList_iff.1 hc) hp
  simp [hport]

/-- Different agents list different ports. -/
theorem WellFormed.nodup_ports {net : Net} (h : net.WellFormed) :
    (net.agentList.flatMap Agent.ports).Nodup := by
  have hlisted : ∀ {data p}, data ∈ net.agentList → p ∈ data.ports →
      ∃ k : Nat, (net.portsOf data.id)[k]? = some p := by
    intro data p hdata hp
    rw [portsOf_eq (h.mem_agentList_iff.1 hdata)]
    exact List.mem_iff_getElem?.1 hp
  rw [List.nodup_flatMap]
  constructor
  · intro data hdata
    rw [← portsOf_eq (h.mem_agentList_iff.1 hdata)]
    exact h.nodup_portsOf data.id
  · refine (List.pairwise_map.1 h.nodup_map_id_agentList).imp_of_mem ?_
    intro data data' hdata hdata' hne p hp hp'
    obtain ⟨i, hi⟩ := hlisted hdata hp
    obtain ⟨j, hj⟩ := hlisted hdata' hp'
    exact hne (h.port_unique hi hj).1

/-- The live ports are those that the agents list. -/
theorem WellFormed.mem_flatMap_ports_iff {net : Net} (h : net.WellFormed) {p : PortId} :
    p ∈ net.agentList.flatMap Agent.ports ↔ (net.port? p).isSome := by
  rw [List.mem_flatMap, h.port?_isSome_iff]
  constructor
  · rintro ⟨data, hdata, hp⟩
    obtain ⟨k, hk⟩ := List.mem_iff_getElem?.1 hp
    exact ⟨data.id, k, by rw [portsOf_eq (h.mem_agentList_iff.1 hdata), hk]⟩
  · rintro ⟨a, k, hk⟩
    obtain ⟨data, hdata⟩ := Option.isSome_iff_exists.1 (isSome_agent?_of_getElem? hk)
    obtain rfl := h.agent_id hdata
    rw [portsOf_eq hdata] at hk
    exact ⟨data, h.mem_agentList_iff.2 hdata, List.mem_of_getElem? hk⟩

variable {other host : Net} (hother : other.WellFormed) (hhost : host.WellFormed)

include hother hhost

/-- Copying the agents of a net leaves copies of them, and the port map sends each port to the port
in its place on the copy of its agent. -/
theorem exists_copiesAgents : ∃ copy,
    CopiesAgents other host (copyAgents other.agentList host).2 copy
        (copyOf (copyAgents other.agentList host).1) ∧
      (∀ p, (other.port? p).isSome → (copyAgents other.agentList host).1.lookup p =
        some (copyOf (copyAgents other.agentList host).1 p)) ∧
      (copyAgents other.agentList host).2.connections = host.connections ∧
      (copyAgents other.agentList host).2.interface = host.interface ∧
      (copyAgents other.agentList host).2.tally = host.tally := by
  obtain ⟨copy, hcopy, hmap⟩ :=
    copiesList_copyAgents hhost hother.nodup_map_id_agentList
  generalize (copyAgents other.agentList host).1 = map at hmap ⊢
  generalize (copyAgents other.agentList host).2 = mid at hcopy hmap ⊢
  -- a copy has as many ports as the agent, so their places correspond
  have hlength : ∀ data ∈ other.agentList,
      data.ports.length = (mid.portsOf (copy data.id)).length := by
    intro data hdata
    obtain ⟨ports, hports⟩ := hcopy.agent_copy data hdata
    rw [portsOf_eq hports, hother.arity (hother.mem_agentList_iff.1 hdata)]
    exact (hcopy.wellFormed.arity hports).symm
  have hlist : ∀ {a}, (other.agent? a).isSome → ∃ data ∈ other.agentList, data.id = a := by
    intro a ha
    obtain ⟨data, hdata⟩ := Option.isSome_iff_exists.1 ha
    obtain rfl := hother.agent_id hdata
    exact ⟨data, hother.mem_agentList_iff.2 hdata, rfl⟩
  subst hmap
  refine ⟨copy, ⟨hcopy.wellFormed, ?_, ?_, ?_, ?_⟩, ?_, hcopy.connections, hcopy.interface,
    hcopy.tally⟩
  · intro a ha
    obtain ⟨data, hdata, rfl⟩ := hlist ha
    exact hcopy.fresh data hdata
  · intro a b ha hb heq
    obtain ⟨data, hdata, rfl⟩ := hlist ha
    obtain ⟨data', hdata', rfl⟩ := hlist hb
    exact hcopy.injective data hdata data' hdata' heq
  · intro a data ha
    obtain rfl := hother.agent_id ha
    have hdata := hother.mem_agentList_iff.2 ha
    obtain ⟨ports, hports⟩ := hcopy.agent_copy data hdata
    rw [hports, map_copyOf_portMap hother.nodup_ports hlength hdata, portsOf_eq hports]
  · intro x hx
    refine hcopy.agent_old fun data hdata => hx data.id ?_
    simp [hother.mem_agentList_iff.1 hdata]
  · intro p hp
    obtain ⟨a, k, hk⟩ := hother.port?_isSome_iff.1 hp
    obtain ⟨data, hdata, rfl⟩ := hlist (isSome_agent?_of_getElem? hk)
    rw [portsOf_eq (hother.mem_agentList_iff.1 hdata)] at hk
    exact lookup_portMap_eq_copyOf hother.nodup_ports hlength hdata (List.mem_of_getElem? hk)

section CopiedEnds

variable {mid : Net} {map : PortMap} {copy : AgentId → AgentId}
  (h : CopiesAgents other host mid copy (copyOf map))
  (hconnections : mid.connections = host.connections)

include h hconnections

/-- Once the agents have been copied, the copies of their ports may be linked. -/
theorem CopiesAgents.wellFormed_linkAll (hinterface : mid.interface = host.interface) :
    (linkAll (copiedEnds map other.connectionList) mid).WellFormed := by
  have hlive : ∀ p ∈ other.connectionList.flatMap (fun c => [c.ports.1, c.ports.2]),
      (other.port? p).isSome := by
    intro p hp
    obtain ⟨c, hc, hp⟩ := List.mem_flatMap.1 hp
    exact hother.isSome_of_mem_ends hc (by simpa using hp)
  refine h.wellFormed.linkAll ?_ fun q hq => ?_
  · rw [pairEnds_copiedEnds]
    refine hother.nodup_ends.map_on fun p hp q hq heq => ?_
    exact h.port_injective hother (hlive p hp) (hlive q hq) heq
  · rw [pairEnds_copiedEnds] at hq
    obtain ⟨p, hp, rfl⟩ := List.mem_map.1 hq
    -- the host does not know the copy of the port, so it neither joins nor exposes it
    have hfresh := h.port_fresh hother hhost (hlive p hp)
    refine ⟨h.wellFormed.isFree_iff.2 ⟨h.port_copy hother (hlive p hp), ?_⟩, ?_⟩
    · rintro q ⟨c, data, hc, hends⟩
      rw [connection?, hconnections] at hc
      have := hhost.isSome_of_joined ⟨c, data, hc, hends⟩
      simp [hfresh] at this
    · intro hmem
      rw [hinterface] at hmem
      have := hhost.isSome_of_mem_interface hmem
      simp [hfresh] at this

omit hhost h in
/-- Linking the copies of the ends of all connections joins copies as their ports are joined. -/
theorem joined_linkAll_copiedEnds {p q : PortId} :
    (linkAll (copiedEnds map other.connectionList) mid).Joined p q ↔ host.Joined p q ∨
      ∃ p₀ q₀, other.Joined p₀ q₀ ∧ copyOf map p₀ = p ∧ copyOf map q₀ = q := by
  have hjoined : mid.Joined p q ↔ host.Joined p q := by
    simp only [Joined, connection?, hconnections]
  rw [joined_linkAll, hjoined]
  refine or_congr_right ?_
  simp only [copiedEnds, List.mem_map, Prod.mk.injEq]
  constructor
  · rintro (⟨c, hc, hp, hq⟩ | ⟨c, hc, hq, hp⟩)
    · exact ⟨_, _, ⟨c.id, c, hother.mem_connectionList_iff.1 hc, .inl rfl⟩, hp, hq⟩
    · exact ⟨_, _, ⟨c.id, c, hother.mem_connectionList_iff.1 hc, .inr rfl⟩, hp, hq⟩
  · rintro ⟨p₀, q₀, ⟨c, data, hc, hends⟩, hp, hq⟩
    obtain rfl := hother.connection_id hc
    have hlisted := hother.mem_connectionList_iff.2 hc
    rcases hends with hends | hends
    · exact .inl ⟨data, hlisted, by simp [hends, hp, hq]⟩
    · exact .inr ⟨data, hlisted, by simp [hends, hp, hq]⟩

end CopiedEnds

/-- Copying the agents of a net and then its connections leaves the host and a copy of the net. -/
theorem exists_isCopy_copyConnections : ∃ copy,
    IsCopy other host (copyConnections (copyAgents other.agentList host).1 other.connectionList
        (copyAgents other.agentList host).2) copy (copyOf (copyAgents other.agentList host).1) ∧
      (∀ p, (other.port? p).isSome → (copyAgents other.agentList host).1.lookup p =
        some (copyOf (copyAgents other.agentList host).1 p)) ∧
      (copyConnections (copyAgents other.agentList host).1 other.connectionList
        (copyAgents other.agentList host).2).interface = host.interface := by
  obtain ⟨copy, hagents, hlookup, hconnections, hinterface, -⟩ :=
    exists_copiesAgents hother hhost
  generalize (copyAgents other.agentList host).1 = map at hagents hlookup ⊢
  generalize (copyAgents other.agentList host).2 = mid at hagents hconnections hinterface ⊢
  rw [copyConnections_eq_linkAll (fun c hc =>
    ⟨hlookup _ (hother.isSome_of_mem_ends hc (.inl rfl)),
      hlookup _ (hother.isSome_of_mem_ends hc (.inr rfl))⟩) mid]
  refine ⟨copy, ⟨⟨?_, hagents.fresh, hagents.injective, ?_, ?_⟩, ?_, ?_⟩, hlookup,
    (interface_linkAll _ _).trans hinterface⟩
  · exact hagents.wellFormed_linkAll hother hhost hconnections hinterface
  · intro a data ha
    rw [agent?_linkAll]
    exact hagents.agent_copy ha
  · intro x hx
    rw [agent?_linkAll]
    exact hagents.agent_old hx
  · intro c data hc
    refine connection?_linkAll_of_some _ ?_
    simpa only [connection?, hconnections] using hc
  · exact joined_linkAll_copiedEnds hother hconnections

/-- Injecting a net leaves the host and a copy of the net. The port map lists every port of the net
with its copy, and the copied interface comes after the host's if it is exposed. -/
theorem exists_isCopy_inject (expose : Bool) : ∃ copy,
    IsCopy other host (host.inject other expose).2 copy (copyOf (host.inject other expose).1) ∧
      (∀ p, (other.port? p).isSome → (host.inject other expose).1.lookup p =
        some (copyOf (host.inject other expose).1 p)) ∧
      (host.inject other expose).2.interface =
        if expose then host.interface ++ other.interface.map (copyOf (host.inject other expose).1)
        else host.interface := by
  obtain ⟨copy, hcopy, hlookup, hinterface⟩ := exists_isCopy_copyConnections hother hhost
  have hfst : (host.inject other expose).1 = (copyAgents other.agentList host).1 := rfl
  have hfilter : other.interface.filterMap
      (fun port => (copyAgents other.agentList host).1.lookup port) =
        other.interface.map (copyOf (copyAgents other.agentList host).1) := by
    rw [← List.filterMap_eq_map]
    exact List.filterMap_congr fun p hp => hlookup p (hother.isSome_of_mem_interface hp)
  have hnodup := hcopy.nodup_interfaces hother hhost
  have hexposed : (host.inject other expose).2.interface =
      if expose then host.interface ++ other.interface.map (copyOf (host.inject other expose).1)
      else host.interface := by
    rw [hfst]
    cases expose with
    | false => exact hinterface
    | true =>
      refine (Interface.extend_eq_append ?_).trans ?_
      · rw [hinterface, hfilter]
        exact hnodup
      · rw [hinterface, hfilter]
        rfl
  have hsub : (host.inject other expose).2.interface.Sublist (host.interface ++
      other.interface.map (copyOf (copyAgents other.agentList host).1)) := by
    rw [hexposed, hfst]
    cases expose with
    | false => exact List.sublist_append_left _ _
    | true => exact List.Sublist.refl _
  exact ⟨copy, hcopy.withInterface (hnodup.sublist hsub)
    (fun p hp => hcopy.isFree_of_mem_interfaces hother hhost (hsub.subset hp)) _, hlookup, hexposed⟩

end Inject

end Net

end InteractionNets
