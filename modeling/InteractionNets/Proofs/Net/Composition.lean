import InteractionNets.Proofs.Net.Plugging
import InteractionNets.Proofs.OrderedMap

/-!
# Composing nets

Two nets are plugged into each other along a map exactly when the map is a bijection between their
interfaces (`Net.compose_bijections`). `Net.IsPlugging` says what has become of either net.
-/

namespace InteractionNets

namespace Net

variable {left right mid after : Net} {pairs : List (PortId × PortId)}

/-- The net `after` is the net `left` under its own ids, with a copy of the net `right` plugged into
it along a map between the interfaces: `agent`, `port` and `connection` name the copies, and `made`
names the connection that a port on the left interface got. -/
structure IsPlugging (left right after : Net) (mapping : OrderedMap PortId PortId)
    (agent : AgentId → AgentId) (port : PortId → PortId) (connection : ConnectionId → ConnectionId)
    (made : PortId → ConnectionId) : Prop where
  wellFormed : after.WellFormed
  /-- The left net gained the copies, and one connection for each port on its interface. -/
  bijOn_agents : Set.BijOn agent right.liveAgents (after.liveAgents \ left.liveAgents)
  bijOn_ports : Set.BijOn port right.livePorts (after.livePorts \ left.livePorts)
  bijOn_connections : Set.BijOn connection right.liveConnections
    (after.liveConnections \ (left.liveConnections ∪ made '' {a | a ∈ left.interface}))
  bijOn_made : Set.BijOn made {a | a ∈ left.interface}
    (after.liveConnections \ (left.liveConnections ∪ connection '' right.liveConnections))
  size_connections : after.connections.size =
    left.connections.size + right.connections.size + left.interface.length
  agent_left : ∀ {a data}, left.agent? a = some data → after.agent? a = some data
  agent_copy : ∀ {a data}, right.agent? a = some data →
    after.agent? (agent a) = some ⟨agent a, data.symbol, data.ports.map port⟩
  /-- Connections keep the order of their ends. -/
  connection_left : ∀ {c data}, left.connection? c = some data → after.connection? c = some data
  connection_copy : ∀ {c data}, right.connection? c = some data →
    after.connection? (connection c) = some ⟨connection c,
      (port data.ports.1, port data.ports.2), (agent data.agents.1, agent data.agents.2),
      (.unrecorded, .unrecorded)⟩
  connection_made : ∀ {a b}, mapping.get? a = some b →
    ∃ data, after.connection? (made a) = some data ∧ data.ports = (a, port b)
  /-- Only the ports on the interfaces get another connection. -/
  port_left : ∀ {p data}, left.port? p = some data → p ∉ left.interface →
    after.port? p = some data
  port_copy : ∀ {p data}, right.port? p = some data → p ∉ right.interface →
    after.port? (port p) = some ⟨port p, agent data.agent, data.position, data.principal,
      data.link.map connection⟩
  port_plugged : ∀ {a b data data'}, mapping.get? a = some b → left.port? a = some data →
    right.port? b = some data' → after.port? a = some { data with link := some (made a) } ∧
      after.port? (port b) = some ⟨port b, agent data'.agent, data'.position, data'.principal,
        some (made a)⟩
  peer_left : ∀ {p}, p ∈ left.livePorts → p ∉ left.interface → after.peer? p = left.peer? p
  peer_copy : ∀ {p}, p ∈ right.livePorts → p ∉ right.interface →
    after.peer? (port p) = (right.peer? p).map port
  peer_plugged : ∀ {a b}, mapping.get? a = some b →
    after.peer? a = some (port b) ∧ after.peer? (port b) = some a
  hidden_left : ∀ {p}, p ∈ left.livePorts → (after.IsHidden p ↔ left.IsHidden p)
  hidden_copy : ∀ {p}, p ∈ right.livePorts → (after.IsHidden (port p) ↔ right.IsHidden p)
  interface : after.interface = []
  tally : after.tally = left.tally + right.tally

/-- The ids of the connections are as many as the size says. -/
theorem ncard_liveConnections (net : Net) : net.liveConnections.ncard = net.connections.size := by
  have hcoe : net.liveConnections = ↑(net.connections.entries.map Prod.fst).toFinset := by
    ext c
    rw [List.coe_toFinset]
    exact Arena.mem_map_fst_entries_iff.symm
  rw [hcoe, Set.ncard_coe_finset, List.toFinset_card_of_nodup net.connections.nodup_entries,
    List.length_map, Arena.length_entries]

theorem finite_liveConnections (net : Net) : net.liveConnections.Finite := by
  refine (net.connections.entries.map Prod.fst).finite_toSet.subset fun c hc => ?_
  exact Arena.mem_map_fst_entries_iff.2 hc

/-- The size grows by the number of what was gained. -/
theorem size_connections_of_bijOn {α : Type} {f : α → ConnectionId} {s : Set α}
    (hsub : mid.liveConnections ⊆ after.liveConnections)
    (hf : Set.BijOn f s (after.liveConnections \ mid.liveConnections)) :
    after.connections.size = mid.connections.size + s.ncard := by
  rw [← ncard_liveConnections, ← ncard_liveConnections, ← hf.injOn.ncard_image,
    hf.image_eq, add_comm, Set.ncard_sdiff_add_ncard_of_subset hsub after.finite_liveConnections]

theorem Plugs.exists_isPlugging {mapping : OrderedMap PortId PortId} {agent : AgentId → AgentId}
    {port : PortId → PortId} {connection : ConnectionId → ConnectionId}
    (h : Plugs left right mapping.entries mid after agent port)
    (hconnections : CopiesConnections right left mid port connection)
    (htally : mid.tally = left.tally + right.tally) :
    ∃ made, IsPlugging left right after mapping agent port connection made := by
  obtain ⟨made, hmade, hends⟩ := h.exists_bijOn_made
  have hright := h.right_wellFormed
  have hleft := h.left_wellFormed
  have hpair : ∀ {a b}, mapping.get? a = some b → (a, b) ∈ mapping.entries :=
    OrderedMap.get?_eq_some_iff.1
  -- the connections of the left net come first, then the copies, then those that are made
  have hcopies := hconnections.bijOn_connections h.isCopy hright
  have hmid : left.liveConnections ⊆ mid.liveConnections := fun c hc => by
    obtain ⟨data, hdata⟩ := Option.isSome_iff_exists.1 hc
    exact Option.isSome_of_mem (h.isCopy.connection_old hdata)
  have hafter : mid.liveConnections ⊆ after.liveConnections := fun c hc => by
    obtain ⟨data, hdata⟩ := Option.isSome_iff_exists.1 hc
    exact Option.isSome_of_mem (h.connection?_of_some hdata)
  have hlink : ∀ {a b}, mapping.get? a = some b →
      after.linkOf? a = some (made a) ∧ after.linkOf? (port b) = some (made a) := by
    intro a b hab
    obtain ⟨data, hc, hports⟩ := hends a b (hpair hab)
    exact ⟨h.wellFormed.linkOf?_eq_some_iff.2 ⟨data, hc, .inl (by rw [hports])⟩,
      h.wellFormed.linkOf?_eq_some_iff.2 ⟨data, hc, .inr (by rw [hports])⟩⟩
  refine ⟨made, ?_⟩
  constructor
  case wellFormed => exact h.wellFormed
  case bijOn_agents =>
    have hagents : after.liveAgents = mid.liveAgents := Set.ext fun x => by
      simp only [liveAgents, h.agent?_eq]
    exact hagents ▸ h.isCopy.bijOn_agents
  case bijOn_ports => exact h.livePorts_eq ▸ h.isCopy.bijOn_ports hright hleft
  case bijOn_connections =>
    rwa [hmade.image_eq, Set.union_comm, ← Set.sdiff_sdiff, Set.sdiff_sdiff_cancel_left hafter]
  case bijOn_made =>
    rwa [hcopies.image_eq, Set.union_sdiff_cancel hmid]
  case size_connections =>
    have hinterface : {a | a ∈ left.interface}.ncard = left.interface.length := by
      rw [← List.coe_toFinset, Set.ncard_coe_finset,
        List.toFinset_card_of_nodup hleft.interface_nodup]
    rw [size_connections_of_bijOn hafter hmade, size_connections_of_bijOn hmid hcopies,
      ncard_liveConnections, hinterface]
  case agent_left => exact fun hx => (h.agent?_eq _).trans (h.isCopy.agent_old_of_some hx)
  case agent_copy => exact fun hx => (h.agent?_eq _).trans (h.isCopy.agent_copy hx)
  case connection_left => exact fun hc => h.connection?_of_some (h.isCopy.connection_old hc)
  case connection_copy =>
    exact fun hc => h.connection?_of_some (hconnections.connection?_copy h.isCopy hright hc)
  case connection_made => exact fun hab => hends _ _ (hpair hab)
  case port_left =>
    intro p data hp hmem
    rw [h.port?_of_not_mem (mt (h.mem_interface_left (Option.isSome_of_mem hp)).1 hmem)]
    exact h.isCopy.port?_host hright hleft hp
  case port_copy =>
    intro p data hp hmem
    rw [h.port?_of_not_mem (mt (h.mem_interface_copy (Option.isSome_of_mem hp)).1 hmem)]
    exact hconnections.port?_copy h.isCopy hright hleft hp
  case port_plugged =>
    intro a b data data' hab ha hb
    obtain ⟨hlinkA, hlinkB⟩ := hlink hab
    rw [h.port?_eq, h.port?_eq, h.isCopy.port?_host hright hleft ha,
      hconnections.port?_copy h.isCopy hright hleft hb, hlinkA, hlinkB]
    exact ⟨rfl, rfl⟩
  case peer_left => exact h.peer?_left
  case peer_copy => exact h.peer?_copy
  case peer_plugged =>
    intro a b hab
    have hjoined := h.joined_pair (hpair hab)
    exact ⟨h.wellFormed.peer?_eq_some_iff.2 hjoined, h.wellFormed.peer?_eq_some_iff.2 hjoined.symm⟩
  case hidden_left => exact h.isHidden_left
  case hidden_copy => exact h.isHidden_copy
  case interface => exact h.interface_eq
  case tally => exact h.tally_eq.trans htally

section Compose

variable (hleft : left.WellFormed) (hright : right.WellFormed)
  {mapping : OrderedMap PortId PortId}

include hleft hright

/-- What is composed was composed along one interface against the other. -/
theorem mappingFault?_eq_none_iff_isBijection : left.mappingFault? right mapping = none ↔
    mapping.IsBijection left.interface right.interface := by
  rw [mappingFault?_eq_none_iff hright.interface_nodup,
    OrderedMap.isBijection_iff_perm hleft.interface_nodup hright.interface_nodup]

theorem exists_plugs_of_compose (h : left.mappingFault? right mapping = none) :
    ∃ after agent, left.compose right mapping = .ok after ∧
      Plugs left right mapping.entries (left.inject right true).2 after agent
        (copyOf (left.inject right true).1) := by
  obtain ⟨hkeys, hvalues⟩ := (mappingFault?_eq_none_iff hright.interface_nodup).1 h
  obtain ⟨after, agent, hplug, hplugs⟩ := exists_plugs hleft hright hkeys hvalues
  exact ⟨after, agent, by rw [compose, h, hplug], hplugs⟩

theorem exists_compose_iff : (∃ after, left.compose right mapping = .ok after) ↔
    mapping.IsBijection left.interface right.interface := by
  rw [← mappingFault?_eq_none_iff_isBijection hleft hright]
  constructor
  · rintro ⟨after, hafter⟩
    rw [compose] at hafter
    split at hafter
    · cases hafter
    · assumption
  · intro h
    obtain ⟨after, agent, hafter, -⟩ := exists_plugs_of_compose hleft hright h
    exact ⟨after, hafter⟩

theorem exists_isPlugging_of_compose (hafter : left.compose right mapping = .ok after) :
    ∃ agent port connection made,
      IsPlugging left right after mapping agent port connection made := by
  obtain ⟨last, agent, hlast, hplugs⟩ := exists_plugs_of_compose hleft hright
    ((mappingFault?_eq_none_iff_isBijection hleft hright).2
      ((exists_compose_iff hleft hright).1 ⟨after, hafter⟩))
  obtain rfl := Except.ok.inj (hafter.symm.trans hlast)
  obtain ⟨connection, hconnections⟩ := exists_copiesConnections_inject hleft hright true
  obtain ⟨-, -, -, htally⟩ := exists_links_inject hleft hright true
  exact ⟨agent, _, connection, hplugs.exists_isPlugging hconnections htally⟩

/-- Plugging interfaces position by position is composing along the map of positions. -/
theorem sequential_eq_compose :
    left.sequential right = left.compose right (.ofList (left.interface.zip right.interface)) := by
  rw [sequential, compose]
  cases hsize : left.sizeFault? right with
  | some fault => simp only [mappingFault?, hsize]
  | none =>
    have hlength := sizeFault?_eq_none_iff.1 hsize
    have hfst : (left.interface.zip right.interface).map Prod.fst = left.interface :=
      List.map_fst_zip hlength.le
    have hsnd : (left.interface.zip right.interface).map Prod.snd = right.interface :=
      List.map_snd_zip hlength.ge
    have hentries := OrderedMap.entries_ofList (hfst.symm ▸ hleft.interface_nodup)
    rw [(mappingFault?_eq_none_iff hright.interface_nodup).2 ?_, hentries]
    rw [OrderedMap.keys, OrderedMap.values, hentries, hfst, hsnd]
    exact ⟨.refl _, .refl _⟩

theorem exists_plugs_of_length (hlength : left.interface.length = right.interface.length) :
    ∃ after agent, left.sequential right = .ok after ∧
      Plugs left right (left.interface.zip right.interface) (left.inject right true).2 after agent
        (copyOf (left.inject right true).1) := by
  obtain ⟨after, agent, hplug, hplugs⟩ := exists_plugs hleft hright
    (.of_eq (List.map_fst_zip hlength.le)) (.of_eq (List.map_snd_zip hlength.ge))
  exact ⟨after, agent, by rw [sequential, sizeFault?_eq_none_iff.2 hlength, hplug], hplugs⟩

theorem exists_sequential_iff : (∃ after, left.sequential right = .ok after) ↔
    left.interface.length = right.interface.length := by
  rw [← sizeFault?_eq_none_iff]
  constructor
  · rintro ⟨after, hafter⟩
    rw [sequential] at hafter
    split at hafter
    · cases hafter
    · assumption
  · intro h
    obtain ⟨after, agent, hafter, -⟩ :=
      exists_plugs_of_length hleft hright (sizeFault?_eq_none_iff.1 h)
    exact ⟨after, hafter⟩

end Compose

/-- **Composition accepts exactly the bijections, and wires them.** Two nets are composed along a
map exactly when the map is a bijection from the left interface onto the right one. The result is
the left net under its own ids with a copy of the right one, where every port on the left interface
is the peer of the copy of the port it is mapped to, and nothing else changes. Two nets are plugged
into each other position by position exactly when their interfaces are equally long, and that is
composition along the map of positions. -/
theorem compose_bijections (hleft : left.WellFormed) (hright : right.WellFormed)
    (mapping : OrderedMap PortId PortId) :
    ((∃ after, left.compose right mapping = .ok after) ↔
      mapping.IsBijection left.interface right.interface) ∧
    (∀ after, left.compose right mapping = .ok after → ∃ agent port connection made,
      IsPlugging left right after mapping agent port connection made) ∧
    ((∃ after, left.sequential right = .ok after) ↔
      left.interface.length = right.interface.length) ∧
    left.sequential right = left.compose right (.ofList (left.interface.zip right.interface)) :=
  ⟨exists_compose_iff hleft hright, fun _ => exists_isPlugging_of_compose hleft hright,
    exists_sequential_iff hleft hright, sequential_eq_compose hleft hright⟩

/-- The outer ports of two passages that face each other are connected crosswise to a net with
vacant ids; a map that leads to one port twice is refused. -/
theorem compose_crossedPassages :
    (∃ after agent port connection made,
      gappedPassages.compose (facing passage passage) (.ofList [(0, 3), (5, 1)]) = .ok after ∧
        IsPlugging gappedPassages (facing passage passage) after (.ofList [(0, 3), (5, 1)])
          agent port connection made) ∧
      ¬ ∃ after, gappedPassages.compose (facing passage passage)
        (.ofList [(0, 3), (5, 3)]) = .ok after := by
  have hleft : gappedPassages.WellFormed := wellFormed_passages.run_removeAgent 1
  have hright := wellFormed_facing passage passage
  have hbijection : ∀ {mapping : OrderedMap PortId PortId},
      mapping.IsBijection gappedPassages.interface (facing passage passage).interface ↔
        mapping.keys.Perm gappedPassages.interface ∧
          mapping.values.Perm (facing passage passage).interface :=
    OrderedMap.isBijection_iff_perm hleft.interface_nodup hright.interface_nodup
  constructor
  · obtain ⟨hiff, hplugging, -⟩ := compose_bijections hleft hright (.ofList [(0, 3), (5, 1)])
    obtain ⟨after, hafter⟩ := hiff.2 (hbijection.2 (by decide +kernel))
    obtain ⟨agent, port, connection, made, h⟩ := hplugging after hafter
    exact ⟨after, agent, port, connection, made, hafter, h⟩
  · rw [(compose_bijections hleft hright (.ofList [(0, 3), (5, 3)])).1, hbijection]
    decide +kernel

end Net

end InteractionNets
