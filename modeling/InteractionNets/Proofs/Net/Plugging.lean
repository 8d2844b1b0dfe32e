import InteractionNets.Proofs.Net.Connecting
import InteractionNets.Proofs.Net.Injection
import InteractionNets.Proofs.Net.Invariance
import Mathlib.Data.Set.Card

/-!
# Plugging nets into each other

The right net is copied into the left one, and then pairs of ports, one interface against the other,
are connected one after another (`Net.Plugs`). The ends of the pairs are the whole interface of the
two nets side by side, each end once, so no pair is refused and nothing is left on the interface.
-/

namespace InteractionNets

namespace Net

variable {left right mid after : Net} {pairs : List (PortId × PortId)}

/-- A net is plugged into another one along some pairs, which are one interface against the other:
`mid` is the left net with a copy of the right one beside it, and the pairs are connected there. -/
structure Plugs (left right : Net) (pairs : List (PortId × PortId)) (mid after : Net)
    (agent : AgentId → AgentId) (port : PortId → PortId) : Prop where
  left_wellFormed : left.WellFormed
  right_wellFormed : right.WellFormed
  isCopy : IsCopy right left mid agent port
  interface_mid : mid.interface = left.interface ++ right.interface.map port
  perm_left : (pairs.map Prod.fst).Perm left.interface
  perm_right : (pairs.map Prod.snd).Perm right.interface
  connects : ∃ connections, Connects (pairs.map (Prod.map id port)) mid connections after

/-- The ends of the pairs are the interface of the two nets side by side. -/
theorem perm_pairEnds_plugged (port : PortId → PortId)
    (hleft : (pairs.map Prod.fst).Perm left.interface)
    (hright : (pairs.map Prod.snd).Perm right.interface) :
    (pairEnds (pairs.map (Prod.map id port))).Perm
      (left.interface ++ right.interface.map port) := by
  refine (perm_pairEnds _).trans (.append ?_ ?_)
  · rw [List.map_map]
    exact hleft
  · have hmap : (pairs.map (Prod.map id port)).map Prod.snd = (pairs.map Prod.snd).map port := by
      rw [List.map_map, List.map_map]
      rfl
    rw [hmap]
    exact hright.map port

/-- Plugging is connecting, when the map lists the second port of every pair. -/
theorem run_plugPairs_of_connects {map : PortMap} {net : Net} {connections : List ConnectionId}
    (hmap : ∀ pair ∈ pairs, map.lookup pair.2 = some (copyOf map pair.2))
    (h : Connects (pairs.map (Prod.map id (copyOf map))) net connections after) :
    (plugPairs map pairs).run net = (.ok (), after) := by
  induction pairs generalizing net connections with
  | nil =>
    cases h
    rfl
  | cons pair rest ih =>
    obtain ⟨a, b⟩ := pair
    obtain ⟨hb, hrest⟩ := List.forall_mem_cons.1 hmap
    cases h with
    | cons hfirst hlater =>
      rw [plugPairs, hb]
      exact (run_bind_ok hfirst).trans (ih hrest hlater)

/-- Nets are plugged along pairs that are one interface against the other; no pair is refused. -/
theorem exists_plugs (hleft : left.WellFormed) (hright : right.WellFormed)
    (hfst : (pairs.map Prod.fst).Perm left.interface)
    (hsnd : (pairs.map Prod.snd).Perm right.interface) :
    ∃ after agent, left.plug right pairs = .ok after ∧
      Plugs left right pairs (left.inject right true).2 after agent
        (copyOf (left.inject right true).1) := by
  obtain ⟨agent, hcopy, hlookup, hinterface⟩ := exists_isCopy_inject hright hleft true
  rw [if_pos rfl] at hinterface
  have hends := perm_pairEnds_plugged (copyOf (left.inject right true).1) hfst hsnd
  obtain ⟨connections, after, hconnects⟩ := exists_connects_iff.2
    ⟨hends.nodup_iff.2 (hinterface ▸ hcopy.wellFormed.interface_nodup), fun p hp =>
      hcopy.wellFormed.isFree_of_mem_interface (hinterface ▸ hends.mem_iff.1 hp)⟩
  refine ⟨after, agent, ?_, hleft, hright, hcopy, hinterface, hfst, hsnd, connections, hconnects⟩
  have hrun := run_plugPairs_of_connects (fun pair hpair => hlookup _
    (hright.isSome_of_mem_interface (hsnd.mem_iff.1 (List.mem_map_of_mem hpair)))) hconnects
  rw [Edit.run] at hrun
  simp only [plug, Edit.result, hrun, Except.map]

namespace Plugs

variable {agent : AgentId → AgentId} {port : PortId → PortId} {p q a b : PortId}
  (h : Plugs left right pairs mid after agent port)

include h

theorem wellFormed : after.WellFormed := by
  obtain ⟨connections, hconnects⟩ := h.connects
  exact hconnects.wellFormed h.isCopy.wellFormed

theorem agents_eq : after.agents = mid.agents := by
  obtain ⟨connections, hconnects⟩ := h.connects
  exact hconnects.agents_eq

theorem agent?_eq (x : AgentId) : after.agent? x = mid.agent? x := by
  rw [agent?, h.agents_eq, agent?]

theorem portsOf_eq (x : AgentId) : after.portsOf x = mid.portsOf x := by
  rw [portsOf, h.agent?_eq, portsOf]

theorem tally_eq : after.tally = mid.tally := by
  obtain ⟨connections, hconnects⟩ := h.connects
  exact hconnects.tally_eq

/-- Nothing is left on the interface. -/
theorem interface_eq : after.interface = [] := by
  obtain ⟨connections, hconnects⟩ := h.connects
  have hends := perm_pairEnds_plugged port h.perm_left h.perm_right
  rw [hconnects.interface_eq, foldl_erase_eq_filter h.isCopy.wellFormed.interface_nodup,
    List.filter_eq_nil_iff]
  intro p hp
  rw [h.interface_mid, ← hends.mem_iff] at hp
  simpa using hp

theorem mem_left (hpair : (a, b) ∈ pairs) : a ∈ left.interface :=
  h.perm_left.mem_iff.1 (List.mem_map_of_mem hpair)

theorem mem_right (hpair : (a, b) ∈ pairs) : b ∈ right.interface :=
  h.perm_right.mem_iff.1 (List.mem_map_of_mem hpair)

theorem exists_pair_left (ha : a ∈ left.interface) : ∃ b, (a, b) ∈ pairs := by
  obtain ⟨⟨a, b⟩, hpair, rfl⟩ := List.mem_map.1 (h.perm_left.mem_iff.2 ha)
  exact ⟨b, hpair⟩

theorem exists_pair_right (hb : b ∈ right.interface) : ∃ a, (a, b) ∈ pairs := by
  obtain ⟨⟨a, b⟩, hpair, rfl⟩ := List.mem_map.1 (h.perm_right.mem_iff.2 hb)
  exact ⟨a, hpair⟩

/-! ### Ports -/

/-- A port of the left net is an end of a pair when it is on the left interface. -/
theorem mem_interface_left (hp : (left.port? p).isSome) :
    p ∈ mid.interface ↔ p ∈ left.interface := by
  rw [h.interface_mid, List.mem_append, or_iff_left]
  intro hmem
  obtain ⟨q, hq, rfl⟩ := List.mem_map.1 hmem
  have hlive := h.right_wellFormed.isSome_of_mem_interface hq
  rw [h.isCopy.port_fresh h.right_wellFormed h.left_wellFormed hlive] at hp
  cases hp

/-- A copy is an end of a pair when its port is on the right interface. -/
theorem mem_interface_copy (hp : (right.port? p).isSome) :
    port p ∈ mid.interface ↔ p ∈ right.interface := by
  rw [h.interface_mid, List.mem_append, or_iff_right]
  · constructor
    · intro hmem
      obtain ⟨q, hq, heq⟩ := List.mem_map.1 hmem
      have hlive := h.right_wellFormed.isSome_of_mem_interface hq
      exact h.isCopy.port_injective h.right_wellFormed hlive hp heq ▸ hq
    · exact List.mem_map_of_mem
  · intro hmem
    have hlive := h.left_wellFormed.isSome_of_mem_interface hmem
    rw [h.isCopy.port_fresh h.right_wellFormed h.left_wellFormed hp] at hlive
    cases hlive

/-- What is not on the interface of the two nets side by side stays as it is. -/
theorem port?_of_not_mem (hp : p ∉ mid.interface) : after.port? p = mid.port? p := by
  obtain ⟨connections, hconnects⟩ := h.connects
  refine hconnects.port?_of_not_mem fun hmem => hp ?_
  rw [h.interface_mid]
  exact (perm_pairEnds_plugged port h.perm_left h.perm_right).mem_iff.1 hmem

theorem joined_iff : after.Joined p q ↔ mid.Joined p q ∨
    (∃ a b, (a, b) ∈ pairs ∧ a = p ∧ port b = q) ∨
      ∃ a b, (a, b) ∈ pairs ∧ a = q ∧ port b = p := by
  obtain ⟨connections, hconnects⟩ := h.connects
  simp [hconnects.joined_iff]

/-- The two ports of a pair are peers. -/
theorem joined_pair (hpair : (a, b) ∈ pairs) : after.Joined a (port b) :=
  h.joined_iff.2 (.inr (.inl ⟨a, b, hpair, rfl, rfl⟩))

/-- Ports that are on no interface are joined as before. -/
theorem joined_of_not_mem (hp : p ∉ mid.interface) : after.Joined p q ↔ mid.Joined p q := by
  rw [h.joined_iff, or_iff_left]
  rw [h.interface_mid, List.mem_append, not_or] at hp
  rintro (⟨a, b, hpair, rfl, -⟩ | ⟨a, b, hpair, -, rfl⟩)
  · exact hp.1 (h.mem_left hpair)
  · exact hp.2 (List.mem_map_of_mem (h.mem_right hpair))

/-- Nothing but its connection changes in the record of a port. -/
theorem port?_eq (p : PortId) : after.port? p =
    (mid.port? p).map fun data => { data with link := after.linkOf? p } := by
  cases hp : mid.port? p with
  | none =>
    rw [Option.map_none, ← Option.not_isSome_iff_eq_none, h.wellFormed.port?_isSome_iff]
    simp only [h.portsOf_eq, ← h.isCopy.wellFormed.port?_isSome_iff, hp]
    exact Bool.false_ne_true
  | some data =>
    obtain ⟨a, k, hk⟩ := h.isCopy.wellFormed.port?_isSome_iff.1 (Option.isSome_of_mem hp)
    obtain rfl := Option.some.inj (hp.symm.trans (h.isCopy.wellFormed.port?_eq hk))
    exact h.wellFormed.port?_eq ((h.portsOf_eq a).symm ▸ hk)

theorem livePorts_eq : after.livePorts = mid.livePorts := by
  ext p
  show (after.port? p).isSome ↔ (mid.port? p).isSome
  rw [h.port?_eq, Option.isSome_map]

/-- A port that is on no interface is hidden when it was free. -/
theorem isHidden_iff_of_not_mem (hp : p ∉ mid.interface) :
    after.IsHidden p ↔ mid.IsFree p := by
  rw [IsHidden, h.interface_eq, and_iff_left List.not_mem_nil, IsFree, h.port?_of_not_mem hp,
    IsFree]

/-- A port that is joined to something is not hidden. -/
theorem not_isHidden_of_joined (hpq : after.Joined p q) : ¬ after.IsHidden p :=
  fun hhidden => (h.wellFormed.isFree_iff.1 hhidden.1).2 q hpq

/-- The hidden ports of the left net are hidden still, and no other ports of it. -/
theorem isHidden_left (hp : (left.port? p).isSome) : after.IsHidden p ↔ left.IsHidden p := by
  by_cases hmem : p ∈ left.interface
  · obtain ⟨b, hpair⟩ := h.exists_pair_left hmem
    exact iff_of_false (h.not_isHidden_of_joined (h.joined_pair hpair)) fun hhidden =>
      hhidden.2 hmem
  · rw [h.isHidden_iff_of_not_mem (mt (h.mem_interface_left hp).1 hmem), IsHidden,
      and_iff_left hmem, h.left_wellFormed.isFree_iff, h.isCopy.wellFormed.isFree_iff,
      and_iff_right hp, and_iff_right (h.isCopy.port_old h.left_wellFormed hp)]
    simp only [h.isCopy.joined_old_iff h.right_wellFormed h.left_wellFormed hp]

/-- The copies of hidden ports are hidden, and no other copies. -/
theorem isHidden_copy (hp : (right.port? p).isSome) :
    after.IsHidden (port p) ↔ right.IsHidden p := by
  by_cases hmem : p ∈ right.interface
  · obtain ⟨a, hpair⟩ := h.exists_pair_right hmem
    exact iff_of_false (h.not_isHidden_of_joined (h.joined_pair hpair).symm) fun hhidden =>
      hhidden.2 hmem
  · rw [h.isHidden_iff_of_not_mem (mt (h.mem_interface_copy hp).1 hmem), IsHidden,
      and_iff_left hmem, h.right_wellFormed.isFree_iff, h.isCopy.wellFormed.isFree_iff,
      and_iff_right hp, and_iff_right (h.isCopy.port_copy h.right_wellFormed hp)]
    simp [h.isCopy.joined_copy_iff h.right_wellFormed h.left_wellFormed hp]

/-- Every other port of the left net keeps its peer. -/
theorem peer?_left (hp : (left.port? p).isSome) (hmem : p ∉ left.interface) :
    after.peer? p = left.peer? p := by
  refine Option.ext fun q => ?_
  rw [h.wellFormed.peer?_eq_some_iff, h.left_wellFormed.peer?_eq_some_iff,
    h.joined_of_not_mem (mt (h.mem_interface_left hp).1 hmem),
    h.isCopy.joined_old_iff h.right_wellFormed h.left_wellFormed hp]

/-- The copy of every other port of the right net has the copy of its peer. -/
theorem peer?_copy (hp : (right.port? p).isSome) (hmem : p ∉ right.interface) :
    after.peer? (port p) = (right.peer? p).map port := by
  refine Option.ext fun q => ?_
  rw [h.wellFormed.peer?_eq_some_iff, h.joined_of_not_mem (mt (h.mem_interface_copy hp).1 hmem),
    h.isCopy.joined_copy_iff h.right_wellFormed h.left_wellFormed hp, Option.map_eq_some_iff]
  simp only [h.right_wellFormed.peer?_eq_some_iff]

/-! ### Connections -/

/-- The connections of the two nets side by side are still there. -/
theorem connection?_of_some {c : ConnectionId} {data : Connection}
    (hc : mid.connection? c = some data) : after.connection? c = some data := by
  obtain ⟨connections, hconnects⟩ := h.connects
  exact hconnects.connection?_of_some hc

/-- The ports of a pair get a connection of their own. -/
theorem exists_connection (hpair : (a, b) ∈ pairs) : ∃ c data, mid.connection? c = none ∧
    after.connection? c = some data ∧ data.ports = (a, port b) := by
  obtain ⟨connections, hconnects⟩ := h.connects
  exact hconnects.exists_connection (List.mem_map_of_mem hpair)

/-- Every new connection is for one of the pairs. -/
theorem exists_pair_of_connection {c : ConnectionId} {data : Connection}
    (hc : after.connection? c = some data) (hnew : mid.connection? c = none) :
    ∃ a b, (a, b) ∈ pairs ∧ data.ports = (a, port b) := by
  obtain ⟨connections, hconnects⟩ := h.connects
  rcases hconnects.connection_cases hc with hmid | hmem
  · rw [hnew] at hmid
    cases hmid
  · obtain ⟨⟨a, b⟩, hpair, heq⟩ := List.mem_map.1 hmem
    exact ⟨a, b, hpair, heq.symm⟩

/-- One new connection is made for every port on the left interface. -/
theorem exists_bijOn_made : ∃ made : PortId → ConnectionId,
    Set.BijOn made {a | a ∈ left.interface} (after.liveConnections \ mid.liveConnections) ∧
      ∀ a b, (a, b) ∈ pairs → ∃ data, after.connection? (made a) = some data ∧
        data.ports = (a, port b) := by
  have hmade : ∀ a ∈ left.interface, ∃ c, mid.connection? c = none ∧ ∃ data,
      after.connection? c = some data ∧ data.ports.1 = a := by
    intro a ha
    obtain ⟨b, hpair⟩ := h.exists_pair_left ha
    obtain ⟨c, data, hvacant, hc, hports⟩ := h.exists_connection hpair
    exact ⟨c, hvacant, data, hc, by rw [hports]⟩
  choose! made hvacant hlive using hmade
  -- a port is an end of one connection only, so the connection with the end `a` is that made for `a`
  have hunique : ∀ {a c data}, a ∈ left.interface → after.connection? c = some data →
      data.ports.1 = a → c = made a := by
    intro a c data ha hc hports
    obtain ⟨data', hc', hports'⟩ := hlive a ha
    exact (h.wellFormed.connection_unique hc (.inl hports.symm) hc' (.inl hports'.symm)).1
  refine ⟨made, ⟨fun a ha => ⟨?_, ?_⟩, fun a ha a' ha' heq => ?_, ?_⟩, fun a b hpair => ?_⟩
  · obtain ⟨data, hc, -⟩ := hlive a ha
    exact Option.isSome_of_mem hc
  · exact Option.not_isSome_iff_eq_none.2 (hvacant a ha)
  · obtain ⟨data, hc, hports⟩ := hlive a ha
    obtain ⟨data', hc', hports'⟩ := hlive a' ha'
    rw [heq, hc'] at hc
    rw [← hports, ← hports', Option.some.inj hc]
  · rintro c ⟨hc, hnew⟩
    obtain ⟨data, hdata⟩ := Option.isSome_iff_exists.1 hc
    obtain ⟨a, b, hpair, hports⟩ :=
      h.exists_pair_of_connection hdata (Option.not_isSome_iff_eq_none.1 hnew)
    exact ⟨a, h.mem_left hpair, (hunique (h.mem_left hpair) hdata (by rw [hports])).symm⟩
  · obtain ⟨c, data, -, hc, hports⟩ := h.exists_connection hpair
    obtain rfl := hunique (h.mem_left hpair) hc (by rw [hports])
    exact ⟨data, hc, hports⟩

end Plugs

end Net

end InteractionNets
