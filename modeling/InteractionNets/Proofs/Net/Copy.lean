import InteractionNets.Net.Inject
import InteractionNets.Proofs.Net.Preservation

/-!
# Copies of nets

Copying a net into a host leaves the host as it is and adds agents, ports and connections under ids
that were not live. `Net.IsCopy` says so: it names the copy of each agent and of each port, and
describes the net that results.
-/

namespace InteractionNets

namespace Net

/-! ### Copying agents -/

/-- Some agents have been copied into a host, and nothing else has changed. -/
structure CopiesList (agents : List Agent) (host after : Net) (copy : AgentId → AgentId) :
    Prop where
  wellFormed : after.WellFormed
  /-- The copies have ids that were not live. -/
  fresh : ∀ a ∈ agents, host.agent? (copy a.id) = none
  /-- Different agents have different copies. -/
  injective : ∀ a ∈ agents, ∀ b ∈ agents, copy a.id = copy b.id → a.id = b.id
  /-- A copy has the symbol of its agent. -/
  agent_copy : ∀ a ∈ agents, ∃ ports,
    after.agent? (copy a.id) = some ⟨copy a.id, a.symbol, ports⟩
  /-- Every other agent is as before. -/
  agent_old : ∀ {x}, (∀ a ∈ agents, x ≠ copy a.id) → after.agent? x = host.agent? x
  connections : after.connections = host.connections
  interface : after.interface = host.interface
  tally : after.tally = host.tally

/-- Naming the copy of one agent does not change the names of the copies of others. -/
private theorem update_of_mem {agent a : Agent} {rest : List Agent}
    (hid : agent.id ∉ rest.map Agent.id) (copy : AgentId → AgentId) (x : AgentId) (ha : a ∈ rest) :
    Function.update copy agent.id x a.id = copy a.id := by
  refine Function.update_of_ne (fun heq => hid ?_) x copy
  exact heq ▸ List.mem_map_of_mem ha

namespace CopiesList

variable {agent : Agent} {rest : List Agent} {host after : Net} {copy : AgentId → AgentId}
  (h : CopiesList rest (host.allocAgent agent.symbol).2 after copy)

include h

/-- The first copy is live when the others are made, so they get other ids. -/
theorem nextAgent_ne {a : Agent} (ha : a ∈ rest) : host.nextAgent ≠ copy a.id := by
  intro heq
  have hfresh := h.fresh a ha
  rw [← heq, agent?_allocAgent] at hfresh
  simp at hfresh

/-- The first copy is still there when the others have been made. -/
theorem agent?_nextAgent : after.agent? host.nextAgent =
    some ⟨host.nextAgent, agent.symbol, host.nextPorts agent.symbol⟩ := by
  rw [h.agent_old fun a ha => h.nextAgent_ne ha, agent?_allocAgent, if_pos rfl]

/-- An agent is copied before the rest. -/
theorem cons (hid : agent.id ∉ rest.map Agent.id) :
    CopiesList (agent :: rest) host after (Function.update copy agent.id host.nextAgent) := by
  have hself : Function.update copy agent.id host.nextAgent agent.id = host.nextAgent :=
    Function.update_self ..
  have hrest : ∀ a ∈ rest, Function.update copy agent.id host.nextAgent a.id = copy a.id :=
    fun a ha => update_of_mem hid copy host.nextAgent ha
  constructor
  case wellFormed => exact h.wellFormed
  case fresh =>
    rintro a (_ | ⟨_, ha⟩)
    · rw [hself]
      exact host.agent?_nextAgent
    · have hfresh := h.fresh a ha
      rw [agent?_allocAgent, if_neg (h.nextAgent_ne ha).symm] at hfresh
      rwa [hrest a ha]
  case injective =>
    rintro a (_ | ⟨_, ha⟩) b (_ | ⟨_, hb⟩) heq
    · rfl
    · rw [hself, hrest b hb] at heq
      exact absurd heq (h.nextAgent_ne hb)
    · rw [hself, hrest a ha] at heq
      exact absurd heq.symm (h.nextAgent_ne ha)
    · rw [hrest a ha, hrest b hb] at heq
      exact h.injective a ha b hb heq
  case agent_copy =>
    rintro a (_ | ⟨_, ha⟩)
    · rw [hself]
      exact ⟨_, h.agent?_nextAgent⟩
    · rw [hrest a ha]
      exact h.agent_copy a ha
  case agent_old =>
    intro x hx
    have hxfirst : x ≠ host.nextAgent := hself ▸ hx agent List.mem_cons_self
    have hxrest : ∀ a ∈ rest, x ≠ copy a.id :=
      fun a ha => hrest a ha ▸ hx a (List.mem_cons_of_mem _ ha)
    rw [h.agent_old hxrest, agent?_allocAgent, if_neg hxfirst]
  case connections => exact h.connections
  case interface => exact h.interface
  case tally => exact h.tally

end CopiesList

/-! ### Port maps -/

/-- What a port map sends a port to; it matters only for the ports that the map lists. -/
def copyOf (map : PortMap) (p : PortId) : PortId :=
  (map.lookup p).getD 0

theorem copyOf_eq {map : PortMap} {p q : PortId} (h : map.lookup p = some q) :
    copyOf map p = q := by
  simp [copyOf, h]

/-- The port map that pairs the ports of each of some agents with those of its copy. -/
def portMap (agents : List Agent) (copies : Agent → List PortId) : PortMap :=
  agents.flatMap fun a => a.ports.zip (copies a)

section PortMap

variable {agents : List Agent} {copies : Agent → List PortId}
  (hnodup : (agents.flatMap Agent.ports).Nodup)
  (hlength : ∀ a ∈ agents, a.ports.length = (copies a).length) {a : Agent} (ha : a ∈ agents)

include hnodup hlength ha

theorem lookup_portMap {k : Nat} {p : PortId} (hk : a.ports[k]? = some p) :
    (portMap agents copies).lookup p = (copies a)[k]? := by
  have hkeys : (portMap agents copies).map Prod.fst = agents.flatMap Agent.ports := by
    rw [portMap, List.map_flatMap]
    exact List.flatMap_congr fun b hb => List.map_fst_zip (Nat.le_of_eq (hlength b hb))
  obtain ⟨hlt, -⟩ := List.getElem?_eq_some_iff.1 hk
  have hlt' := hlength a ha ▸ hlt
  rw [List.getElem?_eq_getElem hlt', lookup_eq_some_iff_mem (hkeys ▸ hnodup), portMap,
    List.mem_flatMap]
  refine ⟨a, ha, List.mem_iff_getElem?.2 ⟨k, ?_⟩⟩
  rw [List.getElem?_zip_eq_some]
  exact ⟨hk, List.getElem?_eq_getElem hlt'⟩

/-- A port of one of the agents is listed. -/
theorem lookup_portMap_eq_copyOf {p : PortId} (hp : p ∈ a.ports) :
    (portMap agents copies).lookup p = some (copyOf (portMap agents copies) p) := by
  obtain ⟨k, hk⟩ := List.mem_iff_getElem?.1 hp
  obtain ⟨hlt, -⟩ := List.getElem?_eq_some_iff.1 hk
  have hlookup := lookup_portMap hnodup hlength ha hk
  rw [List.getElem?_eq_getElem (hlength a ha ▸ hlt)] at hlookup
  rw [copyOf_eq hlookup, hlookup]

theorem map_copyOf_portMap : a.ports.map (copyOf (portMap agents copies)) = copies a := by
  refine List.ext_getElem? fun k => ?_
  rw [List.getElem?_map]
  cases hk : a.ports[k]? with
  | none =>
    rw [List.getElem?_eq_none_iff, hlength a ha] at hk
    rw [List.getElem?_eq_none hk]
    rfl
  | some p =>
    rw [← lookup_portMap hnodup hlength ha hk,
      lookup_portMap_eq_copyOf hnodup hlength ha (List.mem_of_getElem? hk)]
    rfl

end PortMap

/-- Copies of some agents can be made in any well-formed net, and the port map pairs the ports of
each agent with those of its copy. -/
theorem copiesList_copyAgents {agents : List Agent} {host : Net} (hhost : host.WellFormed)
    (hids : (agents.map Agent.id).Nodup) :
    ∃ copy, CopiesList agents host (copyAgents agents host).2 copy ∧
      (copyAgents agents host).1 =
        portMap agents fun a => (copyAgents agents host).2.portsOf (copy a.id) := by
  induction agents generalizing host with
  | nil =>
    refine ⟨id, ?_, rfl⟩
    constructor <;> simp [copyAgents, hhost]
  | cons agent rest ih =>
    obtain ⟨hid, hids⟩ := List.nodup_cons.1 hids
    obtain ⟨copy, hcopy, hmap⟩ := ih (hhost.allocAgent agent.symbol) hids
    refine ⟨Function.update copy agent.id host.nextAgent, hcopy.cons hid, ?_⟩
    have hrest : (copyAgents rest (host.allocAgent agent.symbol).2).1 =
        portMap rest fun a => (copyAgents (agent :: rest) host).2.portsOf
          (Function.update copy agent.id host.nextAgent a.id) := by
      rw [hmap]
      refine List.flatMap_congr fun a ha => ?_
      beta_reduce
      rw [update_of_mem hid copy host.nextAgent ha]
      rfl
    have hhead : (host.allocAgent agent.symbol).2.portsOf (host.allocAgent agent.symbol).1 =
        (copyAgents (agent :: rest) host).2.portsOf
          (Function.update copy agent.id host.nextAgent agent.id) := by
      rw [Function.update_self, fst_allocAgent, portsOf_nextAgent]
      exact (portsOf_eq hcopy.agent?_nextAgent).symm
    rw [portMap, List.flatMap_cons, ← portMap, ← hrest, ← hhead]
    rfl

/-! ### Copying nets -/

/-- A net `after` has the agents of a host, unchanged, and copies of the agents of another net:
`copy` and `port` name the copies of the agents and of their ports. -/
structure CopiesAgents (other host after : Net) (copy : AgentId → AgentId)
    (port : PortId → PortId) : Prop where
  wellFormed : after.WellFormed
  /-- The copies have ids that were not live in the host. -/
  fresh : ∀ {a}, (other.agent? a).isSome → host.agent? (copy a) = none
  /-- Different agents have different copies. -/
  injective : ∀ {a b}, (other.agent? a).isSome → (other.agent? b).isSome → copy a = copy b → a = b
  /-- A copy has the symbol of its agent and the copies of its ports. -/
  agent_copy : ∀ {a data}, other.agent? a = some data →
    after.agent? (copy a) = some ⟨copy a, data.symbol, data.ports.map port⟩
  /-- Every other agent belongs to the host. -/
  agent_old : ∀ {x}, (∀ a, (other.agent? a).isSome → x ≠ copy a) → after.agent? x = host.agent? x

/-- A net `after` consists of a host, unchanged, and a copy of another net. -/
structure IsCopy (other host after : Net) (copy : AgentId → AgentId) (port : PortId → PortId) :
    Prop extends CopiesAgents other host after copy port where
  /-- The connections of the host are still there. -/
  connection_old : ∀ {c data}, host.connection? c = some data → after.connection? c = some data
  /-- Ports are joined as they are in the host, and copies as their ports are. -/
  joined : ∀ {p q}, after.Joined p q ↔
    host.Joined p q ∨ ∃ p₀ q₀, other.Joined p₀ q₀ ∧ port p₀ = p ∧ port q₀ = q

namespace CopiesAgents

variable {other host after : Net} {copy : AgentId → AgentId} {port : PortId → PortId}
  (h : CopiesAgents other host after copy port)

include h

theorem agent_old_of_some {x : AgentId} {data : Agent} (hx : host.agent? x = some data) :
    after.agent? x = some data := by
  rw [h.agent_old fun a ha => agent_ne_of_eq_none (by rw [hx]; rfl) (h.fresh ha), hx]

theorem portsOf_old {x : AgentId} (hx : (host.agent? x).isSome) :
    after.portsOf x = host.portsOf x := by
  obtain ⟨data, hdata⟩ := Option.isSome_iff_exists.1 hx
  rw [portsOf_eq hdata, portsOf_eq (h.agent_old_of_some hdata)]

theorem portsOf_copy {a : AgentId} (ha : (other.agent? a).isSome) :
    after.portsOf (copy a) = (other.portsOf a).map port := by
  obtain ⟨data, hdata⟩ := Option.isSome_iff_exists.1 ha
  rw [portsOf_eq (h.agent_copy hdata), portsOf_eq hdata]

/-- A copied port stands on the copied agent, at the same position. -/
theorem getElem?_portsOf_copy {a : AgentId} {k : Nat} {p : PortId}
    (hk : (other.portsOf a)[k]? = some p) : (after.portsOf (copy a))[k]? = some (port p) := by
  rw [h.portsOf_copy (isSome_agent?_of_getElem? hk), List.getElem?_map, hk]
  rfl

/-- Different ports have different copies. -/
theorem port_injective (hother : other.WellFormed) {p q : PortId} (hp : (other.port? p).isSome)
    (hq : (other.port? q).isSome) (heq : port p = port q) : p = q := by
  obtain ⟨a, i, hi⟩ := hother.port?_isSome_iff.1 hp
  obtain ⟨b, j, hj⟩ := hother.port?_isSome_iff.1 hq
  have hci := h.getElem?_portsOf_copy hi
  have hcj := h.getElem?_portsOf_copy hj
  rw [heq] at hci
  obtain ⟨hab, rfl⟩ := h.wellFormed.port_unique hci hcj
  obtain rfl := h.injective (isSome_agent?_of_getElem? hi) (isSome_agent?_of_getElem? hj) hab
  rw [hi] at hj
  exact Option.some.inj hj

/-- The copies of ports are live. -/
theorem port_copy (hother : other.WellFormed) {p : PortId} (hp : (other.port? p).isSome) :
    (after.port? (port p)).isSome := by
  obtain ⟨a, k, hk⟩ := hother.port?_isSome_iff.1 hp
  exact h.wellFormed.port?_isSome_iff.2 ⟨_, k, h.getElem?_portsOf_copy hk⟩

/-- The ports of the host are still live. -/
theorem port_old (hhost : host.WellFormed) {p : PortId} (hp : (host.port? p).isSome) :
    (after.port? p).isSome := by
  obtain ⟨a, k, hk⟩ := hhost.port?_isSome_iff.1 hp
  refine h.wellFormed.port?_isSome_iff.2 ⟨a, k, ?_⟩
  rwa [h.portsOf_old (isSome_agent?_of_getElem? hk)]

/-- The copies of ports have ids that were not live in the host. -/
theorem port_fresh (hother : other.WellFormed) (hhost : host.WellFormed) {p : PortId}
    (hp : (other.port? p).isSome) : host.port? (port p) = none := by
  obtain ⟨a, k, hk⟩ := hother.port?_isSome_iff.1 hp
  have ha := isSome_agent?_of_getElem? hk
  rw [← Option.not_isSome_iff_eq_none]
  intro hlive
  obtain ⟨x, j, hj⟩ := hhost.port?_isSome_iff.1 hlive
  have hx := isSome_agent?_of_getElem? hj
  rw [← h.portsOf_old hx] at hj
  obtain ⟨rfl, -⟩ := h.wellFormed.port_unique hj (h.getElem?_portsOf_copy hk)
  simp [h.fresh ha] at hx

end CopiesAgents

namespace IsCopy

variable {other host after : Net} {copy : AgentId → AgentId} {port : PortId → PortId}
  (h : IsCopy other host after copy port)

include h

/-- Ports of the host are joined to what they are joined to in the host. -/
theorem joined_old_iff (hother : other.WellFormed) (hhost : host.WellFormed) {p q : PortId}
    (hp : (host.port? p).isSome) : after.Joined p q ↔ host.Joined p q := by
  refine ⟨fun hpq => (h.joined.1 hpq).resolve_right ?_, fun hpq => h.joined.2 (.inl hpq)⟩
  rintro ⟨p₀, q₀, hcopied, rfl, -⟩
  simp [h.port_fresh hother hhost (hother.isSome_of_joined hcopied)] at hp

/-- Copies of ports are joined to the copies of what the ports are joined to. -/
theorem joined_copy_iff (hother : other.WellFormed) (hhost : host.WellFormed) {p q : PortId}
    (hp : (other.port? p).isSome) :
    after.Joined (port p) q ↔ ∃ q₀, other.Joined p q₀ ∧ port q₀ = q := by
  refine ⟨fun hpq => ?_, fun ⟨q₀, hpq, heq⟩ => h.joined.2 (.inr ⟨p, q₀, hpq, rfl, heq⟩)⟩
  rcases h.joined.1 hpq with hold | ⟨p₀, q₀, hcopied, heq, hq⟩
  · have hlive := hhost.isSome_of_joined hold
    simp [h.port_fresh hother hhost hp] at hlive
  · obtain rfl := h.port_injective hother (hother.isSome_of_joined hcopied) hp heq
    exact ⟨q₀, hcopied, hq⟩

/-- Free ports of the host are still free. -/
theorem isFree_old (hother : other.WellFormed) (hhost : host.WellFormed) {p : PortId}
    (hp : host.IsFree p) : after.IsFree p := by
  obtain ⟨hlive, hnone⟩ := hhost.isFree_iff.1 hp
  refine h.wellFormed.isFree_iff.2 ⟨h.port_old hhost hlive, fun q hpq => ?_⟩
  exact hnone q ((h.joined_old_iff hother hhost hlive).1 hpq)

/-- The copies of free ports are free. -/
theorem isFree_copy (hother : other.WellFormed) (hhost : host.WellFormed) {p : PortId}
    (hp : other.IsFree p) : after.IsFree (port p) := by
  obtain ⟨hlive, hnone⟩ := hother.isFree_iff.1 hp
  refine h.wellFormed.isFree_iff.2 ⟨h.port_copy hother hlive, fun q hpq => ?_⟩
  obtain ⟨q₀, hcopied, -⟩ := (h.joined_copy_iff hother hhost hlive).1 hpq
  exact hnone q₀ hcopied

/-- The copied interface has no port in common with the host's. -/
theorem nodup_interfaces (hother : other.WellFormed) (hhost : host.WellFormed) :
    (host.interface ++ other.interface.map port).Nodup := by
  refine List.nodup_append.2 ⟨hhost.interface_nodup, ?_, ?_⟩
  · refine hother.interface_nodup.map_on fun p hp q hq heq => ?_
    exact h.port_injective hother (hother.isSome_of_mem_interface hp)
      (hother.isSome_of_mem_interface hq) heq
  · rintro _ hp _ hmem rfl
    obtain ⟨q, hq, rfl⟩ := List.mem_map.1 hmem
    have := hhost.isSome_of_mem_interface hp
    simp [h.port_fresh hother hhost (hother.isSome_of_mem_interface hq)] at this

theorem isFree_of_mem_interfaces (hother : other.WellFormed) (hhost : host.WellFormed)
    {p : PortId} (hp : p ∈ host.interface ++ other.interface.map port) : after.IsFree p := by
  rcases List.mem_append.1 hp with hp | hp
  · exact h.isFree_old hother hhost (hhost.isFree_of_mem_interface hp)
  · obtain ⟨q, hq, rfl⟩ := List.mem_map.1 hp
    exact h.isFree_copy hother hhost (hother.isFree_of_mem_interface hq)

end IsCopy

theorem IsCopy.withInterface {other host after : Net} {copy : AgentId → AgentId}
    {port : PortId → PortId} (h : IsCopy other host after copy port) {interface : Interface}
    (hnodup : interface.Nodup) (hfree : ∀ p ∈ interface, after.IsFree p) (tally : Tally) :
    IsCopy other host { after with interface, tally } copy port where
  wellFormed := (h.wellFormed.withInterface hnodup hfree).withTally tally
  fresh := h.fresh
  injective := h.injective
  agent_copy := h.agent_copy
  agent_old := h.agent_old
  connection_old := h.connection_old
  joined := h.joined

end Net

end InteractionNets
