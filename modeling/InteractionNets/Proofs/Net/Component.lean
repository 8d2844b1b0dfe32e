import Mathlib.Logic.Relation
import InteractionNets.Proofs.Net.Preservation
import InteractionNets.Proofs.Net.Walk

/-!
# Components

The component of a port is all that can be reached from its agent. As a net of its own, with the
port alone on its interface, it has the agents and the joined ports of the whole net that can be
reached (`Net.IsComponent`). Every free port has a component (`Net.WellFormed.exists_isComponent`):
the agents that cannot be reached are taken out (`Net.keep`).
-/

namespace InteractionNets

open Relation

namespace Arena

variable {α : Type}

/-- Take out all values but some. -/
def retain (a : Arena α) (kept : α → Bool) : Arena α :=
  ((a.entries.filter fun entry => !kept entry.2).map Prod.fst).foldl erase a

theorem get?_retain_eq_some_iff {a : Arena α} {kept : α → Bool} {i : Nat} {v : α} :
    (a.retain kept).get? i = some v ↔ a.get? i = some v ∧ kept v := by
  have hmem : i ∈ (a.entries.filter fun entry => !kept entry.2).map Prod.fst ↔
      ∃ v, a.get? i = some v ∧ kept v = false := by
    simp [mem_entries_iff]
  rw [retain, get?_foldl_erase]
  split
  · rename_i hi
    obtain ⟨w, hw, hkept⟩ := hmem.1 hi
    simp only [hw, reduceCtorEq, Option.some.injEq, false_iff, not_and]
    rintro rfl
    simp [hkept]
  · rename_i hi
    refine (and_iff_left_of_imp fun hv => ?_).symm
    cases hkept : kept v with
    | true => rfl
    | false => exact absurd (hmem.2 ⟨v, hv, hkept⟩) hi

end Arena

namespace Net

/-- An agent can be reached from the agent of a port. -/
def Reaches (net : Net) (p : PortId) (a : AgentId) : Prop :=
  ∃ b, p ∈ net.portsOf b ∧ ReflTransGen net.Linked b a

/-- A net is the component of a port of another one, with the port alone as its boundary. -/
structure IsComponent (net : Net) (p : PortId) (part : Net) : Prop where
  wellFormed : part.WellFormed
  agent?_iff : ∀ {a data}, part.agent? a = some data ↔ net.agent? a = some data ∧ net.Reaches p a
  joined_iff : ∀ {q r}, part.Joined q r ↔
    net.Joined q r ∧ ∃ a, net.Reaches p a ∧ q ∈ net.portsOf a
  interface_eq : part.interface = [p]

variable {net : Net} {kept : List AgentId} {p : PortId}

theorem Reaches.linked {a b : AgentId} (ha : net.Reaches p a) (hab : net.Linked a b) :
    net.Reaches p b := by
  obtain ⟨c, hp, hca⟩ := ha
  exact ⟨c, hp, hca.tail hab⟩

/-! ### Keeping some of the agents -/

/-- The net of some agents, with an interface. All other agents are taken out, with their ports and
connections. -/
def keep (net : Net) (kept : List AgentId) (interface : Interface) : Net where
  agents := net.agents.retain (·.id ∈ kept)
  ports := net.ports.retain (·.agent ∈ kept)
  connections := net.connections.retain (·.agents.1 ∈ kept)
  interface := interface
  tally := net.tally

variable {interface : Interface}

theorem port?_keep {q : PortId} {port : Port} : (net.keep kept interface).port? q = some port ↔
    net.port? q = some port ∧ port.agent ∈ kept :=
  Arena.get?_retain_eq_some_iff.trans (and_congr_right fun _ => decide_eq_true_iff)

theorem connection?_keep {c : ConnectionId} {data : Connection} :
    (net.keep kept interface).connection? c = some data ↔
      net.connection? c = some data ∧ data.agents.1 ∈ kept :=
  Arena.get?_retain_eq_some_iff.trans (and_congr_right fun _ => decide_eq_true_iff)

namespace WellFormed

variable (h : net.WellFormed)

include h

theorem agent?_keep {a : AgentId} {data : Agent} : (net.keep kept interface).agent? a = some data ↔
    net.agent? a = some data ∧ a ∈ kept := by
  refine Arena.get?_retain_eq_some_iff.trans (and_congr_right fun ha => ?_)
  rw [decide_eq_true_iff, h.agent_id ha]

theorem portsOf_keep (a : AgentId) :
    (net.keep kept interface).portsOf a = if a ∈ kept then net.portsOf a else [] := by
  split
  · rename_i ha
    cases hdata : net.agent? a with
    | some data => rw [portsOf_eq hdata, portsOf_eq (h.agent?_keep.2 ⟨hdata, ha⟩)]
    | none =>
      rw [portsOf_eq_nil hdata]
      refine portsOf_eq_nil (Option.eq_none_iff_forall_ne_some.2 fun data hkept => ?_)
      cases hdata.symm.trans (h.agent?_keep.1 hkept).1
  · rename_i ha
    exact portsOf_eq_nil (Option.eq_none_iff_forall_ne_some.2 fun data hkept =>
      ha (h.agent?_keep.1 hkept).2)

/-- The recorded agents at the ends of a connection are linked. -/
theorem linked_of_connection? {c : ConnectionId} {data : Connection}
    (hdata : net.connection? c = some data) : net.Linked data.agents.1 data.agents.2 := by
  obtain ⟨port₁, h₁, -, hagent₁⟩ := h.port_of_end hdata (.inl ⟨rfl, rfl⟩)
  obtain ⟨port₂, h₂, -, hagent₂⟩ := h.port_of_end hdata (.inr ⟨rfl, rfl⟩)
  refine ⟨_, List.mem_of_getElem? (hagent₁ ▸ h.agent_of_port h₁), _,
    List.mem_of_getElem? (hagent₂ ▸ h.agent_of_port h₂), c, data, hdata, .inl rfl⟩

variable (hclosed : ∀ {a b}, a ∈ kept → net.Linked a b → b ∈ kept)

include hclosed

theorem mem_kept_of_hasEnd {c : ConnectionId} {data : Connection}
    (hdata : net.connection? c = some data) {q : PortId} {a : AgentId} (hend : data.HasEnd q a) :
    data.agents.1 ∈ kept ↔ a ∈ kept := by
  rcases hend with ⟨-, rfl⟩ | ⟨-, rfl⟩
  · exact .rfl
  · have hlinked := h.linked_of_connection? hdata
    exact ⟨fun hmem => hclosed hmem hlinked, fun hmem => hclosed hmem hlinked.symm⟩

/-- Agents that are linked to no others make up a well-formed net, with one free port of theirs. -/
theorem keep (hp : net.IsFree p) (hown : ∃ a ∈ kept, p ∈ net.portsOf a) :
    (net.keep kept [p]).WellFormed where
  agent_id ha := h.agent_id (h.agent?_keep.1 ha).1
  port_id hport := h.port_id (port?_keep.1 hport).1
  connection_id hc := h.connection_id (connection?_keep.1 hc).1
  arity ha := h.arity (h.agent?_keep.1 ha).1
  port_of_agent {a q k} hk := by
    rw [h.portsOf_keep] at hk
    split at hk
    · rename_i ha
      obtain ⟨port, hport, rfl, hplace⟩ := h.port_of_agent hk
      exact ⟨port, port?_keep.2 ⟨hport, ha⟩, rfl, hplace⟩
    · cases hk
  agent_of_port hport := by
    obtain ⟨hport, ha⟩ := port?_keep.1 hport
    rw [h.portsOf_keep, if_pos ha]
    exact h.agent_of_port hport
  ends_ne hc := h.ends_ne (connection?_keep.1 hc).1
  port_of_end hc hend := by
    obtain ⟨hc, ha⟩ := connection?_keep.1 hc
    obtain ⟨port, hport, hlink, rfl⟩ := h.port_of_end hc hend
    exact ⟨port, port?_keep.2 ⟨hport, (h.mem_kept_of_hasEnd hclosed hc hend).1 ha⟩, hlink, rfl⟩
  end_of_link hport hlink := by
    obtain ⟨hport, ha⟩ := port?_keep.1 hport
    obtain ⟨data, hc, hend⟩ := h.end_of_link hport hlink
    exact ⟨data, connection?_keep.2 ⟨hc, (h.mem_kept_of_hasEnd hclosed hc hend).2 ha⟩, hend⟩
  interface_nodup := List.nodup_singleton p
  port_of_interface hq := by
    obtain rfl := List.mem_singleton.1 hq
    obtain ⟨port, hport, hlink⟩ := hp
    obtain ⟨a, ha, hmem⟩ := hown
    obtain rfl := h.agent_unique hmem (List.mem_of_getElem? (h.agent_of_port hport))
    exact ⟨port, port?_keep.2 ⟨hport, ha⟩, hlink⟩

theorem joined_keep {q r : PortId} : (net.keep kept interface).Joined q r ↔
    net.Joined q r ∧ ∃ a ∈ kept, q ∈ net.portsOf a := by
  have hends : ∀ {c data}, net.connection? c = some data →
      data.ports = (q, r) ∨ data.ports = (r, q) → ∃ a, data.HasEnd q a ∧ q ∈ net.portsOf a := by
    intro c data hc hqr
    have hend : ∃ a, data.HasEnd q a := by
      rcases hqr with hqr | hqr
      · exact ⟨_, .inl ⟨by rw [hqr], rfl⟩⟩
      · exact ⟨_, .inr ⟨by rw [hqr], rfl⟩⟩
    obtain ⟨a, hend⟩ := hend
    obtain ⟨port, hport, -, rfl⟩ := h.port_of_end hc hend
    exact ⟨_, hend, List.mem_of_getElem? (h.agent_of_port hport)⟩
  constructor
  · rintro ⟨c, data, hc, hqr⟩
    obtain ⟨hc, ha⟩ := connection?_keep.1 hc
    obtain ⟨a, hend, hq⟩ := hends hc hqr
    exact ⟨⟨c, data, hc, hqr⟩, a, (h.mem_kept_of_hasEnd hclosed hc hend).1 ha, hq⟩
  · rintro ⟨⟨c, data, hc, hqr⟩, a, ha, hq⟩
    obtain ⟨b, hend, hq'⟩ := hends hc hqr
    obtain rfl := h.agent_unique hq hq'
    exact ⟨c, data, connection?_keep.2 ⟨hc, (h.mem_kept_of_hasEnd hclosed hc hend).2 ha⟩, hqr⟩

omit hclosed in
/-- **Every free port has a component.** -/
theorem exists_isComponent (hp : net.IsFree p) : ∃ part, net.IsComponent p part := by
  obtain ⟨port, hport, -⟩ := id hp
  have hat := h.agent_of_port hport
  obtain ⟨kept, -, hnumbers, hclosed⟩ := h.walk_spec [p] (List.nodup_singleton port.agent)
    fun a ha => List.mem_singleton.1 ha ▸ isSome_agent?_of_getElem? hat
  have hmem : ∀ a, a ∈ kept ↔ net.Reaches p a := by
    intro a
    -- the walk finds the least set of agents that has the first one and all that are linked to it
    constructor
    · refine hnumbers.least (fun ha hab => ha.linked hab) (fun b hb => ?_) a
      obtain rfl := List.mem_singleton.1 hb
      exact ⟨_, List.mem_of_getElem? hat, .refl⟩
    · rintro ⟨b, hb, hba⟩
      obtain rfl := h.agent_unique hb (List.mem_of_getElem? hat)
      induction hba with
      | refl => exact hnumbers.initial.subset (List.mem_singleton_self _)
      | tail _ hab ih => exact hclosed _ ih _ hab
  have hown : ∃ a ∈ kept, p ∈ net.portsOf a :=
    ⟨_, hnumbers.initial.subset (List.mem_singleton_self _), List.mem_of_getElem? hat⟩
  refine ⟨net.keep kept [p], h.keep (fun ha hab => hclosed _ ha _ hab) hp hown, ?_, ?_, rfl⟩
  · intro a data
    rw [h.agent?_keep, hmem]
  · intro q r
    rw [h.joined_keep fun ha hab => hclosed _ ha _ hab]
    simp only [hmem]

end WellFormed

end Net

end InteractionNets
