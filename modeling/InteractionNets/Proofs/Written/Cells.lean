import Mathlib.Data.List.Perm.Basic
import InteractionNets.Proofs.Net.Copying
import InteractionNets.Proofs.Net.Decoding

/-!
# Nets written down as cells

A net can be written down without ids. Its ports get names, two of them the same name exactly when
they are joined (`Net.IsNaming`), and a list of cells says which agents there are and how their
ports are called. The order of the cells does not matter, and neither does the choice of the names
(`Net.Written.perm`, `Net.Written.rename`). Nets that can be written down in the same way are
isomorphic (`Net.Written.isomorphic`).
-/

namespace InteractionNets

/-- An agent as it is written down: its symbol and the names of its ports. -/
structure Cell (N : Type) where
  symbol : Symbol
  wires : List N
deriving DecidableEq

namespace Cell

variable {N M : Type}

/-- The cell with other names. -/
def map (f : N → M) (cell : Cell N) : Cell M :=
  ⟨cell.symbol, cell.wires.map f⟩

/-- An agent whose ports have names. -/
def of (name : PortId → N) (agent : Agent) : Cell N :=
  ⟨agent.symbol, agent.ports.map name⟩

theorem map_of (f : N → M) (name : PortId → N) (agent : Agent) :
    (of name agent).map f = of (f ∘ name) agent := by
  rw [map, of, of, List.map_map]

@[simp] theorem map_id (cell : Cell N) : cell.map id = cell := by
  rw [map, List.map_id]

end Cell

variable {N M : Type}

/-- The names in some cells, each as often as it occurs. -/
def wiresOf (cells : List (Cell N)) : List N :=
  cells.flatMap Cell.wires

@[simp] theorem wiresOf_nil : wiresOf ([] : List (Cell N)) = [] := rfl

@[simp] theorem wiresOf_cons (cell : Cell N) (cells : List (Cell N)) :
    wiresOf (cell :: cells) = cell.wires ++ wiresOf cells := rfl

@[simp] theorem wiresOf_append (cells cells' : List (Cell N)) :
    wiresOf (cells ++ cells') = wiresOf cells ++ wiresOf cells' :=
  List.flatMap_append

theorem wiresOf_map (f : N → M) (cells : List (Cell N)) :
    wiresOf (cells.map (Cell.map f)) = (wiresOf cells).map f := by
  rw [wiresOf, List.flatMap_map, wiresOf, List.map_flatMap]
  rfl

theorem mem_wiresOf_of_mem {cell : Cell N} {cells : List (Cell N)} (hcell : cell ∈ cells) {n : N}
    (hn : n ∈ cell.wires) : n ∈ wiresOf cells :=
  List.mem_flatMap.2 ⟨cell, hcell, hn⟩

/-- Names can be changed that do not occur. -/
theorem map_cells_eq_self {cells : List (Cell N)} {f : N → N} (hf : ∀ n ∈ wiresOf cells, f n = n) :
    cells.map (Cell.map f) = cells := by
  refine (List.map_congr_left fun cell hcell => ?_).trans (List.map_id cells)
  have hwires : cell.wires.map f = cell.wires.map id :=
    List.map_congr_left fun n hn => hf n (mem_wiresOf_of_mem hcell hn)
  rw [Cell.map, hwires, List.map_id]
  rfl

namespace Net

/-- Ports have the same name exactly when they are equal or joined. -/
def IsNaming (net : Net) (name : PortId → N) : Prop :=
  ∀ {p q}, (net.port? p).isSome → (net.port? q).isSome →
    (name p = name q ↔ p = q ∨ net.Joined p q)

theorem IsNaming.joined_iff {net : Net} {name : PortId → N} (hname : net.IsNaming name)
    (h : net.WellFormed) {p q : PortId} (hp : (net.port? p).isSome) (hq : (net.port? q).isSome) :
    net.Joined p q ↔ p ≠ q ∧ name p = name q := by
  rw [hname hp hq]
  constructor
  · exact fun hpq => ⟨h.joined_ne hpq, .inr hpq⟩
  · rintro ⟨hne, heq | hpq⟩
    · exact absurd heq hne
    · exact hpq

theorem IsNaming.eq_of_joined {net : Net} {name : PortId → N} (hname : net.IsNaming name)
    (h : net.WellFormed) {p q : PortId} (hpq : net.Joined p q) : name p = name q :=
  (hname (h.isSome_of_joined hpq) (h.isSome_of_joined hpq.symm)).2 (.inr hpq)

/-- Every well-formed net has a naming. -/
theorem WellFormed.exists_isNaming {net : Net} (h : net.WellFormed) :
    ∃ name : PortId → Nat, net.IsNaming name := by
  -- a port and the one it is joined to are both named after the smaller id
  let name : PortId → Nat := fun p => min p ((net.peer? p).getD p)
  have hname : ∀ {p q}, net.Joined p q → name p = min p q := fun hpq => by
    simp only [name, h.peer?_eq_some_iff.2 hpq, Option.getD_some]
  have hself : ∀ p, p = name p ∨ net.Joined p (name p) := by
    intro p
    cases hp : net.peer? p with
    | none => exact .inl (by simp only [name, hp, Option.getD_none, Nat.min_self])
    | some q =>
      have hpq := h.peer?_eq_some_iff.1 hp
      rw [hname hpq]
      rcases Nat.le_total p q with hle | hle
      · exact .inl (Nat.min_eq_left hle).symm
      · exact .inr (by rwa [Nat.min_eq_right hle])
  refine ⟨name, fun {p q} _ _ => ⟨fun heq => ?_, ?_⟩⟩
  · rcases hself p with hp | hp <;> rcases hself q with hq | hq
    · exact .inl (hp.trans (heq.trans hq.symm))
    · exact .inr (by rw [hp, heq]; exact hq.symm)
    · exact .inr (by rw [hq, ← heq]; exact hp)
    · exact .inl (h.joined_unique hp.symm (heq ▸ hq.symm))
  · rintro (rfl | hpq)
    · rfl
    · rw [hname hpq, hname hpq.symm, Nat.min_comm]

/-- A well-formed net consists of some cells, and the ports on its interface have the given names,
when its ports are named in some way. -/
structure Written (net : Net) (cells : List (Cell N)) (free : List N) : Prop where
  wellFormed : net.WellFormed
  exists_agents : ∃ (name : PortId → N) (agents : List Agent), net.IsNaming name ∧
    net.agentList.Perm agents ∧ agents.map (.of name) = cells ∧ net.interface.map name = free

variable {net other : Net} {cells : List (Cell N)} {free : List N}

theorem wiresOf_map_of (name : PortId → N) (agents : List Agent) :
    wiresOf (agents.map (.of name)) = (agents.flatMap Agent.ports).map name := by
  rw [wiresOf, List.flatMap_map, List.map_flatMap]
  rfl

/-- The agents of a net are counted. -/
theorem size_agents_eq {agents : List Agent} (hagents : net.agentList.Perm agents) :
    net.agents.size = agents.length := by
  rw [← hagents.length_eq, agentList, Arena.values_eq_map_entries, List.length_map,
    Arena.length_entries]

namespace WellFormed

/-- Different agents that are all the agents are the listed ones. -/
theorem perm_agents (h : net.WellFormed) {agents : List Agent}
    (hnodup : (agents.map Agent.id).Nodup)
    (hmem : ∀ {data}, data ∈ agents ↔ net.agent? data.id = some data) :
    net.agentList.Perm agents := by
  refine (List.perm_ext_iff_of_nodup (.of_map _ h.nodup_map_id_agentList) (.of_map _ hnodup)).2 ?_
  intro data
  rw [h.mem_agentList_iff, hmem]

variable (h : net.WellFormed) {agents : List Agent} (hagents : net.agentList.Perm agents)

include h hagents

theorem mem_agents_iff {data : Agent} : data ∈ agents ↔ net.agent? data.id = some data := by
  rw [← hagents.mem_iff, h.mem_agentList_iff]

theorem nodup_map_id : (agents.map Agent.id).Nodup :=
  (hagents.map Agent.id).nodup_iff.1 h.nodup_map_id_agentList

theorem mem_map_id_iff {a : AgentId} : a ∈ agents.map Agent.id ↔ (net.agent? a).isSome := by
  rw [← (hagents.map Agent.id).mem_iff, h.map_id_agentList, Arena.mem_map_fst_entries_iff]
  rfl

/-- The listed agents have all the ports, each once. -/
theorem mem_ports_iff {p : PortId} :
    p ∈ agents.flatMap Agent.ports ↔ (net.port? p).isSome :=
  (hagents.flatMap_right Agent.ports).mem_iff.symm.trans h.mem_flatMap_ports_iff

theorem nodup_flatMap_ports : (agents.flatMap Agent.ports).Nodup :=
  (hagents.flatMap_right Agent.ports).nodup_iff.1 h.nodup_ports

theorem isSome_of_mem_ports {data : Agent} (hdata : data ∈ agents) {p : PortId}
    (hp : p ∈ data.ports) : (net.port? p).isSome :=
  (h.mem_ports_iff hagents).1 (List.mem_flatMap.2 ⟨data, hdata, hp⟩)

/-- The name of a live port occurs in a cell. -/
theorem name_mem_wiresOf (name : PortId → N) {p : PortId} (hp : (net.port? p).isSome) :
    name p ∈ wiresOf (agents.map (.of name)) := by
  rw [wiresOf_map_of]
  exact List.mem_map_of_mem ((h.mem_ports_iff hagents).2 hp)

/-- Only the names of live ports matter. -/
theorem map_of_congr {name name' : PortId → N}
    (hsame : ∀ p, (net.port? p).isSome → name p = name' p) :
    agents.map (Cell.of name) = agents.map (Cell.of name') := by
  refine List.map_congr_left fun data hdata => ?_
  have hports : data.ports.map name = data.ports.map name' :=
    List.map_congr_left fun p hp => hsame p (h.isSome_of_mem_ports hagents hdata hp)
  rw [Cell.of, hports, Cell.of]

end WellFormed

namespace Written

variable (h : net.Written cells free)

include h

/-- The order of the cells does not matter. -/
theorem perm {cells' : List (Cell N)} (hperm : cells.Perm cells') : net.Written cells' free := by
  obtain ⟨name, agents, hname, hagents, rfl, hfree⟩ := h.exists_agents
  obtain ⟨agents', rfl, hagents'⟩ :=
    (congrFun (congrFun (List.eq_map_comp_perm (Cell.of name)) cells') agents).mpr hperm.symm
  exact ⟨h.wellFormed, name, agents', hname, hagents.trans hagents'.symm, rfl, hfree⟩

/-- There are as many agents as cells. -/
theorem size_agents : net.agents.size = cells.length := by
  obtain ⟨name, agents, -, hagents, rfl, -⟩ := h.exists_agents
  rw [List.length_map, size_agents_eq hagents]

theorem length_interface : net.interface.length = free.length := by
  obtain ⟨name, agents, -, -, -, rfl⟩ := h.exists_agents
  rw [List.length_map]

/-- The names on the interface are names in cells. -/
theorem mem_wiresOf {n : N} (hn : n ∈ free) : n ∈ wiresOf cells := by
  obtain ⟨name, agents, -, hagents, rfl, rfl⟩ := h.exists_agents
  obtain ⟨p, hp, rfl⟩ := List.mem_map.1 hn
  exact h.wellFormed.name_mem_wiresOf hagents name (h.wellFormed.isSome_of_mem_interface hp)

/-- The choice of the names does not matter. -/
theorem rename {f : N → M} (hf : Set.InjOn f {n | n ∈ wiresOf cells}) :
    net.Written (cells.map (Cell.map f)) (free.map f) := by
  obtain ⟨name, agents, hname, hagents, rfl, rfl⟩ := h.exists_agents
  have hmem := fun {p} => h.wellFormed.name_mem_wiresOf hagents name (p := p)
  refine ⟨h.wellFormed, f ∘ name, agents, fun hp hq => ?_, hagents, ?_, ?_⟩
  · rw [← hname hp hq]
    exact hf.eq_iff (hmem hp) (hmem hq)
  · rw [List.map_map]
    exact List.map_congr_left fun data _ => (Cell.map_of f name data).symm
  · rw [List.map_map]

end Written

/-! ### Nets that are written down in the same way -/

section Isomorphic

variable {name name' : PortId → N}

/-- Nets with the same cells have agents that correspond to each other, cell by cell. -/
private theorem exists_bijOn_of_cells (h : net.WellFormed) (hother : other.WellFormed)
    {agents agents' : List Agent} (hagents : net.agentList.Perm agents)
    (hagents' : other.agentList.Perm agents')
    (hcells : agents'.map (.of name') = agents.map (Cell.of name)) :
    ∃ f, Set.BijOn f {a | (net.agent? a).isSome} {b | (other.agent? b).isSome} ∧
      ∀ {a data}, net.agent? a = some data →
        ∃ data', other.agent? (f a) = some data' ∧ Cell.of name' data' = .of name data := by
  have hlength : agents'.length = agents.length := by
    simpa only [List.length_map] using congrArg List.length hcells
  have hfst : ((agents.map Agent.id).zip (agents'.map Agent.id)).map Prod.fst =
      agents.map Agent.id := List.map_fst_zip (by simp [hlength])
  have hsnd : ((agents.map Agent.id).zip (agents'.map Agent.id)).map Prod.snd =
      agents'.map Agent.id := List.map_snd_zip (by simp [hlength])
  obtain ⟨f, hf, hbij⟩ := exists_bijOn_of_nodup (by rw [hfst]; exact h.nodup_map_id hagents)
    (by rw [hsnd]; exact hother.nodup_map_id hagents')
  simp only [hfst, hsnd, h.mem_map_id_iff hagents, hother.mem_map_id_iff hagents'] at hf hbij
  refine ⟨f, hbij, fun {a data} ha => ?_⟩
  obtain ⟨i, hi, hi'⟩ := mem_zip_iff.1 ((hf a (f a)).2 ⟨by rw [ha]; rfl, rfl⟩)
  rw [List.getElem?_map, Option.map_eq_some_iff] at hi hi'
  obtain ⟨data₀, hdata₀, rfl⟩ := hi
  obtain ⟨data', hdata', hid⟩ := hi'
  have hlive := (h.mem_agents_iff hagents).1 (List.mem_of_getElem? hdata₀)
  have hlive' := (hother.mem_agents_iff hagents').1 (List.mem_of_getElem? hdata')
  obtain rfl := Option.some.inj (ha.symm.trans hlive)
  rw [hid] at hlive'
  refine ⟨data', hlive', Option.some.inj ?_⟩
  rw [← Option.map_some, ← hdata', ← List.getElem?_map, hcells, List.getElem?_map, hdata₀]
  rfl

variable {f : AgentId → AgentId} (hf : ∀ {a data}, net.agent? a = some data →
  ∃ data', other.agent? (f a) = some data' ∧ Cell.of name' data' = .of name data)

include hf

/-- A port has a counterpart in the same place, with the same name. -/
private theorem exists_samePlace_of_cells {a : AgentId} {k : Nat} {p : PortId}
    (hp : (net.portsOf a)[k]? = some p) :
    ∃ p', (other.portsOf (f a))[k]? = some p' ∧ name' p' = name p := by
  obtain ⟨data, hdata⟩ := Option.isSome_iff_exists.1 (isSome_agent?_of_getElem? hp)
  obtain ⟨data', hdata', hcell⟩ := hf hdata
  have hports := congrArg (·[k]?) (Cell.mk.inj hcell).2
  rw [portsOf_eq hdata] at hp
  simp only [List.getElem?_map, hp, Option.map_some, Option.map_eq_some_iff] at hports
  obtain ⟨p', hp', heq⟩ := hports
  exact ⟨p', by rw [portsOf_eq hdata', hp'], heq⟩

private theorem name_eq_of_samePlace {p p' : PortId} (hpp' : net.SamePlace other f p p') :
    name' p' = name p := by
  obtain ⟨a, k, hp, hp'⟩ := hpp'
  obtain ⟨q', hq', heq⟩ := exists_samePlace_of_cells hf hp
  rwa [Option.some.inj (hp'.symm.trans hq')]

end Isomorphic

/-- **Nets that can be written down in the same way are isomorphic.** -/
theorem Written.isomorphic (h : net.Written cells free) (hother : other.Written cells free) :
    net.Isomorphic other := by
  obtain ⟨name, agents, hname, hagents, rfl, rfl⟩ := h.exists_agents
  obtain ⟨name', agents', hname', hagents', hcells, hfree⟩ := hother.exists_agents
  have hwf := h.wellFormed
  have hwf' := hother.wellFormed
  obtain ⟨f, hbij, hf⟩ := exists_bijOn_of_cells hwf hwf' hagents hagents' hcells
  have hrenames : net.Renames other f := by
    refine ⟨hbij, fun {a data} ha => ?_, fun {p q p' q'} hpp' hqq' => ?_⟩
    · obtain ⟨data', hdata', hcell⟩ := hf ha
      exact ⟨data', hdata', (Cell.mk.inj hcell).1⟩
    · have hne : p = q ↔ p' = q' := by
        constructor
        · rintro rfl
          exact hpp'.unique hwf hqq'
        · rintro rfl
          obtain ⟨a, k, hp, hp'⟩ := hpp'
          obtain ⟨b, j, hq, hq'⟩ := hqq'
          obtain ⟨hagent, rfl⟩ := hwf'.port_unique hp' hq'
          obtain rfl :=
            hbij.injOn (isSome_agent?_of_getElem? hp) (isSome_agent?_of_getElem? hq) hagent
          exact Option.some.inj (hp.symm.trans hq)
      have hlive : ∀ {r r'}, net.SamePlace other f r r' →
          (net.port? r).isSome ∧ (other.port? r').isSome := fun ⟨a, k, hr, hr'⟩ =>
        ⟨hwf.port?_isSome_iff.2 ⟨a, k, hr⟩, hwf'.port?_isSome_iff.2 ⟨f a, k, hr'⟩⟩
      rw [hname.joined_iff hwf (hlive hpp').1 (hlive hqq').1,
        hname'.joined_iff hwf' (hlive hpp').2 (hlive hqq').2, name_eq_of_samePlace hf hpp',
        name_eq_of_samePlace hf hqq', Ne, hne]
  refine ⟨f, hrenames, List.forall₂_iff_zip.2 ⟨?_, fun {p p'} hpair => ?_⟩⟩
  · simpa only [List.length_map] using congrArg List.length hfree.symm
  · obtain ⟨i, hi, hi'⟩ := mem_zip_iff.1 hpair
    have hnames := congrArg (·[i]?) hfree
    simp only [List.getElem?_map, hi, hi', Option.map_some] at hnames
    have hp' := List.mem_of_getElem? hi'
    obtain ⟨a, k, hk⟩ :=
      hwf.port?_isSome_iff.1 (hwf.isSome_of_mem_interface (List.mem_of_getElem? hi))
    obtain ⟨q', hk', heq⟩ := exists_samePlace_of_cells hf hk
    -- the counterpart has the name of the port on the other interface, which is joined to nothing
    have hlive := hwf'.port?_isSome_iff.2 ⟨f a, k, hk'⟩
    rcases (hname' hlive (hwf'.isSome_of_mem_interface hp')).1
      (heq.trans (Option.some.inj hnames).symm) with rfl | hjoined
    · exact ⟨a, k, hk, hk'⟩
    · exact absurd hp' (hwf'.not_mem_interface_of_joined hjoined.symm)

/-! ### How often names occur -/

/-- Ports of one name are two at most. -/
private theorem IsNaming.length_le_two (h : net.WellFormed) {name : PortId → N}
    (hname : net.IsNaming name) {n : N} {ports : List PortId} (hnodup : ports.Nodup)
    (hports : ∀ p ∈ ports, (net.port? p).isSome ∧ name p = n) : ports.length ≤ 2 := by
  have hjoined : ∀ p ∈ ports, ∀ q ∈ ports, p ≠ q → net.Joined p q := fun p hp q hq hne =>
    ((hname (hports p hp).1 (hports q hq).1).1
      ((hports p hp).2.trans (hports q hq).2.symm)).resolve_left hne
  match ports, hnodup, hjoined with
  | [], _, _ | [_], _, _ | [_, _], _, _ => simp
  | p :: q :: r :: _, hnodup, hjoined =>
    simp only [List.nodup_cons, List.mem_cons, not_or] at hnodup
    obtain ⟨⟨hpq, hpr, -⟩, ⟨hqr, -⟩, -⟩ := hnodup
    exact absurd (h.joined_unique (hjoined p (by simp) q (by simp) hpq)
      (hjoined p (by simp) r (by simp) hpr)) hqr

/-- **Names are linear.** In the cells and on the interface together, a name occurs twice at
most. -/
theorem Written.count_le_two [DecidableEq N] (h : net.Written cells free) (n : N) :
    (wiresOf cells ++ free).count n ≤ 2 := by
  obtain ⟨name, agents, hname, hagents, rfl, rfl⟩ := h.exists_agents
  have hwf := h.wellFormed
  have hcount : ∀ l : List PortId, (l.map name).count n = (l.filter (name · = n)).length := by
    intro l
    rw [List.count, List.countP_map, List.countP_eq_length_filter]
    rfl
  have hlive : ∀ p ∈ (agents.flatMap Agent.ports).filter (name · = n),
      (net.port? p).isSome ∧ name p = n := by
    intro p hp
    obtain ⟨hp, heq⟩ := List.mem_filter.1 hp
    exact ⟨(hwf.mem_ports_iff hagents).1 hp, of_decide_eq_true heq⟩
  have hnodup := (hwf.nodup_flatMap_ports hagents).filter (name · = n)
  rw [wiresOf_map_of, List.count_append, hcount, hcount]
  cases hfree : net.interface.filter (name · = n) with
  | nil => exact hname.length_le_two hwf hnodup hlive
  | cons p rest =>
    -- a port on the interface is joined to nothing, so no other port has its name
    have honly : ∀ q, (net.port? q).isSome → name q = n → q = p := by
      intro q hq heq
      have hmem : p ∈ net.interface.filter (name · = n) := hfree ▸ List.mem_cons_self
      obtain ⟨hp, hpn⟩ := List.mem_filter.1 hmem
      have hlive := hwf.isSome_of_mem_interface hp
      rcases (hname hlive hq).1 ((of_decide_eq_true hpn).trans heq.symm) with hpq | hpq
      · exact hpq.symm
      · exact absurd hp (hwf.not_mem_interface_of_joined hpq)
    have hone : ∀ {l : List PortId}, l.Nodup → (∀ q ∈ l, q = p) → l.length ≤ 1 := by
      intro l hl hall
      exact (List.subperm_of_subset hl fun q hq => List.mem_singleton.2 (hall q hq)).length_le
    have hports := hone hnodup fun q hq => honly q (hlive q hq).1 (hlive q hq).2
    have hinterface : (p :: rest).length ≤ 1 := by
      rw [← hfree]
      refine hone (hwf.interface_nodup.filter _) fun q hq => ?_
      obtain ⟨hq, heq⟩ := List.mem_filter.1 hq
      exact honly q (hwf.isSome_of_mem_interface hq) (of_decide_eq_true heq)
    omega

/-- The names on the interface are different from each other. -/
theorem Written.nodup_free [DecidableEq N] (h : net.Written cells free) : free.Nodup := by
  refine List.nodup_iff_count_le_one.2 fun n => ?_
  by_cases hn : n ∈ free
  · have hcells := List.count_pos_iff.2 (h.mem_wiresOf hn)
    have hcount := h.count_le_two n
    rw [List.count_append] at hcount
    omega
  · rw [List.count_eq_zero_of_not_mem hn]
    exact Nat.zero_le 1

/-- A cell has as many names as its symbol has ports. -/
theorem Written.length_wires (h : net.Written cells free) {cell : Cell N} (hcell : cell ∈ cells) :
    cell.wires.length = cell.symbol.arity := by
  obtain ⟨name, agents, -, hagents, rfl, -⟩ := h.exists_agents
  obtain ⟨data, hdata, rfl⟩ := List.mem_map.1 hcell
  rw [Cell.of, List.length_map, h.wellFormed.arity ((h.wellFormed.mem_agents_iff hagents).1 hdata)]

end Net

end InteractionNets
