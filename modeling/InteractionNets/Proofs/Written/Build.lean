import InteractionNets.Net.Compose
import InteractionNets.Proofs.Net.Connecting
import InteractionNets.Proofs.Written.Cells
import InteractionNets.Rule.Assembly

/-!
# Building nets that are written down

A new agent is a new cell, with names that were not used (`Net.Written.newAgent`). Connecting two
ports on the interface identifies their names (`Net.Written.connect`). Nets side by side have the
cells of both (`Net.Written.parallel`).
-/

namespace InteractionNets

/-- The values of a function at some different points can be chosen. -/
theorem exists_map_eq {α β : Type} [DecidableEq α] {l : List α} (hl : l.Nodup) {l' : List β}
    (hlength : l.length = l'.length) (f : α → β) :
    ∃ g : α → β, (∀ a, a ∉ l → g a = f a) ∧ l.map g = l' := by
  induction l generalizing l' with
  | nil => exact ⟨f, fun _ _ => rfl, (List.length_eq_zero_iff.1 hlength.symm).symm⟩
  | cons a rest ih =>
    obtain ⟨b, rest', rfl⟩ := List.exists_cons_of_length_eq_add_one hlength.symm
    obtain ⟨ha, hrest⟩ := List.nodup_cons.1 hl
    obtain ⟨g, hg, hmap⟩ := ih hrest (Nat.succ.inj hlength)
    refine ⟨Function.update g a b, fun c hc => ?_, ?_⟩
    · rw [List.mem_cons, not_or] at hc
      rw [Function.update_of_ne hc.1, hg c hc.2]
    · have hsame : rest.map (Function.update g a b) = rest.map g :=
        List.map_congr_left fun c hc => by
        refine Function.update_of_ne ?_ b g
        rintro rfl
        exact ha hc
      rw [List.map_cons, Function.update_self, hsame, hmap]

namespace Net

variable {N : Type} {net other : Net} {cells cells' : List (Cell N)} {free free' : List N}

theorem result_eq_ok {α : Type} {edit : Edit α} {after : Net} {a : α}
    (h : edit.run net = (.ok a, after)) : edit.result net = .ok (a, after) := by
  rw [Edit.run] at h
  rw [Edit.result, h]

/-- There is nothing to write down of the empty net. -/
theorem written_empty : Net.empty.Written ([] : List (Cell Nat)) [] := by
  refine ⟨wellFormed_empty, id, [], fun {p q} hp => ?_, .refl _, rfl, rfl⟩
  cases hp

/-- Ports of two kinds are named when those of each kind are, and the kinds have nothing in
common. -/
theorem isNaming_of_kinds {name : PortId → N} {P Q : PortId → Prop}
    (hlive : ∀ {p}, (net.port? p).isSome → P p ∨ Q p)
    (hP : ∀ {p q}, P p → P q → (name p = name q ↔ p = q ∨ net.Joined p q))
    (hQ : ∀ {p q}, Q p → Q q → (name p = name q ↔ p = q ∨ net.Joined p q))
    (hne : ∀ {p q}, P p → Q q → name p ≠ name q)
    (hapart : ∀ {p q}, P p → Q q → ¬ (p = q ∨ net.Joined p q)) : net.IsNaming name := by
  intro p q hp hq
  rcases hlive hp with hp | hp <;> rcases hlive hq with hq | hq
  · exact hP hp hq
  · exact iff_of_false (hne hp hq) (hapart hp hq)
  · refine iff_of_false (hne hq hp).symm fun h => hapart hq hp ?_
    exact h.imp Eq.symm Joined.symm
  · exact hQ hp hq

/-! ### New agents -/

/-- The ports that an agent is going to get are not on the interface. -/
theorem WellFormed.not_mem_interface_of_mem_nextPorts (h : net.WellFormed) {symbol : Symbol}
    {p : PortId} (hp : p ∈ net.nextPorts symbol) : p ∉ net.interface := by
  intro hmem
  have hlive := h.isSome_of_mem_interface hmem
  rw [net.port?_of_mem_nextPorts symbol hp] at hlive
  cases hlive

theorem interface_newAgent (h : net.WellFormed) (symbol : Symbol) :
    (net.newAgent symbol).2.interface = net.interface ++ net.nextPorts symbol := by
  rw [snd_newAgent]
  refine Interface.extend_eq_append (List.nodup_append.2
    ⟨h.interface_nodup, net.nodup_nextPorts symbol, fun p hp q hq heq => ?_⟩)
  exact h.not_mem_interface_of_mem_nextPorts hq (heq ▸ hp)

theorem agent?_newAgent (net : Net) (symbol : Symbol) (a : AgentId) :
    (net.newAgent symbol).2.agent? a =
      if a = net.nextAgent then some ⟨a, symbol, net.nextPorts symbol⟩ else net.agent? a := by
  rw [snd_newAgent, agent?_withInterface, agent?_allocAgent]

theorem portsOf_newAgent (net : Net) (symbol : Symbol) :
    (net.newAgent symbol).2.portsOf (net.newAgent symbol).1 = net.nextPorts symbol := by
  have hnew : (net.newAgent symbol).1 = net.nextAgent := fst_allocAgent net symbol
  have hdata := net.agent?_newAgent symbol net.nextAgent
  rw [if_pos rfl] at hdata
  rw [hnew, portsOf_eq hdata]

theorem perm_newAgent (h : net.WellFormed) (symbol : Symbol) {agents : List Agent}
    (hagents : net.agentList.Perm agents) : (net.newAgent symbol).2.agentList.Perm
      (⟨net.nextAgent, symbol, net.nextPorts symbol⟩ :: agents) := by
  have hnone := net.agent?_nextAgent
  refine (h.newAgent symbol).perm_agents ?_ fun {data} => ?_
  · refine List.nodup_cons.2 ⟨fun hmem => ?_, h.nodup_map_id hagents⟩
    exact agent_ne_of_eq_none ((h.mem_map_id_iff hagents).1 hmem) hnone rfl
  · rw [List.mem_cons, h.mem_agents_iff hagents, agent?_newAgent]
    by_cases hid : data.id = net.nextAgent
    · rw [if_pos hid, hid, hnone]
      obtain ⟨id, symbol', ports⟩ := data
      obtain rfl : id = net.nextAgent := hid
      simp [eq_comm]
    · rw [if_neg hid]
      refine or_iff_right ?_
      rintro rfl
      exact hid rfl

/-- **A new agent is a new cell.** -/
theorem Written.newAgent (hw : net.Written cells free) (symbol : Symbol) {ws : List N}
    (hlength : ws.length = symbol.arity) (hnodup : ws.Nodup)
    (hfresh : ∀ w ∈ ws, w ∉ wiresOf cells) :
    (net.newAgent symbol).2.Written (⟨symbol, ws⟩ :: cells) (free ++ ws) := by
  obtain ⟨name, agents, hname, hagents, rfl, rfl⟩ := hw.exists_agents
  have h := hw.wellFormed
  have hperm := perm_newAgent h symbol hagents
  have hdead : ∀ {p}, p ∈ net.nextPorts symbol → ¬ (net.port? p).isSome := by
    intro p hp
    simp [net.port?_of_mem_nextPorts symbol hp]
  obtain ⟨name', hold, hnew⟩ := exists_map_eq (net.nodup_nextPorts symbol)
    ((net.length_nextPorts symbol).trans hlength.symm) name
  have hsame : ∀ {p}, (net.port? p).isSome → name' p = name p := fun hp =>
    hold _ fun hmem => hdead hmem hp
  have hnaming : (net.newAgent symbol).2.IsNaming name' := by
    refine isNaming_of_kinds (P := (· ∈ net.nextPorts symbol)) (Q := fun p => (net.port? p).isSome)
      (fun {p} hp => ?_) (fun {p q} hp hq => ?_) (fun {p q} hp hq => ?_) (fun {p q} hp hq heq => ?_)
      fun {p q} hp hq heq => ?_
    · rwa [← (h.newAgent symbol).mem_ports_iff hperm, List.flatMap_cons, List.mem_append,
        h.mem_ports_iff hagents] at hp
    · have hinj := List.inj_on_of_nodup_map (f := name') (by rwa [hnew]) hp hq
      exact ⟨fun heq => .inl (hinj heq), fun hpq => hpq.elim (congrArg name') fun hjoined =>
        absurd (h.isSome_of_joined hjoined) (hdead hp)⟩
    · rw [hsame hp, hsame hq]
      exact hname hp hq
    · refine hfresh (name' p) (hnew ▸ List.mem_map_of_mem hp) ?_
      rw [heq, hsame hq]
      exact h.name_mem_wiresOf hagents name hq
    · rcases heq with rfl | hjoined
      · exact hdead hp hq
      · exact hdead hp (h.isSome_of_joined hjoined)
  refine ⟨h.newAgent symbol, name', _, hnaming, hperm, ?_, ?_⟩
  · rw [List.map_cons, Cell.of, hnew, h.map_of_congr hagents fun p hp => hsame hp]
  · rw [interface_newAgent h, List.map_append, hnew]
    refine congrArg (· ++ ws) (List.map_congr_left fun p hp => hsame ?_)
    exact h.isSome_of_mem_interface hp

/-- New names can always be found. -/
theorem exists_fresh (used : List Nat) (n : Nat) :
    ∃ ws : List Nat, ws.length = n ∧ ws.Nodup ∧ ∀ m ∈ ws, m ∉ used := by
  obtain ⟨bound, hbound⟩ := exists_bound used
  refine ⟨List.range' bound n, List.length_range', List.nodup_range', fun m hm hmem => ?_⟩
  exact Nat.not_le_of_lt (hbound m hmem) (List.mem_range'_1.1 hm).1

/-- Making an agent is never refused. Its cell has new names, in the order of its ports. -/
theorem Written.run_agent {cells : List (Cell Nat)} {free : List Nat} (hw : net.Written cells free)
    (symbol : Symbol) : ∃ a ports ws after, (Assembly.agent symbol).run net = (.ok a, after) ∧
      after.Written (⟨symbol, ws⟩ :: cells) (free ++ ws) ∧
      after.interface = net.interface ++ ports ∧ after.portsOf a = ports ∧
      ports.length = symbol.arity ∧ ws.length = symbol.arity ∧ ∀ m ∈ ws, m ∉ wiresOf cells := by
  obtain ⟨ws, hlength, hnodup, hfresh⟩ := exists_fresh (wiresOf cells) symbol.arity
  exact ⟨(net.newAgent symbol).1, net.nextPorts symbol, ws, (net.newAgent symbol).2, rfl,
    hw.newAgent symbol hlength hnodup hfresh, interface_newAgent hw.wellFormed symbol,
    portsOf_newAgent net symbol, net.length_nextPorts symbol, hlength, hfresh⟩

theorem run_portAt {a : AgentId} {k : Nat} {p : PortId} (hp : (net.portsOf a)[k]? = some p) :
    (Assembly.portAt a k).run net = (.ok p, net) := by
  rw [Assembly.portAt, Edit.run_look, portAt, hp]

/-! ### Connections -/

/-- Two ports on the interface may be connected. -/
theorem WellFormed.connectFault?_of_interface (h : net.WellFormed) {a b : PortId}
    (ha : a ∈ net.interface) (hb : b ∈ net.interface) (hab : a ≠ b) :
    net.connectFault? a b = none :=
  connectFault?_eq_none_iff_isFree.2
    ⟨hab, h.isFree_of_mem_interface ha, h.isFree_of_mem_interface hb⟩

/-- No other port has the name of a port on the interface. -/
theorem IsNaming.eq_of_mem_interface {name : PortId → N} (hname : net.IsNaming name)
    (h : net.WellFormed) {p q : PortId} (hp : p ∈ net.interface) (hq : (net.port? q).isSome)
    (heq : name q = name p) : q = p := by
  rcases (hname hq (h.isSome_of_mem_interface hp)).1 heq with hqp | hqp
  · exact hqp
  · exact absurd hp (h.not_mem_interface_of_joined hqp.symm)

/-- Ports with the names of ports on the interface are these ports. -/
theorem IsNaming.eq_of_map_eq {name : PortId → N} (hname : net.IsNaming name) (h : net.WellFormed)
    {l l' : List PortId} (hl : ∀ p ∈ l, (net.port? p).isSome) (hl' : ∀ p ∈ l', p ∈ net.interface)
    (heq : l.map name = l'.map name) : l = l' := by
  induction l generalizing l' with
  | nil => exact (List.map_eq_nil_iff.1 heq.symm).symm
  | cons p l ih =>
    obtain ⟨q, l', rfl, hpq, hrest⟩ := List.map_eq_cons_iff.1 heq.symm
    obtain ⟨hp, hl⟩ := List.forall_mem_cons.1 hl
    obtain ⟨hq, hl'⟩ := List.forall_mem_cons.1 hl'
    rw [hname.eq_of_mem_interface h hq hp hpq.symm, ih hl hl' hrest.symm]

/-- Ports of two names are given one name when they are joined. -/
theorem IsNaming.join [DecidableEq N] {name : PortId → N} (hname : net.IsNaming name)
    (h : net.WellFormed) {a b : PortId} (ha : a ∈ net.interface) (hb : b ∈ net.interface)
    (hab : a ≠ b) : (net.join a b).2.IsNaming (Function.update id (name b) (name a) ∘ name) := by
  intro p q hp hq
  have hlive : ∀ {p}, ((net.join a b).2.port? p).isSome → (net.port? p).isSome := fun hp =>
    h.port?_isSome_iff.2
      ((h.join (h.connectFault?_of_interface ha hb hab)).port?_isSome_iff.1 hp)
  -- the ports that are joined are on the interface, so no other port has their names
  have hcase : ∀ {p}, (net.port? p).isSome → (Function.update id (name b) (name a)) (name p) =
      if p = b then name a else name p := by
    intro p hp
    rw [Function.update_apply]
    refine if_congr ?_ rfl rfl
    exact ⟨hname.eq_of_mem_interface h hb hp, congrArg name⟩
  have hlone : ∀ {p}, (net.port? p).isSome → (name a = name p ↔ p = a) := fun hp =>
    ⟨fun heq => hname.eq_of_mem_interface h ha hp heq.symm, fun heq => congrArg name heq.symm⟩
  have hapart : ∀ {p}, ¬ net.Joined p b ∧ ¬ net.Joined b p := fun {p} =>
    ⟨fun hpb => h.not_mem_interface_of_joined hpb.symm hb,
      fun hbp => h.not_mem_interface_of_joined hbp hb⟩
  have hp' := hlive hp
  have hq' := hlive hq
  rw [joined_join, Function.comp_apply, Function.comp_apply, hcase hp', hcase hq']
  by_cases hpb : p = b <;> by_cases hqb : q = b
  · simp [hpb, hqb]
  · subst hpb
    rw [if_pos rfl, if_neg hqb, hlone hq']
    simp [hapart, hqb, Ne.symm hqb]
  · subst hqb
    rw [if_pos rfl, if_neg hpb, eq_comm, hlone hp']
    simp [hapart, hpb]
  · rw [if_neg hpb, if_neg hqb, hname hp' hq']
    simp [hpb, hqb]

/-- The names that are left when a name is taken away, where it is the name of one element. -/
theorem map_erase_of_eq [DecidableEq N] {name : PortId → N} {l : List PortId} {a : PortId}
    (ha : ∀ b ∈ l, name b = name a → b = a) :
    (l.erase a).map name = (l.map name).erase (name a) := by
  induction l with
  | nil => rfl
  | cons b rest ih =>
    rw [List.map_cons]
    by_cases hb : b = a
    · rw [hb, List.erase_cons_head, List.erase_cons_head]
    · have hname : name b ≠ name a := fun heq => hb (ha b List.mem_cons_self heq)
      rw [List.erase_cons_tail (by simpa using hb), List.erase_cons_tail (by simpa using hname),
        List.map_cons, ih fun c hc => ha c (List.mem_cons_of_mem b hc)]

/-- **Connecting two ports identifies their names.** -/
theorem Written.connect [DecidableEq N] (hw : net.Written cells free) {i j : Nat} {a b : PortId}
    {m n : N} (ha : net.interface[i]? = some a) (hb : net.interface[j]? = some b)
    (hm : free[i]? = some m) (hn : free[j]? = some n) (hij : i ≠ j) :
    ∃ c after, (Net.connect a b).run net = (.ok c, after) ∧
      after.Written (cells.map (Cell.map (Function.update id n m))) ((free.erase m).erase n) ∧
      after.interface = (net.interface.erase a).erase b ∧ after.agents = net.agents := by
  obtain ⟨name, agents, hname, hagents, rfl, rfl⟩ := hw.exists_agents
  have h := hw.wellFormed
  rw [List.getElem?_map, ha] at hm
  rw [List.getElem?_map, hb] at hn
  obtain rfl : name a = m := Option.some.inj hm
  obtain rfl : name b = n := Option.some.inj hn
  have hab : a ≠ b := by
    rintro rfl
    exact hij ((List.getElem?_inj (List.getElem?_eq_some_iff.1 ha).1 h.interface_nodup).1
      (ha.trans hb.symm))
  have hmem := List.mem_of_getElem? ha
  have hmem' := List.mem_of_getElem? hb
  have hsafe := h.connectFault?_of_interface hmem hmem' hab
  refine ⟨_, _, run_connect_of_none hsafe, ⟨h.join hsafe, _, agents, hname.join h hmem hmem' hab,
    hagents, ?_, ?_⟩, rfl, rfl⟩
  · rw [List.map_map]
    exact List.map_congr_left fun data _ => (Cell.map_of _ name data).symm
  · have hinj : ∀ {p q}, p ∈ net.interface → q ∈ net.interface → name q = name p → q = p :=
      fun hp hq => hname.eq_of_mem_interface h hp (h.isSome_of_mem_interface hq)
    rw [interface_join, ← map_erase_of_eq fun q hq => hinj hmem hq,
      ← map_erase_of_eq fun q hq => hinj hmem' (List.mem_of_mem_erase hq)]
    refine List.map_congr_left fun p hp => ?_
    have hp' := List.mem_of_mem_erase (List.mem_of_mem_erase hp)
    refine Function.update_of_ne (fun heq => ?_) _ _
    obtain rfl := hinj hmem' hp' heq
    exact (h.interface_nodup.erase a).not_mem_erase hp

/-- Different ports on the interface may be connected pairwise. -/
theorem WellFormed.pairingFault?_eq_none (h : net.WellFormed) {pairs : List (PortId × PortId)}
    (hmem : ∀ p ∈ pairEnds pairs, p ∈ net.interface) (hnodup : (pairEnds pairs).Nodup) :
    net.pairingFault? [] pairs = none :=
  pairingFault?_eq_none_iff.2
    ⟨hnodup, fun p hp => ⟨h.isFree_of_mem_interface (hmem p hp), List.not_mem_nil⟩⟩

/-! ### Nets side by side -/

section Copy

variable {host after : Net} {copy : AgentId → AgentId} {port : PortId → PortId}

/-- The copy of an agent. -/
def copyAgent (copy : AgentId → AgentId) (port : PortId → PortId) (data : Agent) : Agent :=
  ⟨copy data.id, data.symbol, data.ports.map port⟩

variable (hcopy : IsCopy other host after copy port) (h : host.WellFormed)
  (hother : other.WellFormed) {agents agents' : List Agent} (hagents : host.agentList.Perm agents)
  (hagents' : other.agentList.Perm agents')

include hcopy h hother hagents hagents'

/-- The agents of a host and of a copy are all the agents. -/
theorem IsCopy.perm :
    after.agentList.Perm (agents ++ agents'.map (copyAgent copy port)) := by
  have hids : (agents ++ agents'.map (copyAgent copy port)).map Agent.id =
      agents.map Agent.id ++ (agents'.map Agent.id).map copy := by
    rw [List.map_append, List.map_map, List.map_map]
    rfl
  refine hcopy.wellFormed.perm_agents ?_ fun {data} => ?_
  · rw [hids]
    refine List.nodup_append.2 ⟨h.nodup_map_id hagents, ?_, ?_⟩
    · refine (hother.nodup_map_id hagents').map_on fun a ha b hb => ?_
      exact hcopy.injective ((hother.mem_map_id_iff hagents').1 ha)
        ((hother.mem_map_id_iff hagents').1 hb)
    · rintro _ ha _ hmem rfl
      obtain ⟨b, hb, rfl⟩ := List.mem_map.1 hmem
      exact agent_ne_of_eq_none ((h.mem_map_id_iff hagents).1 ha)
        (hcopy.fresh ((hother.mem_map_id_iff hagents').1 hb)) rfl
  · rw [List.mem_append, h.mem_agents_iff hagents, List.mem_map]
    constructor
    · rintro (hdata | ⟨old, hold, rfl⟩)
      · exact hcopy.agent_old_of_some hdata
      · exact hcopy.agent_copy ((hother.mem_agents_iff hagents').1 hold)
    · intro hdata
      by_cases hid : ∃ a, (other.agent? a).isSome ∧ data.id = copy a
      · obtain ⟨a, ha, hid⟩ := hid
        obtain ⟨old, hold⟩ := Option.isSome_iff_exists.1 ha
        have hagent := hcopy.agent_copy hold
        rw [← hid, hdata, Option.some.injEq] at hagent
        obtain rfl := hother.agent_id hold
        exact .inr ⟨old, (hother.mem_agents_iff hagents').2 hold, by rw [copyAgent, hagent, hid]⟩
      · refine .inl ?_
        rwa [← hcopy.agent_old fun a ha heq => hid ⟨a, ha, heq⟩]

/-- Live ports are ports of the host or copies. -/
theorem IsCopy.isSome_port?_iff {p : PortId} : (after.port? p).isSome ↔
    (host.port? p).isSome ∨ ∃ p₀, (other.port? p₀).isSome ∧ port p₀ = p := by
  rw [← hcopy.wellFormed.mem_ports_iff (hcopy.perm h hother hagents hagents'), List.flatMap_append,
    List.mem_append, h.mem_ports_iff hagents]
  refine or_congr_right ?_
  simp only [← hother.mem_ports_iff hagents', List.mem_flatMap, List.mem_map, copyAgent]
  constructor
  · rintro ⟨_, ⟨data, hdata, rfl⟩, hp⟩
    obtain ⟨p₀, hp₀, rfl⟩ := List.mem_map.1 hp
    exact ⟨p₀, ⟨data, hdata, hp₀⟩, rfl⟩
  · rintro ⟨p₀, ⟨data, hdata, hp₀⟩, rfl⟩
    exact ⟨_, ⟨data, hdata, rfl⟩, List.mem_map_of_mem hp₀⟩

omit hagents in
/-- The names of a host and of a net that is copied into it can be put together. -/
theorem IsCopy.exists_name (name name' : PortId → N) : ∃ both : PortId → N,
    (∀ p, (host.port? p).isSome → both p = name p) ∧
      ∀ p, (other.port? p).isSome → both (port p) = name' p := by
  have hlive : ∀ {p}, p ∈ agents'.flatMap Agent.ports → (other.port? p).isSome :=
    (hother.mem_ports_iff hagents').1
  have hnodup : ((agents'.flatMap Agent.ports).map port).Nodup :=
    (hother.nodup_flatMap_ports hagents').map_on fun p hp q hq =>
      hcopy.port_injective hother (hlive hp) (hlive hq)
  have hlength : ((agents'.flatMap Agent.ports).map port).length =
      ((agents'.flatMap Agent.ports).map name').length := by rw [List.length_map, List.length_map]
  obtain ⟨both, hold, hnew⟩ := exists_map_eq hnodup hlength name
  rw [List.map_map] at hnew
  refine ⟨both, fun p hp => hold p fun hmem => ?_, fun p hp =>
    List.map_inj_left.1 hnew p ((hother.mem_ports_iff hagents').2 hp)⟩
  obtain ⟨p₀, hp₀, rfl⟩ := List.mem_map.1 hmem
  rw [hcopy.port_fresh hother h (hlive hp₀)] at hp
  cases hp

omit hcopy in
/-- The cells of a host and of a copy. -/
theorem map_of_copy {name name' both : PortId → N}
    (hold : ∀ p, (host.port? p).isSome → both p = name p)
    (hnew : ∀ p, (other.port? p).isSome → both (port p) = name' p) :
    (agents ++ agents'.map (copyAgent copy port)).map (Cell.of both) =
      agents.map (Cell.of name) ++ agents'.map (Cell.of name') := by
  have hcopied : Cell.of both ∘ copyAgent copy port = Cell.of (both ∘ port) := by
    funext data
    rw [Function.comp_apply, Cell.of, copyAgent, List.map_map, Cell.of]
  have hcopies : agents'.map (Cell.of (both ∘ port)) = agents'.map (Cell.of name') :=
    hother.map_of_congr hagents' hnew
  rw [List.map_append, List.map_map, hcopied, hcopies, h.map_of_congr hagents hold]

/-- Names of a host and of a copy that have nothing in common are names of both together. -/
theorem IsCopy.isNaming {name name' both : PortId → N} (hname : host.IsNaming name)
    (hname' : other.IsNaming name') (hold : ∀ p, (host.port? p).isSome → both p = name p)
    (hnew : ∀ p, (other.port? p).isSome → both (port p) = name' p)
    (hne : ∀ {p q}, (host.port? p).isSome → (other.port? q).isSome → name p ≠ name' q) :
    after.IsNaming both := by
  have hfresh : ∀ {p}, (other.port? p).isSome → ¬ (host.port? (port p)).isSome := fun hp => by
    simp [hcopy.port_fresh hother h hp]
  refine @isNaming_of_kinds N after both (fun p => (host.port? p).isSome)
    (fun p => ∃ p₀, (other.port? p₀).isSome ∧ port p₀ = p)
    (fun {p} hp => ?_) (fun {p q} hp hq => ?_) (fun {p q} hp hq => ?_)
    (fun {p q} hp hq heq => ?_) fun {p q} hp hq heq => ?_
  · exact (hcopy.isSome_port?_iff h hother hagents hagents').1 hp
  · rw [hold p hp, hold q hq, hname hp hq, hcopy.joined_old_iff hother h hp]
  · obtain ⟨p, hp, rfl⟩ := hp
    obtain ⟨q, hq, rfl⟩ := hq
    rw [hnew p hp, hnew q hq, hname' hp hq, hcopy.joined_copy_iff hother h hp]
    refine or_congr ⟨congrArg port, hcopy.port_injective hother hp hq⟩
      ⟨fun hpq => ⟨q, hpq, rfl⟩, ?_⟩
    rintro ⟨q₀, hpq, hq₀⟩
    obtain rfl := hcopy.port_injective hother (hother.isSome_of_joined hpq.symm) hq hq₀
    exact hpq
  · obtain ⟨q, hq, rfl⟩ := hq
    rw [hold p hp, hnew q hq] at heq
    exact hne hp hq heq
  · obtain ⟨q, hq, rfl⟩ := hq
    rcases heq with rfl | hpq
    · exact hfresh hq hp
    · have hpq' := (hcopy.joined_old_iff hother h hp).1 hpq
      exact hfresh hq (h.isSome_of_joined hpq'.symm)

end Copy

/-- **Nets side by side have the cells of both.** The names must have nothing in common. -/
theorem Written.parallel (hw : net.Written cells free) (hw' : other.Written cells' free')
    (hdisjoint : (wiresOf cells).Disjoint (wiresOf cells')) :
    (net.parallel other).Written (cells ++ cells') (free ++ free') := by
  obtain ⟨name, agents, hname, hagents, rfl, rfl⟩ := hw.exists_agents
  obtain ⟨name', agents', hname', hagents', rfl, rfl⟩ := hw'.exists_agents
  have h := hw.wellFormed
  have hother := hw'.wellFormed
  obtain ⟨copy, hcopy, -, hinterface⟩ := exists_isCopy_inject hother h true
  rw [← parallel_eq] at hcopy hinterface
  obtain ⟨both, hold, hnew⟩ := hcopy.exists_name h hother hagents' name name'
  refine ⟨hcopy.wellFormed, both, _, hcopy.isNaming h hother hagents hagents' hname hname' hold hnew
    fun {p q} hp hq heq => ?_, hcopy.perm h hother hagents hagents',
    map_of_copy h hother hagents hagents' hold hnew, ?_⟩
  · refine hdisjoint (h.name_mem_wiresOf hagents name hp) ?_
    rw [heq]
    exact hother.name_mem_wiresOf hagents' name' hq
  · rw [hinterface, if_pos rfl, List.map_append, List.map_map]
    exact congrArg₂ _ (List.map_congr_left fun p hp => hold p (h.isSome_of_mem_interface hp))
      (List.map_congr_left fun p hp => hnew p (hother.isSome_of_mem_interface hp))

/-- Other names can be given to the cells of a net, so that they have none of some names. -/
theorem exists_rename (used : List Nat) : ∃ f : Nat → Nat, Function.Injective f ∧
    ∀ cells : List (Cell Nat), used.Disjoint (wiresOf (cells.map (Cell.map f))) := by
  obtain ⟨bound, hbound⟩ := exists_bound used
  refine ⟨(bound + ·), fun m n heq => Nat.add_left_cancel heq, ?_⟩
  rintro cells m hm hmem
  rw [wiresOf_map] at hmem
  obtain ⟨n, -, rfl⟩ := List.mem_map.1 hmem
  exact Nat.not_le_of_lt (hbound _ hm) (Nat.le_add_right bound n)

end Net

end InteractionNets
