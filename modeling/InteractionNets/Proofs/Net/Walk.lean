import Mathlib.Data.List.Basic
import InteractionNets.Net.Shape
import InteractionNets.Proofs.Net.WellFormed

/-!
# Walks

A walk from some agents of a well-formed net numbers everything that can be reached from them and
nothing else, each agent once, and writes down every agent with the numbers of its neighbours
(`Net.WellFormed.walk_spec`). Numbers are never changed, so what is written is the code of the list
of all numbered agents (`Net.blockCode`).
-/

namespace InteractionNets

namespace Net

/-- Two agents are linked when they have ports that are joined. -/
def Linked (net : Net) (a b : AgentId) : Prop :=
  ∃ p ∈ net.portsOf a, ∃ q ∈ net.portsOf b, net.Joined p q

theorem Linked.symm {net : Net} {a b : AgentId} (h : net.Linked a b) : net.Linked b a := by
  obtain ⟨p, hp, q, hq, hpq⟩ := h
  exact ⟨q, hq, p, hp, hpq.symm⟩

/-! ### Codes -/

/-- What is written for a port, when agents are numbered by a list. -/
def portToken (net : Net) (boundary : List PortId) (numbered : List AgentId) (port : PortId) :
    Token :=
  match net.peerPort? port with
  | some peer => .peer (numbered.idxOf peer.agent) peer.position
  | none => ((boundaryIndex? boundary port).map Token.free).getD .hidden

/-- What is written for an agent. -/
def agentCode (net : Net) (boundary : List PortId) (numbered : List AgentId) (agent : AgentId) :
    Code :=
  match net.agent? agent with
  | some data => .agent data.symbol.name data.ports.length ::
      data.ports.map (net.portToken boundary numbered)
  | none => []

/-- What is written for a list of agents that are numbered by their places in the list. -/
def blockCode (net : Net) (boundary : List PortId) (numbered : List AgentId) : Code :=
  numbered.flatMap (net.agentCode boundary numbered)

/-! ### Numbering -/

/-- A numbering that is made from another one by numbering agents that are linked to numbered
ones. -/
structure Numbers (net : Net) (numbered result : List AgentId) : Prop where
  initial : numbered <+: result
  nodup : numbered.Nodup → result.Nodup
  /-- Nothing is numbered that cannot be reached. -/
  least : ∀ {S : AgentId → Prop}, (∀ {a b}, S a → net.Linked a b → S b) →
    (∀ a ∈ numbered, S a) → ∀ a ∈ result, S a

variable {net : Net} {boundary : List PortId} {numbered result : List AgentId}

theorem Numbers.refl (net : Net) (numbered : List AgentId) : net.Numbers numbered numbered :=
  ⟨List.prefix_refl _, id, fun _ h => h⟩

theorem Numbers.trans {middle : List AgentId} (h : net.Numbers numbered middle)
    (h' : net.Numbers middle result) : net.Numbers numbered result :=
  ⟨h.initial.trans h'.initial, fun hn => h'.nodup (h.nodup hn),
    fun hS hstart => h'.least hS (h.least hS hstart)⟩

theorem idxOf_eq_of_initial (h : numbered <+: result) {a : AgentId} (ha : a ∈ numbered) :
    result.idxOf a = numbered.idxOf a := by
  obtain ⟨rest, rfl⟩ := h
  exact List.idxOf_append_of_mem ha

private theorem idxOf?_eq_of_mem {l : List AgentId} {a : AgentId} (ha : a ∈ l) :
    l.idxOf? a = some (l.idxOf a) := by
  induction l with
  | nil => cases ha
  | cons b rest ih =>
    rw [List.idxOf?_cons, List.idxOf_cons]
    by_cases hba : b = a
    · simp [hba]
    · have hrest : a ∈ rest := (List.mem_cons.1 ha).resolve_left (Ne.symm hba)
      have hbeq : (b == a) = false := by simpa using hba
      simp [hbeq, ih hrest]

/-- Numbering one more agent. -/
theorem number_spec (numbered : List AgentId) (agent : AgentId) :
    ∃ result, number numbered agent = (result.idxOf agent, result) ∧ agent ∈ result ∧
      numbered <+: result ∧ (numbered.Nodup → result.Nodup) ∧
      ∀ a ∈ result, a ∈ numbered ∨ a = agent := by
  by_cases hmem : agent ∈ numbered
  · refine ⟨numbered, ?_, hmem, List.prefix_refl _, id, fun a ha => .inl ha⟩
    rw [number, idxOf?_eq_of_mem hmem]
  · refine ⟨numbered ++ [agent], ?_, by simp, List.prefix_append _ _, fun hn => ?_, ?_⟩
    · rw [number, List.idxOf?_eq_none_iff.2 hmem, List.idxOf_append_of_notMem hmem,
        List.idxOf_cons_self, Nat.add_zero]
    · refine List.nodup_append.2 ⟨hn, List.nodup_singleton _, fun a ha b hb => ?_⟩
      rintro rfl
      exact hmem (List.mem_singleton.1 hb ▸ ha)
    · exact fun a ha => (List.mem_append.1 ha).imp id List.mem_singleton.1

/-! ### Walking -/

/-- Writing down some ports numbers the agents at their other ends. -/
theorem walkPorts_spec {ports : List PortId}
    (hports : ∀ p ∈ ports, ∀ peer, net.peerPort? p = some peer →
      ∃ a ∈ numbered, net.Linked a peer.agent) :
    ∃ result, net.walkPorts boundary ports numbered =
        (ports.map (net.portToken boundary result), result) ∧ net.Numbers numbered result ∧
      ∀ p ∈ ports, ∀ peer, net.peerPort? p = some peer → peer.agent ∈ result := by
  induction ports generalizing numbered with
  | nil => exact ⟨numbered, rfl, .refl net numbered, by simp⟩
  | cons port rest ih =>
    have hrest : ∀ {result}, numbered <+: result → ∀ p ∈ rest, ∀ peer,
        net.peerPort? p = some peer → ∃ a ∈ result, net.Linked a peer.agent := by
      intro result hinitial p hp peer hpeer
      obtain ⟨a, ha, hlinked⟩ := hports p (List.mem_cons_of_mem _ hp) peer hpeer
      exact ⟨a, hinitial.subset ha, hlinked⟩
    cases hpeer : net.peerPort? port with
    | none =>
      obtain ⟨result, hwalk, hnumbers, hmem⟩ := ih (hrest (List.prefix_refl _))
      refine ⟨result, ?_, hnumbers, ?_⟩
      · simp only [walkPorts, hpeer, hwalk, List.map_cons, portToken]
      · intro p hp peer hp'
        rcases List.mem_cons.1 hp with rfl | hp
        · rw [hpeer] at hp'
          cases hp'
        · exact hmem p hp peer hp'
    | some peer =>
      obtain ⟨middle, hnumber, hagent, hinitial, hnodup, hcases⟩ := number_spec numbered peer.agent
      obtain ⟨result, hwalk, hnumbers, hmem⟩ := ih (hrest hinitial)
      -- a set that is closed under links has the agent at the other end
      have hfirst : net.Numbers numbered middle := by
        refine ⟨hinitial, hnodup, fun {S} hS hstart a ha => ?_⟩
        rcases hcases a ha with ha | rfl
        · exact hstart a ha
        · obtain ⟨b, hb, hlinked⟩ := hports port List.mem_cons_self peer hpeer
          exact hS (hstart b hb) hlinked
      refine ⟨result, ?_, hfirst.trans hnumbers, ?_⟩
      · simp only [walkPorts, hpeer, hnumber, hwalk, List.map_cons, portToken,
          idxOf_eq_of_initial hnumbers.initial hagent]
      · intro p hp peer' hp'
        rcases List.mem_cons.1 hp with rfl | hp
        · rw [hpeer] at hp'
          obtain rfl := Option.some.inj hp'
          exact hnumbers.initial.subset hagent
        · exact hmem p hp peer' hp'

namespace WellFormed

variable (h : net.WellFormed)

include h

/-- What is stored about the port at the other end. -/
theorem peerPort?_eq {p q : PortId} (hpq : net.Joined p q) {b : AgentId} {k : Nat}
    (hq : (net.portsOf b)[k]? = some q) :
    net.peerPort? p = some ⟨q, b, k, k == 0, net.linkOf? q⟩ := by
  rw [peerPort?, h.peer?_eq_some_iff.2 hpq, Option.bind_some, h.port?_eq hq]

theorem joined_of_peerPort? {p : PortId} {peer : Port} (hpeer : net.peerPort? p = some peer) :
    ∃ q, net.Joined p q ∧ (net.portsOf peer.agent)[peer.position]? = some q := by
  obtain ⟨q, hq, hport⟩ := Option.bind_eq_some_iff.1 hpeer
  exact ⟨q, h.peer?_eq_some_iff.1 hq, h.agent_of_port hport⟩

theorem linked_of_peerPort? {a : AgentId} {p : PortId} (hp : p ∈ net.portsOf a) {peer : Port}
    (hpeer : net.peerPort? p = some peer) : net.Linked a peer.agent := by
  obtain ⟨q, hpq, hq⟩ := h.joined_of_peerPort? hpeer
  exact ⟨p, hp, q, List.mem_of_getElem? hq, hpq⟩

theorem exists_peerPort?_of_linked {a b : AgentId} (hab : net.Linked a b) :
    ∃ p ∈ net.portsOf a, ∃ peer, net.peerPort? p = some peer ∧ peer.agent = b := by
  obtain ⟨p, hp, q, hq, hpq⟩ := hab
  obtain ⟨k, hk⟩ := List.mem_iff_getElem?.1 hq
  exact ⟨p, hp, _, h.peerPort?_eq hpq hk, rfl⟩

omit h in
theorem isSome_agent?_of_linked {a b : AgentId} (hab : net.Linked a b) :
    (net.agent? b).isSome := by
  obtain ⟨-, -, q, hq, -⟩ := hab
  obtain ⟨k, hk⟩ := List.mem_iff_getElem?.1 hq
  exact isSome_agent?_of_getElem? hk

omit h in
/-- Numbered agents are live when the first ones are. -/
theorem isSome_of_numbers (hnumbers : net.Numbers numbered result)
    (hlive : ∀ a ∈ numbered, (net.agent? a).isSome) : ∀ a ∈ result, (net.agent? a).isSome :=
  hnumbers.least (fun _ hab => isSome_agent?_of_linked hab) hlive

omit h in
/-- What is written for an agent does not change when more agents are numbered. -/
private theorem agentCode_of_prefix {a : AgentId} {data : Agent} (ha : net.agent? a = some data)
    (hinitial : numbered <+: result) (hmem : ∀ p ∈ data.ports, ∀ peer,
      net.peerPort? p = some peer → peer.agent ∈ numbered) :
    net.agentCode boundary result a = .agent data.symbol.name data.ports.length ::
      data.ports.map (net.portToken boundary numbered) := by
  simp only [agentCode, ha, List.cons.injEq, true_and]
  refine List.map_congr_left fun p hp => ?_
  unfold portToken
  split
  · rename_i peer hpeer
    rw [idxOf_eq_of_initial hinitial (hmem p hp peer hpeer)]
  · rfl

/-- A walk from some number on writes down all agents from that number on, and numbers all agents
linked to them. -/
theorem walkFrom_spec {fuel next : Nat} (hnodup : numbered.Nodup)
    (hlive : ∀ a ∈ numbered, (net.agent? a).isSome) (hfuel : net.agents.size ≤ fuel + next) :
    ∃ result, net.walkFrom boundary fuel next numbered =
        ((result.drop next).flatMap (net.agentCode boundary result), result) ∧
      net.Numbers numbered result ∧
      ∀ a ∈ result.drop next, ∀ b, net.Linked a b → b ∈ result := by
  have hdone : numbered.length ≤ next →
      numbered.drop next = [] := List.drop_eq_nil_of_le
  induction fuel generalizing next numbered with
  | zero =>
    have hlength := net.agents.length_le_size hnodup hlive
    have hdrop := hdone (by omega)
    exact ⟨numbered, by rw [walkFrom, hdrop, List.flatMap_nil], .refl net numbered, by simp [hdrop]⟩
  | succ fuel ih =>
    cases hagent : numbered[next]? with
    | none =>
      have hdrop := hdone (List.getElem?_eq_none_iff.1 hagent)
      refine ⟨numbered, ?_, .refl net numbered, by simp [hdrop]⟩
      simp only [walkFrom, hagent, hdrop, List.flatMap_nil]
    | some agent =>
      have hmem := List.mem_of_getElem? hagent
      obtain ⟨data, hdata⟩ := Option.isSome_iff_exists.1 (hlive agent hmem)
      have hports : net.portsOf agent = data.ports := portsOf_eq hdata
      obtain ⟨middle, hwalkPorts, hfirst, hpeers⟩ :=
        @walkPorts_spec net boundary numbered data.ports fun p hp peer hpeer =>
          ⟨agent, hmem, h.linked_of_peerPort? (hports ▸ hp) hpeer⟩
      have hmore : net.agents.size ≤ fuel + (next + 1) := by omega
      obtain ⟨result, hwalk, hnumbers, hclosed⟩ := ih (hfirst.nodup hnodup)
        (isSome_of_numbers hfirst hlive) hmore List.drop_eq_nil_of_le
      have hall := hfirst.trans hnumbers
      -- the agent has the same number in the end
      have hnext : result[next]? = some agent := by
        obtain ⟨rest, rfl⟩ := hall.initial
        rw [List.getElem?_append_left (List.getElem?_eq_some_iff.1 hagent).1, hagent]
      have hdrop : result.drop next = agent :: result.drop (next + 1) := by
        obtain ⟨hlt, heq⟩ := List.getElem?_eq_some_iff.1 hnext
        rw [List.drop_eq_getElem_cons hlt, heq]
      refine ⟨result, ?_, hall, ?_⟩
      · simp only [walkFrom, hagent, hdata, hwalkPorts, hwalk, hdrop, List.flatMap_cons,
          agentCode_of_prefix hdata hnumbers.initial hpeers, List.cons_append]
      · intro a ha b hab
        rw [hdrop] at ha
        rcases List.mem_cons.1 ha with rfl | ha
        · obtain ⟨p, hp, peer, hpeer, rfl⟩ := h.exists_peerPort?_of_linked hab
          exact hnumbers.initial.subset (hpeers p (hports ▸ hp) peer hpeer)
        · exact hclosed a ha b hab

/-- **A walk writes down what can be reached.** It numbers the agents that can be reached from the
given ones and no others, and writes down the code of all of them. -/
theorem walk_spec (boundary : List PortId) (hnodup : numbered.Nodup)
    (hlive : ∀ a ∈ numbered, (net.agent? a).isSome) :
    ∃ result, net.walk boundary numbered = (net.blockCode boundary result, result) ∧
      net.Numbers numbered result ∧ ∀ a ∈ result, ∀ b, net.Linked a b → b ∈ result := by
  have hfuel : net.agents.size ≤ net.agents.size + 0 := Nat.le_refl _
  obtain ⟨result, hwalk, hnumbers, hclosed⟩ := h.walkFrom_spec hnodup hlive hfuel
  exact ⟨result, hwalk, hnumbers, hclosed⟩

end WellFormed

/-! ### Boundaries -/

/-- What is written for a port of the boundary. -/
def boundaryToken (net : Net) (numbered : List AgentId) (port : PortId) : Token :=
  match net.port? port with
  | some data => .boundary (numbered.idxOf data.agent) data.position
  | none => .hidden

/-- Writing down a boundary numbers the agents of its ports. -/
theorem walkBoundary_spec (numbered : List AgentId)
    (hports : ∀ p ∈ boundary, (net.port? p).isSome) :
    ∃ result, net.walkBoundary boundary numbered =
        (boundary.map (net.boundaryToken result), result) ∧ numbered <+: result ∧
      (numbered.Nodup → result.Nodup) ∧
      (∀ a ∈ result, a ∈ numbered ∨ ∃ p ∈ boundary, ∃ data, net.port? p = some data ∧
        data.agent = a) ∧
      ∀ p ∈ boundary, ∀ data, net.port? p = some data → data.agent ∈ result := by
  induction boundary generalizing numbered with
  | nil => exact ⟨numbered, rfl, List.prefix_refl _, id, fun a ha => .inl ha, by simp⟩
  | cons port rest ih =>
    obtain ⟨data, hdata⟩ := Option.isSome_iff_exists.1 (hports port List.mem_cons_self)
    obtain ⟨middle, hnumber, hagent, hinitial, hnodup, hcases⟩ := number_spec numbered data.agent
    obtain ⟨result, hwalk, hinitial', hnodup', hcases', hmem⟩ :=
      ih middle fun p hp => hports p (List.mem_cons_of_mem _ hp)
    refine ⟨result, ?_, hinitial.trans hinitial', fun hn => hnodup' (hnodup hn), ?_, ?_⟩
    · simp only [walkBoundary, hdata, hnumber, hwalk, List.map_cons, boundaryToken,
        idxOf_eq_of_initial hinitial' hagent]
    · intro a ha
      rcases hcases' a ha with ha | ⟨p, hp, data', hp', heq⟩
      · rcases hcases a ha with ha | rfl
        · exact .inl ha
        · exact .inr ⟨port, List.mem_cons_self, data, hdata, rfl⟩
      · exact .inr ⟨p, List.mem_cons_of_mem _ hp, data', hp', heq⟩
    · intro p hp data' hp'
      rcases List.mem_cons.1 hp with rfl | hp
      · rw [hdata] at hp'
        obtain rfl := Option.some.inj hp'
        exact hinitial'.subset hagent
      · exact hmem p hp data' hp'

end Net

end InteractionNets
