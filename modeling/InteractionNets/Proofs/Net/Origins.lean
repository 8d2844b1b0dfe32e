import InteractionNets.Proofs.Net.Connecting
import InteractionNets.Proofs.Net.Removal
import InteractionNets.Proofs.Reachable
import InteractionNets.Proofs.Reduction.Invariants

/-!
# Where connections come from

A connection is made by connecting two ports, or by copying a net or letting agents interact. Only
in the first case it is recorded where its ends stood. Nothing changes a record later on, so the
record of a connection tells whether the connection was made by connecting two ports, and which of
these were hidden then (`Net.HasOrigins.restore_eq`). Every reachable net has connections of these
kinds only (`Net.Reachable.exists_hasOrigins`). So when an agent is taken out, a port that was
joined to it is exposed, unless it was hidden when it was connected (`Net.removeAgent_isWithout`).
-/

namespace InteractionNets

open Net RuleSet

namespace Net

variable {net mid after : Net} {made : ConnectionId → Option Net} {a b p : PortId}

/-! ### Keeping records -/

/-- Of all connections that are new in a net, nothing is recorded. -/
def KeepsRecords (net after : Net) : Prop :=
  ∀ c data, after.connection? c = some data →
    net.connection? c = some data ∨ data.restore = (.unrecorded, .unrecorded)

namespace KeepsRecords

theorem of_eq (h : after.connections = net.connections) : net.KeepsRecords after := by
  intro c data hc
  rw [connection?, h] at hc
  exact .inl hc

theorem trans (h : net.KeepsRecords mid) (h' : mid.KeepsRecords after) :
    net.KeepsRecords after := by
  intro c data hc
  rcases h' c data hc with hmid | hnew
  · exact h c data hmid
  · exact .inr hnew

theorem link (net : Net) (a b : PortId) : net.KeepsRecords (net.link a b).2 := by
  intro c data hc
  rw [connection?_link] at hc
  split at hc
  · obtain rfl := Option.some.inj hc
    exact .inr rfl
  · exact .inl hc

theorem unlink (net : Net) (c : ConnectionId) : net.KeepsRecords (net.unlink c) := by
  intro d data hd
  rw [connection?_unlink] at hd
  split at hd
  · cases hd
  · exact .inl hd

theorem copyAgents (agents : List Agent) (net : Net) :
    (Net.copyAgents agents net).2.connections = net.connections := by
  induction agents generalizing net with
  | nil => rfl
  | cons agent rest ih => exact (ih _).trans (net.connections_allocAgent agent.symbol)

theorem copyConnections (map : PortMap) (connections : List Connection) (net : Net) :
    net.KeepsRecords (Net.copyConnections map connections net) := by
  induction connections generalizing net with
  | nil => exact .of_eq rfl
  | cons connection rest ih =>
    rw [Net.copyConnections]
    split
    · exact (KeepsRecords.link net _ _).trans (ih _)
    · exact ih net

theorem inject (net other : Net) (expose : Bool) :
    net.KeepsRecords (net.inject other expose).2 := by
  have hagents : net.KeepsRecords (Net.copyAgents other.agentList net).2 :=
    .of_eq (copyAgents other.agentList net)
  exact hagents.trans (copyConnections _ other.connectionList _)

theorem linkPaths (copies : PortMap) (links : List (PathEnd × PathEnd)) (net : Net) :
    net.KeepsRecords (Plan.linkPaths copies links net) := by
  induction links generalizing net with
  | nil => exact .of_eq rfl
  | cons pair rest ih =>
    rw [Plan.linkPaths]
    split
    · exact (KeepsRecords.link net _ _).trans (ih _)
    · exact ih net

theorem foldl {α : Type} {f : Net → α → Net} (hf : ∀ (net : Net) x, net.KeepsRecords (f net x))
    (l : List α) (net : Net) : net.KeepsRecords (l.foldl f net) := by
  induction l generalizing net with
  | nil => exact .of_eq rfl
  | cons x rest ih => exact (hf net x).trans (ih _)

theorem detach (net : Net) (pair : ActivePair) : net.KeepsRecords (Plan.detach net pair) := by
  refine (KeepsRecords.unlink net _).trans (foldl (fun net port => ?_) _ _)
  split
  · exact KeepsRecords.unlink net _
  · exact .of_eq rfl

theorem commit (plan : Plan) (rule : Rule) (took : Duration) (net : Net) :
    net.KeepsRecords (plan.commit rule took net) :=
  (detach net plan.surroundings.pair).trans
    ((inject _ rule.replacement.net false).trans (linkPaths _ plan.links _))

theorem interact {rule : Rule} {pair : ActivePair} {watch : Stopwatch}
    (hrun : net.interact watch rule pair = (.ok (), after)) : net.KeepsRecords after := by
  rw [Net.interact] at hrun
  split at hrun
  · cases (Prod.mk.inj hrun).1
  · obtain rfl := (Prod.mk.inj hrun).2
    exact commit _ rule _ net

end KeepsRecords

/-- Interactions record nothing. -/
theorem isInvariant_keepsRecords {rules : RuleSet} (haccepted : ∀ rule ∈ rules.rules, rule.Accepted)
    (net : Net) : rules.IsInvariant fun after => after.WellFormed ∧ net.KeepsRecords after where
  wellFormed hafter := hafter.1
  interact hmid _ hfor hrun := by
    obtain ⟨agents, copy, port, hw⟩ := isRewrite_of_interact haccepted hmid.1 hfor hrun
    exact ⟨hw.wellFormed, hmid.2.trans (.interact hrun)⟩
  withTally tally hafter := ⟨hafter.1.withTally tally, hafter.2⟩

/-! ### Origins -/

/-- The connections of a net come from somewhere: those with an origin were made by connecting two
ports of that net, and the others by copying a net or by interactions. -/
inductive HasOrigins : Net → (ConnectionId → Option Net) → Prop
  | empty : HasOrigins .empty fun _ => none
  | connect {net : Net} {made : ConnectionId → Option Net} (a b : PortId) :
      HasOrigins net made → net.connectFault? a b = none →
      HasOrigins (net.join a b).2 fun c => if c = net.nextConnection then some net else made c
  | change {net after : Net} {made : ConnectionId → Option Net} :
      HasOrigins net made → net.KeepsRecords after →
      HasOrigins after fun c => if after.connection? c = net.connection? c then made c else none

/-- What is recorded of the ends of a connection is where they stood in the net in which they were
connected, if the connection was made so, and nothing otherwise. -/
theorem HasOrigins.restore_eq (h : net.HasOrigins made) {c : ConnectionId} {data : Connection}
    (hc : net.connection? c = some data) :
    (made c = none → data.restore = (.unrecorded, .unrecorded)) ∧
      ∀ before, made c = some before → data.restore =
        (before.interface.record data.ports.1, before.interface.record data.ports.2) := by
  induction h generalizing c data with
  | empty =>
    cases hc
  | @connect net made a b _ _ ih =>
    rw [connection?_join] at hc
    by_cases hnew : c = net.nextConnection
    · rw [if_pos hnew] at hc
      obtain rfl := Option.some.inj hc
      simp only [hnew, if_true]
      refine ⟨fun hnone => absurd hnone (Option.some_ne_none net), fun before hbefore => ?_⟩
      obtain rfl := Option.some.inj hbefore
      rfl
    · rw [if_neg hnew] at hc
      simp only [hnew, if_false]
      exact ih hc
  | @change net after made _ hkeeps ih =>
    by_cases hold : after.connection? c = net.connection? c
    · simp only [hold, if_true]
      exact ih (hold.symm.trans hc)
    · simp only [hold, if_false]
      refine ⟨fun _ => ?_, fun before hbefore => by cases hbefore⟩
      rcases hkeeps c data hc with hsame | hnew
      · exact absurd (hc.trans hsame.symm) hold
      · exact hnew

theorem HasOrigins.run_connect (h : net.HasOrigins made) (hab : net.connectFault? a b = none) :
    HasOrigins ((Net.connect a b).run net).2
      fun c => if c = net.nextConnection then some net else made c := by
  rw [run_connect_of_none hab]
  exact .connect a b h hab

theorem hidden_record_iff {l : Interface} : l.record p = .hidden ↔ p ∉ l := by
  rw [Interface.record, ← List.idxOf?_eq_none_iff]
  cases l.idxOf? p <;> simp

/-- An end of a connection is a hidden one when it was hidden in the net in which the connection was
made by connecting two ports. -/
theorem HasOrigins.isHiddenEnd_iff (h : net.HasOrigins made) (hwell : net.WellFormed)
    {c : ConnectionId} (hlink : net.linkOf? p = some c) :
    net.IsHiddenEnd p ↔ ∃ before, made c = some before ∧ p ∉ before.interface := by
  obtain ⟨data, hc, hp⟩ := hwell.linkOf?_eq_some_iff.1 hlink
  obtain ⟨hnone, hsome⟩ := h.restore_eq hc
  constructor
  · rintro ⟨d, other, hd, hends⟩
    obtain ⟨rfl, rfl⟩ := hwell.connection_unique hc hp hd (hends.imp And.left And.left)
    cases hmade : made c with
    | none =>
      rw [hnone hmade] at hends
      rcases hends with ⟨-, hhidden⟩ | ⟨-, hhidden⟩ <;> cases hhidden
    | some before =>
      rw [hsome before hmade] at hends
      refine ⟨before, rfl, ?_⟩
      rcases hends with ⟨rfl, hhidden⟩ | ⟨rfl, hhidden⟩ <;> exact hidden_record_iff.1 hhidden
  · rintro ⟨before, hmade, hnot⟩
    refine ⟨c, data, hc, ?_⟩
    rw [hsome before hmade]
    rcases hp with rfl | rfl
    · exact .inl ⟨rfl, hidden_record_iff.2 hnot⟩
    · exact .inr ⟨rfl, hidden_record_iff.2 hnot⟩

/-! ### Operations -/

/-- Connections that come from somewhere still do so in another net. -/
def PassesOn (net after : Net) : Prop :=
  ∀ made, net.HasOrigins made → ∃ made', after.HasOrigins made'

namespace PassesOn

theorem refl (net : Net) : net.PassesOn net :=
  fun made h => ⟨made, h⟩

theorem trans (h : net.PassesOn mid) (h' : mid.PassesOn after) : net.PassesOn after := by
  intro made hmade
  obtain ⟨made', hmade'⟩ := h made hmade
  exact h' made' hmade'

theorem of_keepsRecords (h : net.KeepsRecords after) : net.PassesOn after :=
  fun _ hmade => ⟨_, .change hmade h⟩

theorem of_eq (h : after.connections = net.connections) : net.PassesOn after :=
  of_keepsRecords (.of_eq h)

/-- Wiring passes on where connections come from: one that is made comes from the net in which its
ports were free. -/
theorem followsWiring : FollowsWiring PassesOn where
  refl := refl
  trans := trans
  join hab := fun _ hmade => ⟨_, .connect _ _ hmade hab⟩
  separate _ := of_keepsRecords (.unlink _ _)

/-- A composition that is refused keeps the net. -/
theorem getD {result : Except Fault Net} (h : ∀ {after}, result = .ok after → net.PassesOn after) :
    net.PassesOn (result.toOption.getD net) := by
  cases result with
  | error fault => exact .refl net
  | ok after => exact h rfl

end PassesOn

end Net

/-- Every operation passes on where connections come from. -/
theorem Operation.passesOn {net : Net} (operation : Operation) (h : net.WellFormed)
    (haccepted : ∀ rule ∈ operation.rules, rule.Accepted) :
    net.PassesOn (operation.perform net) := by
  have hreduced : ∀ {r : Reducer}, (∀ rule ∈ r.rules.rules, rule.Accepted) → ∀ call,
      net.PassesOn (r.leave call net) := fun haccepted call =>
    .of_keepsRecords ((isInvariant_keepsRecords haccepted net).leave haccepted ⟨h, .of_eq rfl⟩
      call).2
  have hcopied : ∀ other expose, net.PassesOn (net.inject other expose).2 :=
    fun other expose => .of_keepsRecords (.inject net other expose)
  cases operation with
  | newAgent symbol => exact .of_eq (net.connections_allocAgent symbol)
  | connect a b => exact PassesOn.followsWiring.connect a b net
  | disconnect c => exact PassesOn.followsWiring.disconnect c net
  | connectInterface left right =>
    exact PassesOn.followsWiring.connectInterface left right net
  | restrictInterface ports =>
    exact PassesOn.followsWiring.bind (PassesOn.followsWiring.guard _) (fun _ _ => .of_eq rfl) net
  | extendInterface ports =>
    exact PassesOn.followsWiring.bind (PassesOn.followsWiring.guard _) (fun _ _ => .of_eq rfl) net
  | removeAgent a =>
    cases ha : net.agent? a with
    | none =>
      rw [perform, Net.removeAgent, Edit.run_bind, Edit.run_look, ha]
      exact .refl net
    | some agent =>
      obtain ⟨after, hrun, hafter⟩ := h.exists_isWithout ha
      rw [perform, hrun]
      refine .of_keepsRecords fun c data hc => ?_
      rw [hafter.connection?_eq, Option.filter_eq_some_iff] at hc
      exact .inl hc.1
  | inject other expose => exact hcopied other expose
  | parallel right => exact hcopied right true
  | tensor right => exact hcopied right true
  | sequential right =>
    exact .getD fun hafter =>
      (hcopied right true).trans (PassesOn.followsWiring.sequential hafter)
  | compose right mapping =>
    exact .getD fun hafter => (hcopied right true).trans (PassesOn.followsWiring.compose hafter)
  | interact watch rule pair =>
    rcases hrun : (Net.interact watch rule pair).run net with ⟨fault | _, after⟩
    · rw [perform, hrun, ((refusedFor_interact watch rule pair fault after).1 hrun).2]
      exact .refl net
    · rw [perform, hrun]
      exact .of_keepsRecords (.interact hrun)
  | step r => exact hreduced haccepted .step
  | normalize r limit => exact hreduced haccepted (.normalize limit)
  | reduce r fuel => exact hreduced haccepted (.reduce fuel)
  | round r limit => exact hreduced haccepted (.round limit)
  | normalizeInRounds r limit => exact hreduced haccepted (.normalizeInRounds limit)
  | reduceInRounds r fuel => exact hreduced haccepted (.reduceInRounds fuel)

theorem Rule.Made.accepted {rule : Rule} (h : rule.Made) : rule.Accepted := by
  obtain ⟨hnet, hrule⟩ := h
  exact ⟨_, _, _, hnet.wellFormed, hrule⟩

/-- The connections of a reachable net come from somewhere. -/
theorem Net.Reachable.exists_hasOrigins {net : Net} (h : net.Reachable) :
    ∃ made, net.HasOrigins made :=
  @Net.Reachable.rec (fun net _ => ∃ made, net.HasOrigins made) (fun _ _ => True)
    ⟨_, .empty⟩
    (fun symbol => ⟨_, .change .empty (.of_eq (Net.empty.connections_allocAgent symbol))⟩)
    (fun operation hnet _ hrules hmade _ _ => by
      obtain ⟨made, hmade⟩ := hmade
      exact operation.passesOn hnet.wellFormed (fun rule hrule => (hrules rule hrule).accepted)
        made hmade)
    (fun _ _ _ => trivial) net h

/-! ### Taking an agent out -/

namespace Net

variable {net : Net} {a : AgentId} {agent : Agent}

/-- **An agent is taken out, and nothing else.** The symbol of the agent is given back. The agent
and its ports are gone, with exactly the connections that have an end among its ports, however often
the agent is connected to itself; every other agent, port and connection is as it was. A port of
another agent that was connected to it is unconnected. The interface has the ports that were there
before and are not the agent's, in the same order, and the ports that were connected to the agent,
unless they were hidden when they were connected: that is, unless the connection was made by
connecting two ports of a net in which this one was not on the interface. -/
theorem removeAgent_isWithout (h : net.WellFormed) (ha : net.agent? a = some agent) :
    ∃ after, (removeAgent a).run net = (.ok agent.symbol, after) ∧ net.IsWithout a after ∧
      ∀ made, net.HasOrigins made → ∀ p ∉ net.portsOf a, ∀ q ∈ net.portsOf a, net.Joined p q →
        ∃ c, net.linkOf? p = some c ∧
          (p ∈ after.interface ↔ ∀ before, made c = some before → p ∈ before.interface) := by
  obtain ⟨after, hrun, hafter⟩ := h.exists_isWithout ha
  refine ⟨after, hrun, hafter, fun made hmade p hp q hq hpq => ?_⟩
  obtain ⟨port, hport, hlink⟩ := h.port_of_joined hpq
  obtain ⟨c, hc⟩ := Option.isSome_iff_exists.1 hlink
  have hlink' : net.linkOf? p = some c := by rw [linkOf?, hport, Option.bind_some, hc]
  refine ⟨c, hlink', ?_⟩
  have hnot : p ∉ net.interface := h.not_mem_interface_of_joined hpq
  have hhidden : (∃ q ∈ net.portsOf a, net.Joined p q ∧ ¬ net.IsHiddenEnd p) ↔
      ¬ net.IsHiddenEnd p := by
    constructor
    · rintro ⟨_, -, -, hend⟩
      exact hend
    · exact fun hend => ⟨q, hq, hpq, hend⟩
  rw [hafter.mem_interface_iff, and_iff_right hp, or_iff_right hnot, hhidden,
    hmade.isHiddenEnd_iff h hlink']
  simp only [not_exists, not_and, not_not]

/-- An agent beside three others. -/
def untied : Net :=
  ((((single ⟨"F", 4⟩).newAgent ⟨"P", 1⟩).2.newAgent ⟨"P", 1⟩).2.newAgent ⟨"P", 1⟩).2

/-- The agent is connected to itself, and a port of another one is hidden. -/
def selfTied : Net :=
  ((restrictInterface [4]).run ((connect 1 2).run untied).2).2

/-- The agent is connected to the hidden port, too. -/
def halfTied : Net :=
  ((connect 0 4).run selfTied).2

/-- The agent is connected to a port on the interface, too; a third port is still there. -/
def tiedUp : Net :=
  ((connect 3 5).run halfTied).2

theorem wellFormed_tiedUp : tiedUp.WellFormed :=
  (((((((wellFormed_single ⟨"F", 4⟩).newAgent ⟨"P", 1⟩).newAgent ⟨"P", 1⟩).newAgent
    ⟨"P", 1⟩).run_connect 1 2).run_restrictInterface [4]).run_connect 0 4).run_connect 3 5

theorem exists_hasOrigins_tiedUp :
    ∃ made, tiedUp.HasOrigins made ∧ made 1 = some selfTied ∧ made 2 = some halfTied := by
  have huntied : untied.HasOrigins _ := .change .empty (.of_eq rfl)
  have hself : selfTied.HasOrigins _ :=
    .change (huntied.run_connect (a := 1) (b := 2) (by decide +kernel)) (.of_eq rfl)
  have hhalf : halfTied.HasOrigins _ := hself.run_connect (by decide +kernel)
  refine ⟨_, hhalf.run_connect (a := 3) (b := 5) (by decide +kernel), ?_, ?_⟩
  · rw [if_neg (by decide +kernel), if_pos (by decide +kernel)]
  · rw [if_pos (by decide +kernel)]

/-- When the agent is taken out, the port that was on the interface when it was connected comes back
before the one that is still there; the one that was hidden then stays away. -/
theorem removeAgent_isWithout_tiedUp :
    ∃ after made, (removeAgent 0).run tiedUp = (.ok ⟨"F", 4⟩, after) ∧ tiedUp.IsWithout 0 after ∧
      tiedUp.interface = [6] ∧ after.interface = [5, 6] ∧ tiedUp.HasOrigins made ∧
      (made 1 = some selfTied ∧ 4 ∉ selfTied.interface ∧ 4 ∉ after.interface) ∧
      made 2 = some halfTied ∧ 5 ∈ halfTied.interface ∧ 5 ∈ after.interface := by
  have ha : tiedUp.agent? 0 = some ⟨0, ⟨"F", 4⟩, [0, 1, 2, 3]⟩ := by decide +kernel
  have hpeers : tiedUp.peer? 4 = some 0 ∧ tiedUp.peer? 5 = some 3 := by decide +kernel
  have hlinks : tiedUp.linkOf? 4 = some 1 ∧ tiedUp.linkOf? 5 = some 2 := by decide +kernel
  have hstood : 4 ∉ selfTied.interface ∧ 5 ∈ halfTied.interface := by decide +kernel
  have hinterface : tiedUp.interface = [6] ∧
      ((removeAgent 0).run tiedUp).2.interface = [5, 6] := by
    decide +kernel
  obtain ⟨made, hmade, hhidden, hvisible⟩ := exists_hasOrigins_tiedUp
  obtain ⟨after, hrun, hafter, horigins⟩ := removeAgent_isWithout wellFormed_tiedUp ha
  have hcomes := fun p hp q hq hpq =>
    horigins made hmade p hp q hq (wellFormed_tiedUp.peer?_eq_some_iff.1 hpq)
  obtain ⟨c, hc, haway⟩ := hcomes 4 (by decide +kernel) 0 (by decide +kernel) hpeers.1
  obtain ⟨d, hd, hback⟩ := hcomes 5 (by decide +kernel) 3 (by decide +kernel) hpeers.2
  obtain rfl := Option.some.inj (hlinks.1.symm.trans hc)
  obtain rfl := Option.some.inj (hlinks.2.symm.trans hd)
  rw [hrun] at hinterface
  refine ⟨after, made, hrun, hafter, hinterface.1, hinterface.2, hmade,
    ⟨hhidden, hstood.1, fun hmem => hstood.1 (haway.1 hmem selfTied hhidden)⟩, hvisible, hstood.2,
    hback.2 fun before hbefore => ?_⟩
  obtain rfl := Option.some.inj (hvisible.symm.trans hbefore)
  exact hstood.2

end Net

end InteractionNets
