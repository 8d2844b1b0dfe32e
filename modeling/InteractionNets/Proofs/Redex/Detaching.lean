import InteractionNets.Proofs.Net.Preservation
import InteractionNets.Proofs.Redex.Surroundings
import InteractionNets.Redex.Interaction

/-!
# Detaching a redex

A plan is carried out by taking the redex out first: the ports of its two agents lose their
connections one after another. This leaves a well-formed net in which the other connections and the
interface are as they were (`Plan.detached_detach`).
-/

namespace InteractionNets

/-- A port that belongs to neither of the two agents of a redex. -/
def Net.IsOutside (net : Net) (agents : Side → AgentId) (p : PortId) : Prop :=
  ∀ side, p ∉ net.portsOf (agents side)

/-- The two sides are played by the two agents of the pair. -/
theorem ActivePair.forall_agentOn_iff {pair : ActivePair} {sides : Side × Side}
    (hsides : sides.2 = sides.1.flip) {P : AgentId → Prop} :
    (∀ side, P (pair.agentOn sides side)) ↔ P pair.agent₁ ∧ P pair.agent₂ := by
  have hne : sides.2 ≠ sides.1 := by
    rw [hsides]
    cases sides.1 <;> simp [Side.flip]
  constructor
  · intro hall
    have h₁ := hall sides.1
    have h₂ := hall sides.2
    rw [ActivePair.agentOn, if_pos rfl] at h₁
    rw [ActivePair.agentOn, if_neg hne] at h₂
    exact ⟨h₁, h₂⟩
  · rintro ⟨h₁, h₂⟩ side
    unfold ActivePair.agentOn
    split
    · exact h₁
    · exact h₂

namespace Plan

open Net

variable {net : Net}

/-- Remove the connection of a port, if there is one. -/
private def unlinkPort (net : Net) (port : PortId) : Net :=
  match net.linkOf? port with
  | some connection => net.unlink connection
  | none => net

private theorem wellFormed_unlinkPort (h : net.WellFormed) (port : PortId) :
    (unlinkPort net port).WellFormed := by
  unfold unlinkPort
  split
  · exact h.unlink _
  · exact h

private theorem joined_unlinkPort (h : net.WellFormed) {port p q : PortId} :
    (unlinkPort net port).Joined p q ↔ net.Joined p q ∧ p ≠ port ∧ q ≠ port := by
  unfold unlinkPort
  cases hlink : net.linkOf? port with
  | none =>
    have hnone : ∀ r, ¬ net.Joined port r := by
      intro r hr
      obtain ⟨data, hdata, hsome⟩ := h.port_of_joined hr
      simp [linkOf?, hdata] at hlink
      simp [hlink] at hsome
    refine ⟨fun hpq => ⟨hpq, ?_, ?_⟩, And.left⟩
    · rintro rfl
      exact hnone q hpq
    · rintro rfl
      exact hnone p hpq.symm
  | some c =>
    obtain ⟨data, hdata, hport⟩ := h.linkOf?_eq_some_iff.1 hlink
    have hends : net.Joined data.ports.1 data.ports.2 := ⟨c, data, hdata, .inl rfl⟩
    show (net.unlink c).Joined p q ↔ _
    rw [joined_unlink h hdata]
    constructor
    · rintro ⟨hpq, h₁, h₂⟩
      refine ⟨hpq, ?_, ?_⟩
      · rintro rfl
        exact hport.elim h₁ h₂
      · rintro rfl
        rcases hport with rfl | rfl
        · exact h₂ (h.joined_unique hpq.symm hends)
        · exact h₁ (h.joined_unique hpq.symm hends.symm)
    · rintro ⟨hpq, hp, hq⟩
      refine ⟨hpq, ?_, ?_⟩
      · rintro rfl
        rcases hport with rfl | rfl
        · exact hp rfl
        · exact hq (h.joined_unique hpq hends)
      · rintro rfl
        rcases hport with rfl | rfl
        · exact hq (h.joined_unique hpq hends.symm)
        · exact hp rfl

private theorem agents_unlinkPort (net : Net) (port : PortId) :
    (unlinkPort net port).agents = net.agents := by
  unfold unlinkPort
  split <;> simp

private theorem interface_unlinkPort (net : Net) (port : PortId) :
    (unlinkPort net port).interface = net.interface := by
  unfold unlinkPort
  split <;> simp

private theorem connection?_unlinkPort (h : net.WellFormed) {port : PortId} {c : ConnectionId}
    {data : Connection} (hc : net.connection? c = some data) (h₁ : data.ports.1 ≠ port)
    (h₂ : data.ports.2 ≠ port) : (unlinkPort net port).connection? c = some data := by
  unfold unlinkPort
  cases hlink : net.linkOf? port with
  | none => exact hc
  | some d =>
    show (net.unlink d).connection? c = some data
    rw [connection?_unlink, if_neg, hc]
    rintro rfl
    obtain ⟨data', hdata', hport⟩ := h.linkOf?_eq_some_iff.1 hlink
    obtain rfl := Option.some.inj (hc.symm.trans hdata')
    rcases hport with rfl | rfl
    · exact h₁ rfl
    · exact h₂ rfl

/-- A net in which some ports have lost their connections. -/
private structure Cut (net after : Net) (ports : List PortId) : Prop where
  wellFormed : after.WellFormed
  agents : after.agents = net.agents
  interface : after.interface = net.interface
  joined : ∀ {p q}, after.Joined p q ↔ net.Joined p q ∧ p ∉ ports ∧ q ∉ ports
  connection : ∀ {c data}, net.connection? c = some data → data.ports.1 ∉ ports →
    data.ports.2 ∉ ports → after.connection? c = some data

private theorem cut_foldl (h : net.WellFormed) (ports : List PortId) :
    Cut net (ports.foldl unlinkPort net) ports := by
  induction ports generalizing net with
  | nil => exact ⟨h, rfl, rfl, by simp, fun hc _ _ => hc⟩
  | cons port rest ih =>
    have hrest := ih (wellFormed_unlinkPort h port)
    rw [List.foldl_cons]
    refine ⟨hrest.wellFormed, ?_, ?_, ?_, ?_⟩
    · rw [hrest.agents, agents_unlinkPort]
    · rw [hrest.interface, interface_unlinkPort]
    · intro p q
      rw [hrest.joined, joined_unlinkPort h]
      simp only [List.mem_cons]
      tauto
    · intro c data hc h₁ h₂
      rw [List.mem_cons, not_or] at h₁ h₂
      exact hrest.connection (connection?_unlinkPort h hc h₁.1 h₂.1) h₁.2 h₂.2

variable {rule : Rule} {pair : ActivePair} {sides : Side × Side}

/-- A detached redex: its ports are joined to nothing, and nothing else has changed. -/
structure Detached (net after : Net) (agents : Side → AgentId) : Prop where
  wellFormed : after.WellFormed
  agents_eq : after.agents = net.agents
  interface_eq : after.interface = net.interface
  joined : ∀ {p q}, after.Joined p q ↔
    net.Joined p q ∧ net.IsOutside agents p ∧ net.IsOutside agents q
  connection : ∀ {c data}, net.connection? c = some data → net.IsOutside agents data.ports.1 →
    net.IsOutside agents data.ports.2 → after.connection? c = some data

/-- A port lies outside when neither agent of the pair lists it. -/
private theorem isOutside_iff (hsides : sides.2 = sides.1.flip) {p : PortId} :
    net.IsOutside (pair.agentOn sides) p ↔
      p ∉ net.portsOf pair.agent₁ ∧ p ∉ net.portsOf pair.agent₂ :=
  ActivePair.forall_agentOn_iff (P := fun a => p ∉ net.portsOf a) hsides

theorem detached_detach (h : net.WellFormed) (hp : net.IsRedexOf rule pair sides) :
    Detached net (detach net pair) (pair.agentOn sides) := by
  obtain ⟨data, hdata, hports⟩ := hp.connection
  have hjoined : net.Joined pair.port₁ pair.port₂ := ⟨_, data, hdata, .inl hports⟩
  have hlink : net.linkOf? pair.port₁ = some pair.connection :=
    h.linkOf?_eq_some_iff.2 ⟨data, hdata, .inl (by rw [hports])⟩
  have hsplit : ∀ {a p}, (net.portsOf a)[0]? = some p → net.portsOf a = p :: net.auxiliaryOf a := by
    intro a p hfirst
    cases ha : net.agent? a with
    | none => simp [portsOf_eq_nil ha] at hfirst
    | some agent =>
      rw [portsOf_eq ha] at hfirst ⊢
      cases hlist : agent.ports <;> simp_all [auxiliaryOf, Agent.auxiliary]
  have hsplit₁ := hsplit hp.port₁
  have hsplit₂ := hsplit hp.port₂
  -- the connection of the pair is that of its first port
  have hfold : detach net pair = (pair.port₁ :: (net.auxiliaryOf pair.agent₁ ++
      net.auxiliaryOf pair.agent₂)).foldl unlinkPort net := by
    rw [List.foldl_cons, unlinkPort, hlink]
    rfl
  have hcut := cut_foldl h (pair.port₁ :: (net.auxiliaryOf pair.agent₁ ++
    net.auxiliaryOf pair.agent₂))
  rw [← hfold] at hcut
  -- a port that is joined to something other than the first port is not the second one
  have hmem : ∀ {p q}, net.Joined p q → q ≠ pair.port₁ →
      (net.IsOutside (pair.agentOn sides) p ↔ p ∉ pair.port₁ :: (net.auxiliaryOf pair.agent₁ ++
        net.auxiliaryOf pair.agent₂)) := by
    intro p q hpq hq
    have hsecond : p ≠ pair.port₂ := by
      rintro rfl
      exact hq (h.joined_unique hpq hjoined.symm)
    rw [isOutside_iff hp.sides_eq, hsplit₁, hsplit₂]
    simp only [List.mem_cons, List.mem_append]
    tauto
  have hfirst : ¬ net.IsOutside (pair.agentOn sides) pair.port₁ := by
    rw [isOutside_iff hp.sides_eq, hsplit₁]
    simp
  refine ⟨hcut.wellFormed, hcut.agents, hcut.interface, ?_, ?_⟩
  · intro p q
    rw [hcut.joined]
    constructor
    · rintro ⟨hpq, hp', hq'⟩
      have hp₁ : p ≠ pair.port₁ := fun heq => hp' (heq ▸ List.mem_cons_self)
      have hq₁ : q ≠ pair.port₁ := fun heq => hq' (heq ▸ List.mem_cons_self)
      exact ⟨hpq, (hmem hpq hq₁).2 hp', (hmem hpq.symm hp₁).2 hq'⟩
    · rintro ⟨hpq, hp', hq'⟩
      have hp₁ : p ≠ pair.port₁ := fun heq => hfirst (heq ▸ hp')
      have hq₁ : q ≠ pair.port₁ := fun heq => hfirst (heq ▸ hq')
      exact ⟨hpq, (hmem hpq hq₁).1 hp', (hmem hpq.symm hp₁).1 hq'⟩
  · intro c data' hc h₁ h₂
    have hpq : net.Joined data'.ports.1 data'.ports.2 := ⟨c, data', hc, .inl rfl⟩
    have hp₁ : data'.ports.1 ≠ pair.port₁ := fun heq => hfirst (heq ▸ h₁)
    have hq₁ : data'.ports.2 ≠ pair.port₁ := fun heq => hfirst (heq ▸ h₂)
    exact hcut.connection hc ((hmem hpq hq₁).1 h₁) ((hmem hpq.symm hp₁).1 h₂)

end Plan

end InteractionNets
