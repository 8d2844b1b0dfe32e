import InteractionNets.Proofs.Redex.Commuting

/-!
# Interactions are local

An interaction takes its two agents away and reaches nothing else: other agents, their ports, the
connections between them and all other active pairs stay, under the ids they had
(`Net.interact_local`). What an interaction puts in gets other ids than what stays. The agents and
ports that it puts in even get ids that were not live at all, since the two agents are dropped last.
Connections are cut before others are made, so a new connection may have the id of one that was
cut (`Net.interact_reuses_connection`).
-/

namespace InteractionNets

open Net

/-- Two records of a port agree on its id, its agent and its position there. -/
def Port.SamePosition (p q : Port) : Prop :=
  p.id = q.id ∧ p.agent = q.agent ∧ p.position = q.position

variable {net after : Net} {rule : Rule} {pair other : ActivePair}

namespace Net

/-- A net that differs from another one only in what has to do with some agents, which are gone, and
in what has been put in, under ids of its own. -/
structure DiffersAt (after net : Net) (gone : List AgentId) : Prop where
  /-- The other agents have their symbols and ports. -/
  agent : ∀ {a data}, net.agent? a = some data → a ∉ gone → after.agent? a = some data
  /-- The ports of the other agents are where they were. -/
  port : ∀ {p old}, net.port? p = some old → old.agent ∉ gone →
    ∃ new, after.port? p = some new ∧ new.SamePosition old
  /-- The connections between other agents have their ends in order, and go back to the places they
  did. -/
  connection : ∀ {c data}, net.connection? c = some data → data.agents.1 ∉ gone →
    data.agents.2 ∉ gone → after.connection? c = some data
  /-- All agents are old ones, or have ids that were not live. -/
  agent_new : ∀ {a data}, after.agent? a = some data →
    (net.agent? a = some data ∧ a ∉ gone) ∨ net.agent? a = none
  /-- All ports are old ones, or have ids that were not live. -/
  port_new : ∀ {p new}, after.port? p = some new →
    (∃ old, net.port? p = some old ∧ old.agent ∉ gone ∧ new.SamePosition old) ∨ net.port? p = none
  /-- All connections are old ones, or have ids that were not live, or ids of connections of the
  agents that are gone. -/
  connection_new : ∀ {c data}, after.connection? c = some data →
    (net.connection? c = some data ∧ data.agents.1 ∉ gone ∧ data.agents.2 ∉ gone) ∨
      net.connection? c = none ∨
      ∃ old, net.connection? c = some old ∧ (old.agents.1 ∈ gone ∨ old.agents.2 ∈ gone)

namespace IsRewrite

variable {agents : Side → AgentId} {copy : AgentId → AgentId} {port : PortId → PortId}
  {gone : List AgentId}

/-- An end at an agent that plays no side lies outside. -/
theorem isOutside_of_hasEnd (h : net.WellFormed) {c : ConnectionId} {data : Connection} {p : PortId}
    {a : AgentId} (hdata : net.connection? c = some data) (hend : data.HasEnd p a)
    (hne : ∀ side, a ≠ agents side) : net.IsOutside agents p := by
  obtain ⟨record, hrecord, -, rfl⟩ := h.port_of_end hdata hend
  exact (isOutside_iff_ne h (h.agent_of_port hrecord)).2 hne

/-- A rewrite differs at the agents of the redex only. -/
theorem differsAt (hw : net.IsRewrite rule agents after copy port) (h : net.WellFormed)
    (hv : rule.Valid) (hfresh : net.FreshPorts rule port)
    (hgone : ∀ {a}, a ∉ gone ↔ ∀ side, a ≠ agents side) : after.DiffersAt net gone := by
  have horigin : ∀ {b}, (after.agent? b).isSome →
      ∃ c, ((net.rewritten rule agents []).symbol c).isSome ∧ Sum.elim id copy c = b :=
    fun hb => hw.exists_agent hb
  have hconnection : ∀ {c data}, net.connection? c = some data → data.agents.1 ∉ gone →
      data.agents.2 ∉ gone → after.connection? c = some data := fun hdata h₁ h₂ =>
    hw.connection_old hdata (isOutside_of_hasEnd h hdata (.inl ⟨rfl, rfl⟩) (hgone.1 h₁))
      (isOutside_of_hasEnd h hdata (.inr ⟨rfl, rfl⟩) (hgone.1 h₂))
  constructor
  case agent =>
    intro a data ha hne
    rw [hw.agent?_outside (by simp [ha]) (hgone.1 hne), ha]
  case port =>
    intro p old hp hne
    have hposition := h.agent_of_port hp
    rw [← hw.portsOf_outside (isSome_agent?_of_getElem? hposition) (hgone.1 hne)] at hposition
    exact ⟨_, hw.wellFormed.port?_eq hposition, (h.port_id hp).symm, rfl, rfl⟩
  case connection => exact hconnection
  case agent_new =>
    intro a data ha
    obtain ⟨c | b, hc, rfl⟩ := horigin (by rw [ha]; rfl)
    · obtain ⟨hne, hlive⟩ := isSome_symbol_rewritten_inl.1 hc
      exact .inl ⟨(hw.agent?_outside hlive hne).symm.trans ha, hgone.2 hne⟩
    · exact .inr (hw.fresh (isSome_symbol_rewritten_inr.1 hc))
  case port_new =>
    intro p new hp
    -- a port belongs to an agent that was kept, or to a copy and is new like it
    have hposition := hw.wellFormed.agent_of_port hp
    obtain ⟨c | b, hc, hagent⟩ := horigin (isSome_agent?_of_getElem? hposition)
    · obtain ⟨hne, hlive⟩ := isSome_symbol_rewritten_inl.1 hc
      rw [← hagent, Sum.elim_inl, id, hw.portsOf_outside hlive hne] at hposition
      exact .inl ⟨_, h.port?_eq hposition, hgone.2 hne, hw.wellFormed.port_id hp, hagent.symm, rfl⟩
    · have hlive := isSome_symbol_rewritten_inr.1 hc
      rw [← hagent, Sum.elim_inr, hw.portsOf_copy hlive, List.getElem?_map] at hposition
      obtain ⟨p₀, hp₀, rfl⟩ := Option.map_eq_some_iff.1 hposition
      exact .inr (hfresh (hv.wellFormed.port?_isSome_iff.2 ⟨_, _, hp₀⟩))
  case connection_new =>
    intro c data hc
    cases hold : net.connection? c with
    | none => exact .inr (.inl rfl)
    | some old =>
      by_cases hgone' : old.agents.1 ∈ gone ∨ old.agents.2 ∈ gone
      · exact .inr (.inr ⟨old, rfl, hgone'⟩)
      · obtain ⟨h₁, h₂⟩ := not_or.1 hgone'
        obtain rfl := Option.some.inj ((hconnection hold h₁ h₂).symm.trans hc)
        exact .inl ⟨rfl, h₁, h₂⟩

end IsRewrite

/-- **Interactions are local.** Different active pairs of a well-formed net share no agent. An
interaction leaves a net that differs from the one before at the two agents of its pair only, and
the other active pairs are still active pairs with the same records. -/
theorem interact_local (h : net.WellFormed) :
    (∀ pair ∈ net.activePairs, ∀ other ∈ net.activePairs, pair ≠ other →
      ∀ a ∈ pair.agents, a ∉ other.agents) ∧
    ∀ {rule : Rule}, rule.Accepted → ∀ pair ∈ net.activePairs, ∀ watch after,
      net.interact watch rule pair = (.ok (), after) →
        after.DiffersAt net pair.agents ∧
          ∀ other ∈ net.activePairs, other ≠ pair → other ∈ after.activePairs := by
  refine ⟨fun pair hpair other hother hne a ha ha' => ?_, fun hrule pair hpair watch after hok => ?_⟩
  · obtain ⟨side, hside⟩ := ActivePair.mem_agents_iff.1 ha
    obtain ⟨side', hside'⟩ := ActivePair.mem_agents_iff.1 ha'
    exact h.ends_ne_of_ne hpair hother hne side side' (hside.trans hside'.symm)
  · rcases interact_cases h hrule.valid watch pair with ⟨fault, herror⟩ |
      ⟨last, sides, copy, port, hlast, hredex, -, hw, hfresh⟩
    · cases herror.symm.trans hok
    · obtain rfl := (Prod.mk.inj (hlast.symm.trans hok)).2
      have hsame := pair.samePair_agentOn hredex.sides_eq
      refine ⟨hw.differsAt h hrule.valid hfresh fun {a} => ?_, fun other hother hne => ?_⟩
      · rw [ActivePair.mem_agents_iff, not_exists]
        constructor
        · intro hne side heq
          obtain ⟨side', hside'⟩ := hsame.exists_side side
          exact hne side' (hside'.symm.trans heq.symm)
        · intro hne side heq
          obtain ⟨side', hside'⟩ := hsame.symm.exists_side side
          exact hne side' (heq.symm.trans hside')
      · exact hw.mem_activePairs h hother
          (hsame.apart (.refl _) (h.ends_ne_of_ne hpair hother hne.symm))

/-- One pair of passages interacts, and the other pair stays. -/
theorem interact_local_passages :
    (passages.interact .stopped lopsided firstPassages).2.DiffersAt passages firstPassages.agents ∧
      secondPassages ∈ (passages.interact .stopped lopsided firstPassages).2.activePairs := by
  obtain ⟨hdiffers, hkept⟩ := (interact_local wellFormed_passages).2 accepted_lopsided
    firstPassages (by decide +kernel) .stopped _ (Prod.fst_eq_iff.1 (by decide +kernel))
  exact ⟨hdiffers, hkept secondPassages (by decide +kernel) (by decide)⟩

/-! ### Connections that come back -/

/-- Two erasers leave two erasers that face each other. -/
def respawning : Rule :=
  ⟨Combinators.epsilon, Combinators.epsilon,
    .ofNet (facing Combinators.epsilon Combinators.epsilon)⟩

theorem accepted_respawning : respawning.Accepted :=
  ⟨Combinators.epsilon, Combinators.epsilon, respawning.replacement, wellFormed_facing _ _,
    by decide +kernel⟩

/-- Two erasers that face each other. -/
def facingErasers : ActivePair :=
  ⟨0, 0, 1, 0, 1, Combinators.epsilon, Combinators.epsilon⟩

/-- A new connection may have an id that was live: that of the connection of the pair. -/
theorem interact_reuses_connection :
    (facing Combinators.epsilon Combinators.epsilon).WellFormed ∧ respawning.Accepted ∧
      facingErasers ∈ (facing Combinators.epsilon Combinators.epsilon).activePairs ∧
      ((facing Combinators.epsilon Combinators.epsilon).interact .stopped respawning
        facingErasers).1 = .ok () ∧
      ¬ ∀ c data, ((facing Combinators.epsilon Combinators.epsilon).interact .stopped respawning
          facingErasers).2.connection? c = some data →
        (facing Combinators.epsilon Combinators.epsilon).connection? c = some data ∨
          (facing Combinators.epsilon Combinators.epsilon).connection? c = none := by
  refine ⟨wellFormed_facing _ _, accepted_respawning, by decide +kernel, by decide +kernel,
    fun hfresh => ?_⟩
  -- the new connection joins the ports 2 and 3
  have hnew : ((facing Combinators.epsilon Combinators.epsilon).interact .stopped respawning
      facingErasers).2.connection? 0 = some ⟨0, (2, 3), (2, 3), (.unrecorded, .unrecorded)⟩ := by
    decide +kernel
  have hold : (facing Combinators.epsilon Combinators.epsilon).connection? 0 =
      some ⟨0, (0, 1), (0, 1), (.interface 0, .interface 1)⟩ := by
    decide +kernel
  rcases hfresh 0 _ hnew with hsame | hnone
  · cases hold.symm.trans hsame
  · cases hold.symm.trans hnone

end Net

end InteractionNets
