import InteractionNets.Proofs.Redex.Exchange

/-!
# Independent pairs

The active pairs of a well-formed net are independent of each other
(`Net.WellFormed.pairwise_activePairs`), and an interaction leaves the pairs alone that are
independent of the one that interacts: they remain active pairs with the same records
(`Net.IsRewrite.mem_activePairs`).
-/

namespace InteractionNets

open Net

variable {net after : Net} {rules : RuleSet} {pair other : ActivePair} {agents : Side → AgentId}

namespace ActivePair

theorem mem_agents_iff {a : AgentId} : a ∈ pair.agents ↔ ∃ side, pair.ends side = a := by
  rw [agents, List.mem_pair]
  constructor
  · rintro (rfl | rfl)
    · exact ⟨.left, rfl⟩
    · exact ⟨.right, rfl⟩
  · rintro ⟨side | side, rfl⟩
    · exact .inl rfl
    · exact .inr rfl

theorem isIndependentOf_iff :
    pair.isIndependentOf other ↔ ∀ side side', pair.ends side ≠ other.ends side' := by
  simp only [isIndependentOf, List.all_eq_true, Bool.not_eq_true', List.contains_eq_mem,
    decide_eq_false_iff_not, mem_agents_iff]
  constructor
  · exact fun hapart side side' heq => hapart _ ⟨side, rfl⟩ ⟨side', heq.symm⟩
  · rintro hapart _ ⟨side, rfl⟩ ⟨side', heq⟩
    exact hapart side side' heq.symm

end ActivePair

namespace Net

theorem connection_of_activePairOf? {c : Connection} (hpair : net.activePairOf? c = some pair) :
    pair.connection = c.id := by
  rw [activePairOf?] at hpair
  split at hpair
  · split at hpair
    · rw [← Option.some.inj hpair]
    · cases hpair
  · cases hpair

/-- Active pairs with a common agent are made by one connection. -/
theorem WellFormed.connection_eq_of_ends_eq (h : net.WellFormed) (hpair : pair ∈ net.activePairs)
    (hother : other ∈ net.activePairs) {side side' : Side}
    (heq : pair.ends side = other.ends side') : pair.connection = other.connection := by
  have hsame := (meets_of_mem_activePairs h hpair).samePair_of_eq h
    (meets_of_mem_activePairs h hother) heq
  obtain ⟨data, -, -, hdata, hports, -⟩ := Surroundings.activePair_spec h hpair
  obtain ⟨data', -, -, hdata', hports', -⟩ := Surroundings.activePair_spec h hother
  obtain ⟨hport₁, hport₂⟩ := principal_of_mem_activePairs h hpair
  obtain ⟨hport, -⟩ := principal_of_mem_activePairs h hother
  -- the first port of the other pair is one of the ports of this pair
  have hlisted : other.port₁ = data.ports.1 ∨ other.port₁ = data.ports.2 := by
    obtain ⟨side₀, hside₀⟩ := hsame.exists_side .left
    have hagent : other.agent₁ = pair.ends side₀ := hside₀
    rw [hports]
    rw [hagent] at hport
    cases side₀ with
    | left => exact .inl (Option.some.inj (hport.symm.trans hport₁))
    | right => exact .inr (Option.some.inj (hport.symm.trans hport₂))
  have hlisted' : other.port₁ = data'.ports.1 := by rw [hports']
  exact (h.connection_unique hdata hlisted hdata' (.inl hlisted')).1

/-- **Active pairs are independent of each other.** -/
theorem WellFormed.pairwise_activePairs (h : net.WellFormed) :
    net.activePairs.Pairwise fun pair other => pair.isIndependentOf other := by
  have hids : net.connectionList.Pairwise fun c d => c.id ≠ d.id :=
    List.pairwise_map.1 h.nodup_map_id_connectionList
  refine List.pairwise_filterMap.2
    (hids.imp_of_mem fun {c d} hc hd hne pair hpair other hother => ?_)
  rw [ActivePair.isIndependentOf_iff]
  intro side side' heq
  have hconnection := h.connection_eq_of_ends_eq (mem_activePairs_iff.2 ⟨c, hc, hpair⟩)
    (mem_activePairs_iff.2 ⟨d, hd, hother⟩) heq
  rw [connection_of_activePairOf? hpair, connection_of_activePairOf? hother] at hconnection
  exact hne hconnection

/-- Different active pairs have no agent in common. -/
theorem WellFormed.ends_ne_of_ne (h : net.WellFormed) (hpair : pair ∈ net.activePairs)
    (hother : other ∈ net.activePairs) (hne : pair ≠ other) (side side' : Side) :
    pair.ends side ≠ other.ends side' := by
  have hsymm : Std.Symm fun pair other : ActivePair => pair.isIndependentOf other = true :=
    ⟨fun pair other => by
      rw [ActivePair.isIndependentOf_iff, ActivePair.isIndependentOf_iff]
      exact fun hapart side side' => (hapart side' side).symm⟩
  exact ActivePair.isIndependentOf_iff.1 (h.pairwise_activePairs.forall hpair hother hne) side side'

/-- **Independent pairs remain** active pairs, with the records they had. -/
theorem IsRewrite.mem_activePairs {rule : Rule} {copy : AgentId → AgentId}
    {port : PortId → PortId} (hw : net.IsRewrite rule agents after copy port)
    (h : net.WellFormed) (hpair : pair ∈ net.activePairs)
    (hapart : ∀ side side', agents side ≠ pair.ends side') : pair ∈ after.activePairs := by
  obtain ⟨data, agent₁, agent₂, hdata, hports, -, h₁, h₂, -, -, hsymbol₁, hsymbol₂⟩ :=
    Surroundings.activePair_spec h hpair
  obtain ⟨hport₁, hport₂⟩ := principal_of_mem_activePairs h hpair
  have hne : ∀ side side', pair.ends side' ≠ agents side :=
    fun side side' => (hapart side side').symm
  have hagent : ∀ {side data}, net.agent? (pair.ends side) = some data →
      after.agent? (pair.ends side) = some data ∧
        after.portsOf (pair.ends side) = net.portsOf (pair.ends side) := by
    intro side data hdata
    have hlive : (net.agent? (pair.ends side)).isSome := by
      rw [hdata]
      rfl
    refine ⟨?_, hw.portsOf_outside hlive (hne · side)⟩
    rw [hw.agent?_outside hlive (hne · side), hdata]
  have hout₁ : net.IsOutside agents pair.port₁ := (isOutside_iff_ne h hport₁).2 (hne · .left)
  have hout₂ : net.IsOutside agents pair.port₂ := (isOutside_iff_ne h hport₂).2 (hne · .right)
  obtain ⟨hafter₁, hafterPorts₁⟩ := @hagent .left _ h₁
  obtain ⟨hafter₂, hafterPorts₂⟩ := @hagent .right _ h₂
  have hkept := hw.connection_old hdata (by rwa [hports]) (by rwa [hports])
  refine Surroundings.mem_activePairs_of_principal hw.wellFormed hkept hports hafter₁ hafter₂ ?_ ?_
    hsymbol₁ hsymbol₂
  · exact (congrArg (·[0]?) hafterPorts₁).trans hport₁
  · exact (congrArg (·[0]?) hafterPorts₂).trans hport₂

/-- Independent pairs remain active when agents interact. -/
theorem Interacts.mem_activePairs (h : net.WellFormed) (hi : net.Interacts rules agents after)
    (hpair : pair ∈ net.activePairs) (hapart : ∀ side side', agents side ≠ pair.ends side') :
    pair ∈ after.activePairs := by
  obtain ⟨-, hsame, -, -, hw⟩ := hi
  exact hw.mem_activePairs h hpair (hsame.apart (.refl pair.ends) hapart)

end Net

end InteractionNets
