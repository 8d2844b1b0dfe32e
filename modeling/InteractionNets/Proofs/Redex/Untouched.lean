import InteractionNets.Proofs.Redex.Locality

/-!
# Pairs that an interaction does not touch

An interaction links ports that were connected to its two agents, with each other and with what it
puts in. Two active pairs touch when an auxiliary port of an agent of the one is connected to one of
the other (`Net.Touches`). The ports of a pair that is not touched stay connected as they were, and
on the interface if they were there; so what is read of its surroundings stays the same
(`Net.read_of_untouched`), although the interaction may have taken the ids of its own ports and
connections back into use.
-/

namespace InteractionNets

open Net

/-- An auxiliary port of an agent of the one pair is connected to an auxiliary port of an agent of
the other. -/
def Net.Touches (net : Net) (pair other : ActivePair) : Prop :=
  ∃ a ∈ pair.agents, ∃ b ∈ other.agents, ∃ p ∈ net.auxiliaryOf a, ∃ q ∈ net.auxiliaryOf b,
    net.Joined p q

variable {net after : Net} {rule : Rule} {pair other : ActivePair}

theorem Net.mem_auxiliaryOf_iff {a : AgentId} {p : PortId} :
    p ∈ net.auxiliaryOf a ↔ ∃ k, (net.portsOf a)[k + 1]? = some p := by
  cases ha : net.agent? a with
  | none => simp [auxiliaryOf, ha, portsOf_eq_nil ha]
  | some data =>
    rw [portsOf_eq ha, auxiliaryOf, ha, Option.map_some, Option.getD_some, Agent.auxiliary,
      List.mem_iff_getElem?]
    simp

theorem Net.auxiliaryOf_congr {a : AgentId} (ha : after.agent? a = net.agent? a) :
    after.auxiliaryOf a = net.auxiliaryOf a := by
  rw [auxiliaryOf, auxiliaryOf, ha]

/-! ### Reading -/

namespace Surroundings

/-- What is read of an active pair: what its auxiliary ports are attached to. -/
theorem read_of_mem_activePairs (h : net.WellFormed) (hpair : pair ∈ net.activePairs)
    (rule : Rule) : read net pair rule =
      (rule.orient pair.symbol₁ pair.symbol₂).elim (.error (.noApplicableRule pair)) fun sides =>
        .ok ⟨pair, slotsFrom net pair sides sides.1 0 (net.auxiliaryOf pair.agent₁) ++
          slotsFrom net pair sides sides.2 0 (net.auxiliaryOf pair.agent₂)⟩ := by
  obtain ⟨data, agent₁, agent₂, hdata, hports, hagents, h₁, h₂, hport₁, hport₂, hsymbol₁,
    hsymbol₂⟩ := activePair_spec h hpair
  rw [← hsymbol₁, ← hsymbol₂]
  cases horient : rule.orient agent₁.symbol agent₂.symbol <;>
    simp [read, hdata, hports, hagents, h₁, h₂, hport₁, hport₂, horient, auxiliaryOf]

theorem slotsFrom_congr {sides : Side × Side} {side : Side} {start : Nat} {ports : List PortId}
    (hports : ∀ p ∈ ports, outsideOf after pair sides p = outsideOf net pair sides p) :
    slotsFrom after pair sides side start ports = slotsFrom net pair sides side start ports := by
  induction ports generalizing start with
  | nil => rfl
  | cons port rest ih =>
    rw [List.forall_mem_cons] at hports
    rw [slotsFrom, slotsFrom, hports.1, ih hports.2]

/-- Reading a pair gives the same in two nets where it is active and its ports are attached to the
same. -/
theorem read_congr (h : net.WellFormed) (hafter : after.WellFormed) (hpair : pair ∈ net.activePairs)
    (hpair' : pair ∈ after.activePairs)
    (hagent : ∀ a ∈ pair.agents, after.agent? a = net.agent? a)
    (hports : ∀ a ∈ pair.agents, ∀ p ∈ net.auxiliaryOf a, ∀ sides,
      outsideOf after pair sides p = outsideOf net pair sides p) (rule : Rule) :
    read after pair rule = read net pair rule := by
  have hmem₁ : pair.agent₁ ∈ pair.agents := by simp [ActivePair.agents]
  have hmem₂ : pair.agent₂ ∈ pair.agents := by simp [ActivePair.agents]
  have hslots : ∀ {a}, a ∈ pair.agents → ∀ sides side,
      slotsFrom after pair sides side 0 (after.auxiliaryOf a) =
        slotsFrom net pair sides side 0 (net.auxiliaryOf a) := by
    intro a ha sides side
    rw [auxiliaryOf_congr (hagent a ha)]
    exact slotsFrom_congr fun p hp => hports a ha p hp sides
  rw [read_of_mem_activePairs h hpair, read_of_mem_activePairs hafter hpair']
  simp only [hslots hmem₁, hslots hmem₂]

end Surroundings

/-! ### Ports that are not touched -/

namespace Net

variable {agents : Side → AgentId} {copy : AgentId → AgentId} {port : PortId → PortId}
  {p q : PortId}

/-- A port of the net at the end of a path was connected to the redex. -/
theorem IsRedex.exists_joined_of_path (hr : net.IsRedex rule agents) (h : net.WellFormed)
    (hv : rule.Valid) (hfresh : net.FreshPorts rule port) (hlive : (net.port? p).isSome)
    {e f : PathEnd} (hpath : (net.turns rule agents).Path e f) (he : e.port? port = some p) :
    ∃ q, net.Joined p q ∧ ¬ net.IsOutside agents q := by
  obtain ⟨d, s, hturn, -⟩ := (hr.regular h hv).exists_first hpath
  cases d with
  | inward =>
    -- a port that is put in has an id that was not live
    cases hturn with
    | port hsplice =>
      obtain rfl := Option.some.inj he
      rw [hfresh (hv.wellFormed.isFree_iff.1 (hv.port_free hsplice)).1] at hlive
      cases hlive
  | outward =>
    cases hturn with
    | peer hslot hjoined =>
      obtain rfl := Option.some.inj he
      exact ⟨_, hjoined.symm, fun hout => hout s.side (List.mem_of_getElem? hslot)⟩
    | free => cases he
    | hidden => cases he

/-- A port outside a redex that is not connected to the redex. -/
structure IsUntouched (net : Net) (agents : Side → AgentId) (p : PortId) : Prop where
  isSome : (net.port? p).isSome
  isOutside : net.IsOutside agents p
  isOutside_of_joined : ∀ {q}, net.Joined p q → net.IsOutside agents q

namespace IsRewrite

variable (hw : net.IsRewrite rule agents after copy port) (hr : net.IsRedex rule agents)
  (h : net.WellFormed) (hv : rule.Valid) (hfresh : net.FreshPorts rule port)
  (hp : net.IsUntouched agents p)

include hw hr h hv hfresh hp

/-- A port that is not touched stays connected as it was. -/
theorem joined_iff_of_untouched : after.Joined p q ↔ net.Joined p q := by
  constructor
  · intro hpq
    rcases hw.joined.1 hpq with ⟨hold, -⟩ | ⟨p₀, q₀, hput, rfl, -⟩ | ⟨e, f, hpath, he, -⟩
    · exact hold
    · have hlive := hp.isSome
      rw [hfresh (hv.wellFormed.isSome_of_joined hput)] at hlive
      cases hlive
    · obtain ⟨r, hr', hout⟩ := hr.exists_joined_of_path h hv hfresh hp.isSome hpath he
      exact absurd (hp.isOutside_of_joined hr') hout
  · exact fun hpq => hw.joined.2 (.inl ⟨hpq, hp.isOutside, hp.isOutside_of_joined hpq⟩)

/-- A port that is not touched stays on the interface, and it does not get there. -/
theorem mem_interface_iff_of_untouched : p ∈ after.interface ↔ p ∈ net.interface := by
  obtain ⟨place, hinterface, houtside, hslot⟩ := hw.interface
  rw [hinterface, List.mem_filterMap]
  constructor
  · rintro ⟨r, hmem, hplace⟩
    by_cases hout : net.IsOutside agents r
    · rw [houtside r hmem hout] at hplace
      exact Option.some.inj hplace ▸ hmem
    · obtain ⟨e, hpath, he⟩ := hslot r hmem hout
      obtain ⟨s, hs, hnot⟩ := hr.exists_joined_of_path h hv hfresh hp.isSome hpath.symm
        (he.symm.trans hplace)
      exact absurd (hp.isOutside_of_joined hs) hnot
  · exact fun hmem => ⟨p, hmem, houtside p hmem hp.isOutside⟩

/-- What a port that is not touched is attached to stays the same. -/
theorem outsideOf_of_untouched (pair : ActivePair) (sides : Side × Side) :
    Surroundings.outsideOf after pair sides p = Surroundings.outsideOf net pair sides p := by
  have hjoined : ∀ {q}, after.Joined p q ↔ net.Joined p q :=
    hw.joined_iff_of_untouched hr h hv hfresh hp
  by_cases hpeer : ∃ q, net.Joined p q
  · obtain ⟨q, hpq⟩ := hpeer
    obtain ⟨b, k, hq⟩ := h.port?_isSome_iff.1 (h.isSome_of_joined hpq.symm)
    have hne := (isOutside_iff_ne h hq).1 (hp.isOutside_of_joined hpq)
    have hq' : (after.portsOf b)[k]? = some q := by
      rwa [hw.portsOf_outside (isSome_agent?_of_getElem? hq) hne]
    rw [Surroundings.outsideOf_of_joined h hpq hq,
      Surroundings.outsideOf_of_joined hw.wellFormed (hjoined.2 hpq) hq']
  · have hnone : ∀ q, ¬ net.Joined p q := fun q hpq => hpeer ⟨q, hpq⟩
    rw [Surroundings.outsideOf_of_not_joined h hnone,
      Surroundings.outsideOf_of_not_joined hw.wellFormed fun q hpq => hnone q (hjoined.1 hpq)]
    simp only [hw.mem_interface_iff_of_untouched hr h hv hfresh hp]

end IsRewrite

/-! ### Pairs that are not touched -/

/-- The ports of a pair that does not touch an independent redex are not touched. -/
theorem isUntouched_of_not_touches (h : net.WellFormed) (hr : net.IsRedex rule agents)
    (hsame : SamePair pair.ends agents) (hapart : pair.isIndependentOf other)
    (htouch : ¬ net.Touches other pair) {a : AgentId} (ha : a ∈ other.agents)
    (hp : p ∈ net.auxiliaryOf a) : net.IsUntouched agents p := by
  obtain ⟨k, hk⟩ := mem_auxiliaryOf_iff.1 hp
  have hne : ∀ side, a ≠ agents side := by
    obtain ⟨side', rfl⟩ := ActivePair.mem_agents_iff.1 ha
    exact fun side => (hsame.apart (.refl _) (ActivePair.isIndependentOf_iff.1 hapart) side
      side').symm
  refine ⟨by rw [h.port?_eq hk]; rfl, (isOutside_iff_ne h hk).2 hne, fun {q} hpq side hq => ?_⟩
  obtain ⟨j, hj⟩ := List.mem_iff_getElem?.1 hq
  cases j with
  | zero =>
    -- the principal ports of a redex are connected to each other
    obtain ⟨q', r, hq', hr', hjoined⟩ := hr.exists_principal side
    obtain rfl := Option.some.inj (hq'.symm.trans hj)
    obtain rfl := h.joined_unique hpq.symm hjoined
    exact Nat.succ_ne_zero k (h.port_unique hk hr').2
  | succ j =>
    obtain ⟨side', hside⟩ := hsame.exists_side side
    rw [hside] at hj
    exact htouch ⟨a, ha, pair.ends side', ActivePair.mem_agents_iff.2 ⟨side', rfl⟩, p, hp, q,
      mem_auxiliaryOf_iff.2 ⟨j, hj⟩, hpq⟩

/-- **An interaction keeps what it does not touch.** Another active pair keeps its agents. If it
does not touch the pair that interacts, its auxiliary ports stay connected as they were, and reading
its surroundings gives what it gave before. -/
theorem read_of_untouched (h : net.WellFormed) (hv : rule.Valid) {watch : Stopwatch}
    (hrun : net.interact watch rule pair = (.ok (), after)) (hother : other ∈ net.activePairs)
    (hapart : pair.isIndependentOf other) :
    (∀ a ∈ other.agents, after.agent? a = net.agent? a) ∧
      (¬ net.Touches other pair →
        (∀ a ∈ other.agents, ∀ p ∈ net.auxiliaryOf a, ∀ {q}, after.Joined p q ↔ net.Joined p q) ∧
          ∀ rule', Surroundings.read after other rule' = Surroundings.read net other rule') := by
  rcases interact_cases h hv watch pair with ⟨fault, herror⟩ |
    ⟨last, sides, copy, port, hlast, hredex, -, hw, hfresh⟩
  · cases herror.symm.trans hrun
  obtain rfl := (Prod.mk.inj (hlast.symm.trans hrun)).2
  have hr := hredex.isRedex
  have hsame := pair.samePair_agentOn hredex.sides_eq
  have hne := hsame.apart (.refl other.ends) (ActivePair.isIndependentOf_iff.1 hapart)
  have hagent : ∀ a ∈ other.agents, last.agent? a = net.agent? a := by
    intro a ha
    obtain ⟨side', rfl⟩ := ActivePair.mem_agents_iff.1 ha
    obtain ⟨hport₁, hport₂⟩ := principal_of_mem_activePairs h hother
    refine hw.agent?_outside ?_ fun side => (hne side side').symm
    cases side' with
    | left => exact isSome_agent?_of_getElem? hport₁
    | right => exact isSome_agent?_of_getElem? hport₂
  refine ⟨hagent, fun htouch => ?_⟩
  have huntouched : ∀ a ∈ other.agents, ∀ p ∈ net.auxiliaryOf a,
      net.IsUntouched (pair.agentOn sides) p := fun a ha p hp =>
    isUntouched_of_not_touches h hr hsame hapart htouch ha hp
  refine ⟨fun a ha p hp {q} => hw.joined_iff_of_untouched hr h hv hfresh (huntouched a ha p hp), ?_⟩
  exact Surroundings.read_congr h hw.wellFormed hother (hw.mem_activePairs h hother hne) hagent
    fun a ha p hp => hw.outsideOf_of_untouched hr h hv hfresh (huntouched a ha p hp) other

end Net

end InteractionNets
