import InteractionNets.Proofs.Redex.Attachments

/-!
# Reading the surroundings of a redex

A record of an active pair names a redex when it gives the connection of the principal ports and the
agents on the two sides (`Net.IsRedexOf`). Reading what is around a redex in a well-formed net finds
just what its slots are attached to (`Surroundings.describes_of_read`), and it succeeds for every
active pair of a rule's symbols (`Surroundings.exists_read_of_mem_activePairs`).
-/

namespace InteractionNets

/-- The agent that plays a side, in a pair whose agents play the given sides. -/
def ActivePair.agentOn (pair : ActivePair) (sides : Side × Side) (side : Side) : AgentId :=
  if side = sides.1 then pair.agent₁ else pair.agent₂

/-- Two records name one connection with the same agents and ports at its ends. The symbols that
they give may differ. -/
structure ActivePair.SameEnds (p q : ActivePair) : Prop where
  connection : p.connection = q.connection
  agent₁ : p.agent₁ = q.agent₁
  agent₂ : p.agent₂ = q.agent₂
  port₁ : p.port₁ = q.port₁
  port₂ : p.port₂ = q.port₂

theorem ActivePair.SameEnds.refl (p : ActivePair) : p.SameEnds p :=
  ⟨rfl, rfl, rfl, rfl, rfl⟩

/-! ### Reading -/

namespace Surroundings

open Net

variable {net : Net} {rule : Rule} {pair : ActivePair} {sides : Side × Side}

private theorem mem_slotsFrom {side : Side} {start : Nat} {ports : List PortId} {a : Slot}
    {o : Outside} : (a, o) ∈ slotsFrom net pair sides side start ports ↔
      ∃ (k : Nat) (p : PortId), ports[k]? = some p ∧ a = ⟨side, start + k⟩ ∧
        o = outsideOf net pair sides p := by
  induction ports generalizing start with
  | nil => simp [slotsFrom]
  | cons q rest ih =>
    rw [slotsFrom, List.mem_cons, ih]
    constructor
    · rintro (heq | ⟨k, p, hk, rfl, rfl⟩)
      · cases heq
        exact ⟨0, q, rfl, rfl, rfl⟩
      · exact ⟨k + 1, p, hk, by rw [Nat.add_assoc, Nat.add_comm 1], rfl⟩
    · rintro ⟨k, p, hk, rfl, rfl⟩
      cases k with
      | zero =>
        cases Option.some.inj hk
        exact .inl rfl
      | succ k => exact .inr ⟨k, p, hk, by rw [Nat.add_assoc, Nat.add_comm 1], rfl⟩

private theorem nodup_slotsFrom (side : Side) (start : Nat) (ports : List PortId) :
    ((slotsFrom net pair sides side start ports).map Prod.fst).Nodup := by
  induction ports generalizing start with
  | nil => exact List.nodup_nil
  | cons q rest ih =>
    rw [slotsFrom, List.map_cons, List.nodup_cons]
    refine ⟨fun hmem => ?_, ih _⟩
    obtain ⟨⟨a, o⟩, hmem, ha⟩ := List.mem_map.1 hmem
    obtain ⟨k, p, -, rfl, -⟩ := mem_slotsFrom.1 hmem
    have hindex : start + 1 + k = start := congrArg Slot.index ha
    omega

private theorem sideOf?_eq_some_iff (hsides : sides.2 = sides.1.flip)
    (hagents : pair.agent₁ ≠ pair.agent₂) {b : AgentId} {side : Side} :
    sideOf? pair sides b = some side ↔ b = pair.agentOn sides side := by
  obtain ⟨s₁, s₂⟩ := sides
  obtain rfl : s₂ = s₁.flip := hsides
  unfold sideOf? ActivePair.agentOn
  by_cases h₁ : b = pair.agent₁
  · subst h₁
    cases s₁ <;> cases side <;> simp [hagents]
  · by_cases h₂ : b = pair.agent₂
    · subst h₂
      cases s₁ <;> cases side <;> simp [Side.flip, hagents.symm]
    · cases s₁ <;> cases side <;> simp [h₁, h₂]

/-- The slots of the two agents of a redex, with what is read of their ports. -/
private theorem mem_read_iff (hsides : sides.2 = sides.1.flip) {agent₁ agent₂ : Agent}
    (h₁ : net.agent? pair.agent₁ = some agent₁) (h₂ : net.agent? pair.agent₂ = some agent₂)
    {a : Slot} {o : Outside} :
    (a, o) ∈ slotsFrom net pair sides sides.1 0 agent₁.auxiliary ++
        slotsFrom net pair sides sides.2 0 agent₂.auxiliary ↔
      (net.slotPort? (pair.agentOn sides) a).map (outsideOf net pair sides) = some o := by
  have hports₁ : net.portsOf (pair.agentOn sides sides.1) = agent₁.ports := by
    rw [ActivePair.agentOn, if_pos rfl, portsOf_eq h₁]
  have hports₂ : net.portsOf (pair.agentOn sides sides.2) = agent₂.ports := by
    have hne : sides.2 ≠ sides.1 := by rw [hsides]; cases sides.1 <;> simp [Side.flip]
    rw [ActivePair.agentOn, if_neg hne, portsOf_eq h₂]
  rw [List.mem_append, mem_slotsFrom, mem_slotsFrom, Option.map_eq_some_iff]
  constructor
  · rintro (⟨k, p, hk, rfl, rfl⟩ | ⟨k, p, hk, rfl, rfl⟩)
    · refine ⟨p, ?_, rfl⟩
      rw [slotPort?, hports₁]
      simpa [Agent.auxiliary] using hk
    · refine ⟨p, ?_, rfl⟩
      rw [slotPort?, hports₂]
      simpa [Agent.auxiliary] using hk
  · rintro ⟨p, ha, rfl⟩
    obtain ⟨side, index⟩ := a
    have hside : side = sides.1 ∨ side = sides.2 := by
      rw [hsides]
      cases side <;> cases sides.1 <;> simp [Side.flip]
    rcases hside with rfl | rfl
    · rw [slotPort?, hports₁] at ha
      exact .inl ⟨index, p, by simpa [Agent.auxiliary] using ha, by rw [Nat.zero_add], rfl⟩
    · rw [slotPort?, hports₂] at ha
      exact .inr ⟨index, p, by simpa [Agent.auxiliary] using ha, by rw [Nat.zero_add], rfl⟩

variable (h : net.WellFormed)

include h

/-- A port that is not connected is attached to its place on the interface, or to nothing. -/
theorem outsideOf_of_not_joined {p : PortId} (hp : ∀ q, ¬ net.Joined p q) :
    outsideOf net pair sides p = if p ∈ net.interface then .free p else .hidden := by
  have hpeer : net.peer? p = none := by
    rw [Option.eq_none_iff_forall_ne_some]
    intro q hq
    exact hp q (h.peer?_eq_some_iff.1 hq)
  simp [outsideOf, peerPort?, hpeer]

/-- A connected port is attached to its peer, or to the slot of that. -/
theorem outsideOf_of_joined {p q : PortId} (hpq : net.Joined p q) {b : AgentId} {k : Nat}
    (hq : (net.portsOf b)[k]? = some q) :
    outsideOf net pair sides p =
      (sideOf? pair sides b).elim (.peer q) fun side => .slot ⟨side, k - 1⟩ := by
  simp only [outsideOf, peerPort?, h.peer?_eq_some_iff.2 hpq, Option.bind_some, h.port?_eq hq]
  cases sideOf? pair sides b <;> rfl

variable (hr : net.IsRedex rule (pair.agentOn sides))

include hr

private theorem agents_ne_of_isRedex : pair.agent₁ ≠ pair.agent₂ := by
  obtain ⟨s₁, s₂⟩ := sides
  have hne := hr.agents_ne h
  intro heq
  cases s₁ <;> simp [ActivePair.agentOn, heq] at hne

variable (hsides : sides.2 = sides.1.flip)

include hsides

/-- Every slot is attached to something. -/
private theorem exists_outer {a : Slot} {p : PortId}
    (ha : net.slotPort? (pair.agentOn sides) a = some p) :
    net.Outer (pair.agentOn sides) a (outsideOf net pair sides p).turn := by
  by_cases hjoined : ∃ q, net.Joined p q
  · obtain ⟨q, hpq⟩ := hjoined
    obtain ⟨b, k, hq⟩ := h.port?_isSome_iff.1 (h.isSome_of_joined hpq.symm)
    rw [outsideOf_of_joined h hpq hq]
    have hside := @sideOf?_eq_some_iff pair sides hsides (agents_ne_of_isRedex h hr) b
    cases hb : sideOf? pair sides b with
    | some side =>
      obtain rfl := hside.1 hb
      exact .slot ha (hr.exists_slot_of_joined h ha hpq hq).2 hpq
    | none =>
      refine .peer ha hpq fun side hmem => ?_
      obtain ⟨j, hj⟩ := List.mem_iff_getElem?.1 hmem
      rw [hside.2 (h.port_unique hq hj).1] at hb
      cases hb
  · have hnone : ∀ q, ¬ net.Joined p q := fun q hpq => hjoined ⟨q, hpq⟩
    rw [outsideOf_of_not_joined h hnone]
    by_cases hp : p ∈ net.interface
    · rw [if_pos hp]
      exact .free ha hp
    · rw [if_neg hp]
      exact .hidden ha hnone hp

/-- What is read of a slot's port is what the slot is attached to outside. -/
private theorem outer_iff {a : Slot} {p : PortId}
    (ha : net.slotPort? (pair.agentOn sides) a = some p) {turn : Turn Slot PathEnd} :
    net.Outer (pair.agentOn sides) a turn ↔ (outsideOf net pair sides p).turn = turn := by
  constructor
  · have hside := @sideOf?_eq_some_iff pair sides hsides (agents_ne_of_isRedex h hr)
    intro houter
    cases houter with
    | @peer p' q ha' hpq hother =>
      cases Option.some.inj (ha.symm.trans ha')
      obtain ⟨b, k, hq⟩ := h.port?_isSome_iff.1 (h.isSome_of_joined hpq.symm)
      rw [outsideOf_of_joined h hpq hq]
      cases hb : sideOf? pair sides b with
      | none => rfl
      | some side =>
        obtain rfl := hside.1 hb
        exact absurd (List.mem_of_getElem? hq) (hother side)
    | free ha' hp =>
      cases Option.some.inj (ha.symm.trans ha')
      have hfree := h.isFree_iff.1 (h.isFree_of_mem_interface hp)
      rw [outsideOf_of_not_joined h hfree.2, if_pos hp]
      rfl
    | hidden ha' hnone hp =>
      cases Option.some.inj (ha.symm.trans ha')
      rw [outsideOf_of_not_joined h hnone, if_neg hp]
      rfl
    | @slot b p' q ha' hb hpq =>
      cases Option.some.inj (ha.symm.trans ha')
      rw [outsideOf_of_joined h hpq hb, hside.2 rfl]
      rfl
  · rintro rfl
    exact exists_outer h hr hsides ha

end Surroundings

/-! ### Pairs that name a redex -/

/-- The record of an active pair describes a redex of a net, whose agents play the given sides. -/
structure Net.IsRedexOf (net : Net) (rule : Rule) (pair : ActivePair) (sides : Side × Side) :
    Prop where
  sides_eq : sides.2 = sides.1.flip
  isRedex : net.IsRedex rule (pair.agentOn sides)
  connection : ∃ data, net.connection? pair.connection = some data ∧
    data.ports = (pair.port₁, pair.port₂)
  port₁ : (net.portsOf pair.agent₁)[0]? = some pair.port₁
  port₂ : (net.portsOf pair.agent₂)[0]? = some pair.port₂
  /-- The sides are those that the agents' symbols have in the rule. -/
  orient : ∃ agent₁ agent₂, net.agent? pair.agent₁ = some agent₁ ∧
    net.agent? pair.agent₂ = some agent₂ ∧ rule.orient agent₁.symbol agent₂.symbol = some sides

namespace Surroundings

open Net

variable {net : Net} {rule : Rule} {pair : ActivePair} {s : Surroundings}

/-- What reading finds for the record of an active pair that describes a redex. -/
structure Describes (s : Surroundings) (net : Net) (rule : Rule) (pair : ActivePair)
    (sides : Side × Side) : Prop where
  isRedexOf : net.IsRedexOf rule pair sides
  pair_eq : s.pair = pair
  fits : s.Fits rule
  turns_eq : (s.edges rule).turns = net.turns rule (pair.agentOn sides)

/-- What has been read when the reading is not refused. -/
private theorem read_eq_ok (hs : read net pair rule = .ok s) :
    ∃ data agent₁ agent₂ sides, net.connection? pair.connection = some data ∧
      data.ports = (pair.port₁, pair.port₂) ∧ net.agent? pair.agent₁ = some agent₁ ∧
      net.agent? pair.agent₂ = some agent₂ ∧ agent₁.principal? = some pair.port₁ ∧
      agent₂.principal? = some pair.port₂ ∧
      rule.orient agent₁.symbol agent₂.symbol = some sides ∧
      s = ⟨pair, slotsFrom net pair sides sides.1 0 agent₁.auxiliary ++
        slotsFrom net pair sides sides.2 0 agent₂.auxiliary⟩ := by
  unfold read at hs
  split at hs
  · cases hs
  · rename_i data hdata
    split at hs
    · cases hs
    · rename_i hends
      split at hs
      · cases hs
      · cases hs
      · rename_i agent₁ agent₂ h₁ h₂
        split at hs
        · cases hs
        · rename_i hprincipal
          split at hs
          · cases hs
          · rename_i sides horient
            obtain ⟨hports, -⟩ := not_or.1 hends
            obtain ⟨hport₁, hport₂⟩ := not_or.1 hprincipal
            exact ⟨data, agent₁, agent₂, sides, hdata, not_not.1 hports, h₁, h₂,
              not_not.1 hport₁, not_not.1 hport₂, horient, (Except.ok.inj hs).symm⟩

/-- Reading with a rule that is for the agents' symbols describes a redex. -/
private theorem isRedexOf_of_orient {data : Connection}
    {agent₁ agent₂ : Agent} {sides : Side × Side}
    (hdata : net.connection? pair.connection = some data)
    (hports : data.ports = (pair.port₁, pair.port₂)) (h₁ : net.agent? pair.agent₁ = some agent₁)
    (h₂ : net.agent? pair.agent₂ = some agent₂) (hport₁ : agent₁.principal? = some pair.port₁)
    (hport₂ : agent₂.principal? = some pair.port₂)
    (horient : rule.orient agent₁.symbol agent₂.symbol = some sides) :
    net.IsRedexOf rule pair sides := by
  have hjoined : net.Joined pair.port₁ pair.port₂ := ⟨_, data, hdata, .inl hports⟩
  have hfirst₁ := (getElem?_portsOf_zero h₁).trans hport₁
  have hfirst₂ := (getElem?_portsOf_zero h₂).trans hport₂
  refine ⟨Rule.snd_eq_flip_of_orient horient, ?_, ⟨data, hdata, hports⟩, hfirst₁, hfirst₂,
    agent₁, agent₂, h₁, h₂, horient⟩
  rw [Rule.orient] at horient
  split at horient
  · rename_i hsymbols
    obtain rfl := Option.some.inj horient
    refine ⟨fun side => ?_, pair.port₁, pair.port₂, hfirst₁, hfirst₂, hjoined⟩
    cases side with
    | left => exact ⟨agent₁, h₁, hsymbols.1⟩
    | right => exact ⟨agent₂, h₂, hsymbols.2⟩
  · split at horient
    · rename_i hsymbols
      obtain rfl := Option.some.inj horient
      refine ⟨fun side => ?_, pair.port₂, pair.port₁, hfirst₂, hfirst₁, hjoined.symm⟩
      cases side with
      | left => exact ⟨agent₂, h₂, hsymbols.2⟩
      | right => exact ⟨agent₁, h₁, hsymbols.1⟩
    · cases horient

/-- The slots of two sides are different. -/
private theorem nodup_read {sides : Side × Side} (hsides : sides.2 = sides.1.flip)
    (ports₁ ports₂ : List PortId) :
    ((slotsFrom net pair sides sides.1 0 ports₁ ++
      slotsFrom net pair sides sides.2 0 ports₂).map Prod.fst).Nodup := by
  rw [List.map_append]
  refine (nodup_slotsFrom _ _ _).append (nodup_slotsFrom _ _ _) fun a ha ha' => ?_
  obtain ⟨⟨b, o⟩, hb, rfl⟩ := List.mem_map.1 ha
  obtain ⟨⟨c, o'⟩, hc, heq⟩ := List.mem_map.1 ha'
  obtain ⟨k, p, -, rfl, -⟩ := mem_slotsFrom.1 hb
  obtain ⟨k', p', -, rfl, -⟩ := mem_slotsFrom.1 hc
  have hside : sides.2 = sides.1 := congrArg Slot.side heq
  rw [hsides] at hside
  cases hs₁ : sides.1 <;> simp [hs₁, Side.flip] at hside

section Edges

variable {sides : Side × Side} (h : net.WellFormed) (hv : rule.Valid)
  (hredex : net.IsRedexOf rule pair sides)
  (houtside : ∀ a, s.outside? a =
    (net.slotPort? (pair.agentOn sides) a).map (outsideOf net pair sides))

include h hredex houtside

/-- The edges found by reading make the turns of the paths through the redex. -/
private theorem turns_edges :
    (s.edges rule).turns = net.turns rule (pair.agentOn sides) := by
  funext d a turn
  refine propext ?_
  cases d with
  | inward =>
    show (rule.replacement.splice? a).map Splice.turn = some turn ↔ rule.Inner a turn
    rw [Option.map_eq_some_iff]
    constructor
    · rintro ⟨splice, hsplice, rfl⟩
      cases splice with
      | port p => exact .port hsplice
      | wire b => exact .wire hsplice
    · intro hinner
      cases hinner with
      | port hp => exact ⟨_, hp, rfl⟩
      | wire hb => exact ⟨_, hb, rfl⟩
  | outward =>
    show (s.outside? a).map Outside.turn = some turn ↔ net.Outer _ a turn
    rw [houtside, Option.map_map]
    cases hp : net.slotPort? (pair.agentOn sides) a with
    | none =>
      constructor
      · intro hnone
        cases hnone
      · intro houter
        cases houter <;> simp_all
    | some p =>
      have houter : net.Outer (pair.agentOn sides) _ turn ↔ _ :=
        outer_iff h hredex.isRedex hredex.sides_eq hp
      constructor
      · exact fun hturn => houter.2 (Option.some.inj hturn)
      · exact fun hturn => congrArg some (houter.1 hturn)

include hv

private theorem lawful_edges (hslots : ∀ {a}, a ∈ s.slotList ↔ a ∈ rule.slots) :
    (s.edges rule).Lawful s.slotList := by
  have hedges : ∀ {d a turn}, s.edges rule d a = some turn ↔
      net.turns rule (pair.agentOn sides) d a turn := by
    intro d a turn
    rw [← turns_edges h hredex houtside]
  constructor
  case isSome_iff =>
    intro d a
    rw [hslots]
    cases d with
    | inward =>
      show ((rule.replacement.splice? a).map Splice.turn).isSome ↔ _
      rw [Option.isSome_map]
      exact hv.splice_isSome
    | outward =>
      show ((s.outside? a).map Outside.turn).isSome ↔ _
      rw [houtside, Option.isSome_map, Option.isSome_map]
      exact hredex.isRedex.isSome_slotPort?_iff h hv
  case symm =>
    intro d a b hab
    rw [hedges] at hab ⊢
    exact (hredex.isRedex.regular h hv).symm hab
  case ne =>
    intro d a b hab
    rw [hedges] at hab
    cases d with
    | inward =>
      cases hab with
      | wire hb => exact hv.wire_ne hb
    | outward =>
      cases hab with
      | slot ha hb hpq =>
        rintro rfl
        exact h.joined_ne hpq (Option.some.inj (ha.symm.trans hb))

end Edges

/-- What is read of a redex by a valid rule: its slots, each with what it is attached to. -/
theorem describes_of_read (h : net.WellFormed) (hv : rule.Valid)
    (hs : read net pair rule = .ok s) : ∃ sides, s.Describes net rule pair sides := by
  obtain ⟨data, agent₁, agent₂, sides, hdata, hports, h₁, h₂, hport₁, hport₂, horient, hread⟩ :=
    read_eq_ok hs
  have hredex := isRedexOf_of_orient hdata hports h₁ h₂ hport₁ hport₂ horient
  have hpair : s.pair = pair := by rw [hread]
  have hnodup : s.slotList.Nodup := by
    rw [slotList, hread]
    exact nodup_read hredex.sides_eq _ _
  have houtside : ∀ a, s.outside? a =
      (net.slotPort? (pair.agentOn sides) a).map (outsideOf net pair sides) := by
    intro a
    refine Option.ext fun o => ?_
    refine (lookup_eq_some_iff_mem hnodup).trans ?_
    rw [hread]
    exact mem_read_iff hredex.sides_eq h₁ h₂
  have hslots : ∀ {a}, a ∈ s.slotList ↔ a ∈ rule.slots := by
    intro a
    rw [← hredex.isRedex.isSome_slotPort?_iff h hv, slotList, ← isSome_lookup_iff]
    show (s.outside? a).isSome ↔ _
    rw [houtside, Option.isSome_map]
  exact ⟨sides, hredex, hpair, ⟨hnodup, lawful_edges h hv hredex houtside hslots⟩,
    turns_edges h hredex houtside⟩

/-- What the record of an active pair says is so. -/
theorem activePair_spec (h : net.WellFormed) (hpair : pair ∈ net.activePairs) :
    ∃ data agent₁ agent₂, net.connection? pair.connection = some data ∧
      data.ports = (pair.port₁, pair.port₂) ∧ data.agents = (pair.agent₁, pair.agent₂) ∧
      net.agent? pair.agent₁ = some agent₁ ∧ net.agent? pair.agent₂ = some agent₂ ∧
      agent₁.principal? = some pair.port₁ ∧ agent₂.principal? = some pair.port₂ ∧
      agent₁.symbol = pair.symbol₁ ∧ agent₂.symbol = pair.symbol₂ := by
  obtain ⟨c, hc, hactive⟩ := mem_activePairs_iff.1 hpair
  have hc := h.mem_connectionList_iff.1 hc
  rw [activePairOf?] at hactive
  split at hactive
  · rename_i hprincipal
    split at hactive
    · rename_i agent₁ agent₂ h₁ h₂
      obtain rfl := Option.some.inj hactive
      -- a principal port is the first one that its agent lists
      have hfirst : ∀ {p a agent}, net.isPrincipal p → c.HasEnd p a → net.agent? a = some agent →
          agent.principal? = some p := by
        intro p a agent hp hend hagent
        obtain ⟨port, hport, -, rfl⟩ := h.port_of_end hc hend
        have hposition := h.agent_of_port hport
        have hprincipal : port.principal := by simpa [isPrincipal, hport] using hp
        obtain ⟨port', hport', -, -, hiff⟩ := h.port_of_agent hposition
        obtain rfl := Option.some.inj (hport.symm.trans hport')
        rw [hiff.1 hprincipal, getElem?_portsOf_zero hagent] at hposition
        exact hposition
      obtain ⟨hp₁, hp₂⟩ := Bool.and_eq_true_iff.1 hprincipal
      exact ⟨c, agent₁, agent₂, hc, rfl, rfl, h₁, h₂, hfirst hp₁ (.inl ⟨rfl, rfl⟩) h₁,
        hfirst hp₂ (.inr ⟨rfl, rfl⟩) h₂, rfl, rfl⟩
    · cases hactive
  · cases hactive

/-- The record of a connection between two principal ports is an active pair. -/
theorem mem_activePairs_of_principal (h : net.WellFormed) {data : Connection}
    {agent₁ agent₂ : Agent} (hdata : net.connection? pair.connection = some data)
    (hports : data.ports = (pair.port₁, pair.port₂)) (h₁ : net.agent? pair.agent₁ = some agent₁)
    (h₂ : net.agent? pair.agent₂ = some agent₂)
    (hport₁ : (net.portsOf pair.agent₁)[0]? = some pair.port₁)
    (hport₂ : (net.portsOf pair.agent₂)[0]? = some pair.port₂)
    (hsymbol₁ : agent₁.symbol = pair.symbol₁) (hsymbol₂ : agent₂.symbol = pair.symbol₂) :
    pair ∈ net.activePairs := by
  have hid := h.connection_id hdata
  have hmem : data ∈ net.connectionList := h.mem_connectionList_iff.2 (by rwa [hid])
  -- the owner recorded for an end is the agent that lists it
  have hend : ∀ {p a b}, data.HasEnd p b → (net.portsOf a)[0]? = some p →
      b = a ∧ net.isPrincipal p := by
    intro p a b hend hp
    obtain ⟨port, hport, -, rfl⟩ := h.port_of_end hdata hend
    have hrecord := h.port?_eq hp
    obtain rfl := Option.some.inj (hport.symm.trans hrecord)
    exact ⟨rfl, by simp [isPrincipal, hrecord]⟩
  obtain ⟨hagent₁, hprincipal₁⟩ := hend (p := pair.port₁) (.inl ⟨by rw [hports], rfl⟩) hport₁
  obtain ⟨hagent₂, hprincipal₂⟩ := hend (p := pair.port₂) (.inr ⟨by rw [hports], rfl⟩) hport₂
  refine mem_activePairs_iff.2 ⟨data, hmem, ?_⟩
  simp only [activePairOf?, hports, hprincipal₁, hprincipal₂, hagent₁, hagent₂, h₁, h₂, hid,
    hsymbol₁, hsymbol₂, Bool.and_self, if_true]

/-- An active pair can be read by every rule that is for it, from every record that names its ends,
whatever symbols the record gives. -/
theorem exists_read_of_sameEnds (h : net.WellFormed) {actual : ActivePair}
    (hactual : actual ∈ net.activePairs) (hends : actual.SameEnds pair)
    (hfor : rule.isFor actual) : ∃ s, read net pair rule = .ok s := by
  obtain ⟨data, agent₁, agent₂, hdata, hports, hagents, h₁, h₂, hport₁, hport₂, hsymbol₁,
    hsymbol₂⟩ := activePair_spec h hactual
  obtain ⟨sides, hsides⟩ := Option.isSome_iff_exists.1 hfor
  rw [← hsymbol₁, ← hsymbol₂] at hsides
  rw [hends.connection] at hdata
  rw [hends.port₁, hends.port₂] at hports
  rw [hends.agent₁, hends.agent₂] at hagents
  rw [hends.agent₁] at h₁
  rw [hends.agent₂] at h₂
  rw [hends.port₁] at hport₁
  rw [hends.port₂] at hport₂
  simp [read, hdata, hports, hagents, h₁, h₂, hport₁, hport₂, hsides]

theorem exists_read_of_mem_activePairs (h : net.WellFormed) (hpair : pair ∈ net.activePairs)
    (hfor : rule.isFor pair) : ∃ s, read net pair rule = .ok s :=
  exists_read_of_sameEnds h hpair (.refl pair) hfor

end Surroundings

end InteractionNets
