import InteractionNets.Proofs.Net.Copying
import InteractionNets.Proofs.Redex.Linking

/-!
# What carrying out a plan does

`Net.IsRewrite` describes the net after an interaction by the paths through the redex: which agents
there are, which ports are joined, and what became of the interface. A plan whose links match the
paths is carried out in five stages, and each stage leaves a well-formed net: the redex is detached,
the replacement net is copied, the ends of the paths are linked, their places on the interface are
passed on, and the two agents are dropped (`Plan.isRewrite_commit`).
-/

namespace InteractionNets

/-- A net after an interaction, in terms of the net before it. -/
structure Net.IsRewrite (net : Net) (rule : Rule) (agents : Side → AgentId) (after : Net)
    (copy : AgentId → AgentId) (port : PortId → PortId) : Prop where
  wellFormed : after.WellFormed
  /-- The copies of the replacement net's agents have ids that were not live. -/
  fresh : ∀ {a}, (rule.replacement.net.agent? a).isSome → net.agent? (copy a) = none
  /-- Different agents have different copies. -/
  injective : ∀ {a b}, (rule.replacement.net.agent? a).isSome →
    (rule.replacement.net.agent? b).isSome → copy a = copy b → a = b
  /-- A copy has the symbol of its agent and the copies of its ports. -/
  agent_copy : ∀ {a data}, rule.replacement.net.agent? a = some data →
    after.agent? (copy a) = some ⟨copy a, data.symbol, data.ports.map port⟩
  /-- The two agents of the redex are gone. -/
  agent_gone : ∀ side, after.agent? (agents side) = none
  /-- Every other agent is as before. -/
  agent_old : ∀ {x}, (∀ side, x ≠ agents side) →
    (∀ a, (rule.replacement.net.agent? a).isSome → x ≠ copy a) → after.agent? x = net.agent? x
  /-- Connections outside the redex stay. -/
  connection_old : ∀ {c data}, net.connection? c = some data → net.IsOutside agents data.ports.1 →
    net.IsOutside agents data.ports.2 → after.connection? c = some data
  /-- Ports are joined as they were, as they are in the replacement net, or by a path. -/
  joined : ∀ {p q}, after.Joined p q ↔
    (net.Joined p q ∧ net.IsOutside agents p ∧ net.IsOutside agents q) ∨
    (∃ p₀ q₀, rule.replacement.net.Joined p₀ q₀ ∧ port p₀ = p ∧ port q₀ = q) ∨
    ∃ e f, (net.turns rule agents).Path e f ∧ e.port? port = some p ∧ f.port? port = some q
  /-- On the interface every slot gives its place to the port at the end of its path, or loses the
  place if the path ends nowhere; the other ports stay. -/
  interface : ∃ place : PortId → Option PortId,
    after.interface = net.interface.filterMap place ∧
      (∀ p ∈ net.interface, net.IsOutside agents p → place p = some p) ∧
      ∀ p ∈ net.interface, ¬ net.IsOutside agents p →
        ∃ e, (net.turns rule agents).Path (.free p) e ∧ place p = e.port? port

namespace Plan

open Net

variable {net : Net} {rule : Rule} {pair : ActivePair} {sides : Side × Side}

/-! ### Passing places on -/

/-- What is given the place of a port on the interface. -/
private structure Places (net : Net) (rule : Rule) (agents : Side → AgentId)
    (port : PortId → PortId) (place : PortId → Option PortId) : Prop where
  outside : ∀ p ∈ net.interface, net.IsOutside agents p → place p = some p
  slot : ∀ p ∈ net.interface, ¬ net.IsOutside agents p →
    ∃ e, (net.turns rule agents).Path (.free p) e ∧ place p = e.port? port

/-- The net in which the places of the redex on the interface have been passed on. -/
private abbrev placed (mid : Net) (port : PortId → PortId) (links : List (PathEnd × PathEnd))
    (interface : Interface) : Net :=
  { linkAll (linkPairs (PathEnd.port? port) links) mid with interface }

/-- Dropping two agents whose ports are neither connected nor on the interface. -/
private theorem drop_pair (h : net.WellFormed) {a₁ a₂ : AgentId}
    (hjoined : ∀ {p q}, net.Joined p q → p ∉ net.portsOf a₁ ∧ p ∉ net.portsOf a₂)
    (hinterface : ∀ p ∈ net.interface, p ∉ net.portsOf a₁ ∧ p ∉ net.portsOf a₂) :
    ((net.dropAgent a₁).dropAgent a₂).WellFormed ∧
      ((net.dropAgent a₁).dropAgent a₂).interface = net.interface ∧
      ∀ x, ((net.dropAgent a₁).dropAgent a₂).agent? x =
        if x = a₁ ∨ x = a₂ then none else net.agent? x := by
  have hkeep : ∀ ports : List PortId, (∀ p ∈ net.interface, p ∉ ports) →
      ports.foldl List.erase net.interface = net.interface := by
    intro ports hports
    rw [foldl_erase_eq_filter h.interface_nodup, List.filter_eq_self]
    exact fun p hp => by simpa using hports p hp
  have hsecond : ∀ p ∈ (net.dropAgent a₁).portsOf a₂, p ∈ net.portsOf a₂ := by
    intro p hp
    rw [portsOf_dropAgent] at hp
    split at hp
    · cases hp
    · exact hp
  have hfirst : (net.dropAgent a₁).interface = net.interface :=
    hkeep _ fun p hp => (hinterface p hp).1
  have hdrop := h.dropAgent fun p hp q hpq => (hjoined hpq).1 hp
  refine ⟨hdrop.dropAgent fun p hp q hpq => (hjoined hpq).2 (hsecond p hp), ?_, fun x => ?_⟩
  · rw [interface_dropAgent, hfirst]
    exact hkeep _ fun p hp hmem => (hinterface p hp).2 (hsecond p hmem)
  · rw [agent?_dropAgent, agent?_dropAgent]
    by_cases h₁ : x = a₁ <;> by_cases h₂ : x = a₂ <;> simp [h₁, h₂]

namespace Prepared

variable {agents : Side → AgentId} {detached mid : Net} {copy : AgentId → AgentId}
  {port : PortId → PortId} {links : List (PathEnd × PathEnd)} {place : PortId → Option PortId}
  (h : Prepared net rule agents detached mid copy port)
  (hm : (net.turns rule agents).Matches .hidden links)
  (hplace : Places net rule agents port place)

include h hm hplace

/-- A port that is given a place was there before or is at the end of a path; in either case it is
free and belongs to neither of the two agents. -/
private theorem isFree_of_place {p q : PortId} (hp : p ∈ net.interface)
    (hq : place p = some q) :
    (linkAll (linkPairs (PathEnd.port? port) links) mid).IsFree q ∧ net.IsOutside agents q := by
  rw [isFree_linkAll]
  by_cases hout : net.IsOutside agents p
  · obtain rfl : p = q := Option.some.inj ((hplace.outside p hp hout).symm.trans hq)
    obtain ⟨hlive, hnone⟩ := h.wellFormed.isFree_iff.1 (h.wellFormed.isFree_of_mem_interface hp)
    refine ⟨⟨?_, fun hmem => ?_⟩, hout⟩
    · refine h.isCopy.isFree_old h.valid.wellFormed h.isDetached.wellFormed ?_
      refine h.isDetached.wellFormed.isFree_iff.2 ⟨h.isSome_port?_detached.2 hlive, ?_⟩
      exact fun r hr => hnone r (h.isDetached.joined.1 hr).1
    · obtain ⟨e, f, r, hpath, he, -⟩ := exists_path_of_mem_ends hm hmem
      obtain ⟨k, a, ha⟩ := hm.exists_turn hpath
      exact (h.isFree_of_turn ha he).2 hp
  · obtain ⟨e, hpath, he⟩ := hplace.slot p hp hout
    obtain ⟨k, a, ha⟩ := hm.exists_turn hpath.symm
    have heq := he.symm.trans hq
    refine ⟨⟨(h.isFree_of_turn ha heq).1, fun hmem => ?_⟩, h.isOutside_of_turn ha heq⟩
    -- the opposite end is the place itself, which is no port
    obtain ⟨e', f, r, hpath', he', hf⟩ := exists_path_of_mem_ends hm hmem
    obtain ⟨k', b, hb⟩ := hm.exists_turn hpath'
    obtain rfl := h.end_injective ha hb heq he'
    have hne : e ≠ .hidden := by
      rintro rfl
      cases he'
    obtain rfl := hm.unique hne hpath.symm hpath'
    cases hf

/-- Different places are given to different ports. -/
private theorem nodup_places : (net.interface.filterMap place).Nodup := by
  refine List.pairwise_filterMap.2 (h.wellFormed.interface_nodup.imp_of_mem ?_)
  intro p p' hp hp' hne q hq q' hq' heq
  subst heq
  -- a port that was on the interface before is at no end of a path
  have hmix : ∀ {r r'}, r ∈ net.interface → r' ∈ net.interface → net.IsOutside agents r →
      ¬ net.IsOutside agents r' → place r = some q → place r' = some q → False := by
    intro r r' hr hr' hout hout' hrq hrq'
    obtain rfl : r = q := Option.some.inj ((hplace.outside r hr hout).symm.trans hrq)
    obtain ⟨e, hpath, he⟩ := hplace.slot r' hr' hout'
    obtain ⟨k, a, ha⟩ := hm.exists_turn hpath.symm
    exact (h.isFree_of_turn ha (he.symm.trans hrq')).2 hr
  by_cases hout : net.IsOutside agents p
  · by_cases hout' : net.IsOutside agents p'
    · have h₁ := (hplace.outside p hp hout).symm.trans hq
      have h₂ := (hplace.outside p' hp' hout').symm.trans hq'
      exact hne (Option.some.inj (h₁.trans h₂.symm))
    · exact hmix hp hp' hout hout' hq hq'
  · by_cases hout' : net.IsOutside agents p'
    · exact hmix hp' hp hout' hout hq' hq
    · obtain ⟨e, hpath, he⟩ := hplace.slot p hp hout
      obtain ⟨e', hpath', he'⟩ := hplace.slot p' hp' hout'
      obtain ⟨k, a, ha⟩ := hm.exists_turn hpath.symm
      obtain ⟨k', b, hb⟩ := hm.exists_turn hpath'.symm
      obtain rfl := h.end_injective ha hb (he.symm.trans hq) (he'.symm.trans hq')
      have hne' : e ≠ .hidden := by
        rintro rfl
        cases he.symm.trans hq
      cases hm.unique hne' hpath.symm hpath'.symm
      exact hne rfl

private theorem wellFormed_placed :
    (placed mid port links (net.interface.filterMap place)).WellFormed := by
  refine (h.wellFormed_linked hm).withInterface (h.nodup_places hm hplace) fun q hq => ?_
  obtain ⟨p, hp, hpq⟩ := List.mem_filterMap.1 hq
  exact (h.isFree_of_place hm hplace hp hpq).1

omit hm hplace in
/-- Until they are dropped, the agents of the net are as they were. -/
private theorem agent?_placed {x : AgentId} {data : Agent} (hx : net.agent? x = some data)
    (interface : Interface) : (placed mid port links interface).agent? x = some data := by
  rw [agent?_withInterface, agent?_linkAll]
  refine h.isCopy.agent_old_of_some ?_
  rw [agent?, h.isDetached.agents_eq]
  exact hx

/-- With its places passed on and its agents dropped, the redex is replaced. -/
private theorem isRewrite_drop (hp : net.IsRedexOf rule pair sides)
    (hagents : agents = pair.agentOn sides) (tally : Tally) :
    net.IsRewrite rule agents
      { ((placed mid port links (net.interface.filterMap place)).dropAgent
          pair.agent₁).dropAgent pair.agent₂ with tally } copy port := by
  have hcover : ∀ {P : AgentId → Prop}, (∀ side, P (agents side)) ↔
      P pair.agent₁ ∧ P pair.agent₂ := by
    rw [hagents]
    exact ActivePair.forall_agentOn_iff hp.sides_eq
  have hout : ∀ {p}, net.IsOutside agents p →
      p ∉ net.portsOf pair.agent₁ ∧ p ∉ net.portsOf pair.agent₂ :=
    fun {p} hp' => (hcover (P := fun a => p ∉ net.portsOf a)).1 hp'
  have hports : ∀ {x}, (net.agent? x).isSome →
      (placed mid port links (net.interface.filterMap place)).portsOf x = net.portsOf x := by
    intro x hx
    obtain ⟨data, hdata⟩ := Option.isSome_iff_exists.1 hx
    rw [portsOf_eq hdata, portsOf_eq (h.agent?_placed hdata _)]
  have hports₁ := hports (isSome_agent?_of_getElem? hp.port₁)
  have hports₂ := hports (isSome_agent?_of_getElem? hp.port₂)
  -- nothing is joined to the two agents any more, so they can be dropped
  have hjoined : ∀ {p q}, (placed mid port links (net.interface.filterMap place)).Joined p q →
      p ∉ (placed mid port links (net.interface.filterMap place)).portsOf pair.agent₁ ∧
        p ∉ (placed mid port links (net.interface.filterMap place)).portsOf pair.agent₂ := by
    intro p q hpq
    rw [hports₁, hports₂]
    exact hout (h.isOutside_of_joined_linked hm hpq)
  obtain ⟨hwf, hinterface, hagent?⟩ := drop_pair (h.wellFormed_placed hm hplace) hjoined
    (fun q hq => by
      obtain ⟨p, hp', hpq⟩ := List.mem_filterMap.1 hq
      rw [hports₁, hports₂]
      exact hout (h.isFree_of_place hm hplace hp' hpq).2)
  have hfresh : ∀ {a}, (rule.replacement.net.agent? a).isSome → net.agent? (copy a) = none := by
    intro a ha
    have hnone := h.isCopy.fresh ha
    rwa [agent?, h.isDetached.agents_eq] at hnone
  have hpair : ∀ side, (net.agent? (agents side)).isSome := by
    intro side
    obtain ⟨data, hdata, -⟩ := h.isRedex.symbol side
    simp [hdata]
  constructor
  case wellFormed => exact hwf.withTally tally
  case fresh => exact hfresh
  case injective => exact h.isCopy.injective
  case agent_copy =>
    intro a data ha
    -- the agents of the redex were live when the copies were made
    have hne : ∀ side, copy a ≠ agents side := fun side =>
      (agent_ne_of_eq_none (hpair side) (hfresh (by simp [ha]))).symm
    obtain ⟨h₁, h₂⟩ := hcover.1 hne
    rw [agent?_withTally, hagent?, if_neg (not_or.2 ⟨h₁, h₂⟩), agent?_withInterface,
      agent?_linkAll]
    exact h.isCopy.agent_copy ha
  case agent_gone =>
    intro side
    have hside : agents side = pair.agent₁ ∨ agents side = pair.agent₂ := by
      rw [hagents, ActivePair.agentOn]
      split
      · exact .inl rfl
      · exact .inr rfl
    rw [agent?_withTally, hagent?, if_pos hside]
  case agent_old =>
    intro x hx hcopy
    obtain ⟨h₁, h₂⟩ := hcover.1 hx
    rw [agent?_withTally, hagent?, if_neg (not_or.2 ⟨h₁, h₂⟩), agent?_withInterface,
      agent?_linkAll, h.isCopy.agent_old hcopy, agent?, h.isDetached.agents_eq]
    rfl
  case connection_old =>
    intro c data hc h₁ h₂
    exact connection?_linkAll_of_some _ (h.isCopy.connection_old (h.isDetached.connection hc h₁ h₂))
  case joined => exact h.joined_linked hm
  case interface => exact ⟨place, hinterface, hplace.outside, hplace.slot⟩

end Prepared

/-! ### Carrying a plan out -/

/-- What takes the place of a port on the interface. -/
private def substituteOf (substitutes : List (PortId × Option PortId)) (p : PortId) :
    Option PortId :=
  match substitutes.lookup p with
  | some replacement => replacement
  | none => some p

private theorem substitute_eq_filterMap {substitutes : List (PortId × Option PortId)}
    {interface : Interface} (h : (interface.filterMap (substituteOf substitutes)).Nodup) :
    substitute substitutes interface = interface.filterMap (substituteOf substitutes) := by
  unfold substitute
  split
  · rename_i hempty
    rw [List.isEmpty_iff.1 hempty]
    exact List.filterMap_some.symm
  · exact Interface.extend_eq_append h

private theorem mem_substitutes {copies : PortMap} {links : List (PathEnd × PathEnd)} {p : PortId}
    {replacement : Option PortId} (h : (p, replacement) ∈ substitutes copies links) :
    ∃ e, ((.free p, e) ∈ links ∨ (e, .free p) ∈ links) ∧ replacement = resolve copies e := by
  obtain ⟨⟨start, stop⟩, hlink, hsubstitute⟩ := List.mem_filterMap.1 h
  split at hsubstitute
  · rename_i heq
    cases heq
    cases hsubstitute
    exact ⟨stop, .inl hlink, rfl⟩
  · rename_i heq
    cases heq
    cases hsubstitute
    exact ⟨start, .inr hlink, rfl⟩
  · cases hsubstitute

private theorem mem_map_fst_substitutes {copies : PortMap} {links : List (PathEnd × PathEnd)}
    (hfree : ∀ p q, (.free p, .free q) ∉ links) {p : PortId} {e : PathEnd}
    (h : (.free p, e) ∈ links ∨ (e, .free p) ∈ links) :
    p ∈ (substitutes copies links).map Prod.fst := by
  rw [substitutes, List.mem_map]
  rcases h with h | h
  · exact ⟨(p, resolve copies e), List.mem_filterMap.2 ⟨_, h, rfl⟩, rfl⟩
  · refine ⟨(p, resolve copies e), List.mem_filterMap.2 ⟨_, h, ?_⟩, rfl⟩
    cases e with
    | free q => exact absurd h (hfree q p)
    | host _ => rfl
    | fresh _ => rfl
    | hidden => rfl

section Commit

variable {agents : Side → AgentId} {links : List (PathEnd × PathEnd)} {copies : PortMap}
  (h : net.WellFormed) (hv : rule.Valid) (hr : net.IsRedex rule agents)
  (hm : (net.turns rule agents).Matches .hidden links)
  (hcopies : ∀ p, (rule.replacement.net.port? p).isSome →
    copies.lookup p = some (copyOf copies p))

include hv hm hcopies

/-- The ends of paths are resolved to the ports that stand there. -/
private theorem resolve_eq_port? {e : PathEnd} (he : e ∈ pairEnds links) :
    resolve copies e = e.port? (copyOf copies) := by
  cases e with
  | host _ => rfl
  | free _ => rfl
  | hidden => rfl
  | fresh p =>
    obtain ⟨f, hf⟩ := mem_pairEnds.1 he
    obtain ⟨k, a, ha⟩ := hm.exists_turn (hf.elim hm.path fun hf => (hm.path hf).symm)
    cases k with
    | outward => cases ha
    | inward =>
      cases ha with
      | port hsplice =>
        exact hcopies p (hv.wellFormed.isFree_iff.1 (hv.port_free hsplice)).1

private theorem linkPairs_resolve :
    linkPairs (resolve copies) links = linkPairs (PathEnd.port? (copyOf copies)) links := by
  refine List.filterMap_congr fun link hlink => ?_
  have h₁ : link.1 ∈ pairEnds links := mem_pairEnds.2 ⟨link.2, .inl hlink⟩
  have h₂ : link.2 ∈ pairEnds links := mem_pairEnds.2 ⟨link.1, .inr hlink⟩
  rw [resolve_eq_port? hv hm hcopies h₁, resolve_eq_port? hv hm hcopies h₂]

include h hr

/-- The substitutes pass on the places of the slots on the interface. -/
private theorem places_substituteOf (hfree : ∀ p q, (.free p, .free q) ∉ links) :
    Places net rule agents (copyOf copies) (substituteOf (substitutes copies links)) := by
  -- a port is substituted exactly when it is at an end of a path
  have hnone : ∀ {p}, (∀ k a, ¬ net.turns rule agents k a (.stop (.free p))) →
      (substitutes copies links).lookup p = none := by
    intro p hp
    rw [← Option.not_isSome_iff_eq_none, isSome_lookup_iff]
    intro hmem
    obtain ⟨⟨q, replacement⟩, hq, rfl⟩ := List.mem_map.1 hmem
    obtain ⟨e, he, -⟩ := mem_substitutes hq
    obtain ⟨k, a, ha⟩ := hm.exists_turn (he.elim hm.path fun he => (hm.path he).symm)
    exact hp k a ha
  constructor
  · intro p _ hout
    rw [substituteOf, hnone]
    intro k a ha
    cases k with
    | inward => cases ha
    | outward =>
      cases ha with
      | free hslot _ => exact hout _ (List.mem_of_getElem? hslot)
  · intro p hp hout
    -- the port is a slot: the principal ports are connected
    obtain ⟨side, k, hk⟩ : ∃ side, ∃ k : Nat, (net.portsOf (agents side))[k]? = some p := by
      by_contra hno
      refine hout fun side hmem => ?_
      obtain ⟨k, hk⟩ := List.mem_iff_getElem?.1 hmem
      exact hno ⟨side, k, hk⟩
    have hslot : net.slotPort? agents ⟨side, k - 1⟩ = some p := by
      cases k with
      | succ k => exact hk
      | zero =>
        obtain ⟨q, r, hq, -, hqr⟩ := hr.exists_principal side
        obtain rfl := Option.some.inj (hq.symm.trans hk)
        exact absurd hp (h.not_mem_interface_of_joined hqr)
    have hturn : net.turns rule agents .outward ⟨side, k - 1⟩ (.stop (.free p)) :=
      .free hslot hp
    obtain ⟨e, hpath⟩ := hm.exists_path (by simp) hturn
    refine ⟨e, hpath, ?_⟩
    have hlink := hm.mem (by simp) hpath
    obtain ⟨replacement, hlookup⟩ :=
      Option.isSome_iff_exists.1 (isSome_lookup_iff.2 (mem_map_fst_substitutes hfree hlink))
    obtain ⟨l₁, l₂, heq, -⟩ := List.lookup_eq_some_iff.1 hlookup
    have hsubstitute : (p, replacement) ∈ substitutes copies links := by
      rw [heq]
      simp
    obtain ⟨f, hf, rfl⟩ := mem_substitutes hsubstitute
    obtain rfl := hm.unique (by simp) hpath (hf.elim hm.path fun hf => (hm.path hf).symm)
    rw [substituteOf, hlookup]
    exact resolve_eq_port? hv hm hcopies (mem_pairEnds.2 ⟨_, hf.symm⟩)

end Commit

section Links

variable (h : net.WellFormed) (hv : rule.Valid) {s : Surroundings}
  (hs : s.Describes net rule pair sides) {links : List (PathEnd × PathEnd)}
  (hlinks : (s.edges rule).Links s.slotList links)

include h hs

/-- What is left of a net without the connections of a redex is well-formed. -/
theorem wellFormed_detach : (detach net pair).WellFormed :=
  (detached_detach h hs.isRedexOf).wellFormed

include hv hlinks

/-- Links found by walking along what was read match the paths through the redex. -/
theorem matches_of_describes :
    (net.turns rule (pair.agentOn sides)).Matches .hidden links := by
  rw [← hs.turns_eq]
  refine hlinks.matches hs.fits.lawful hs.fits.nodup fun e he => ?_
  rw [hs.turns_eq]
  exact hs.isRedexOf.isRedex.single h hv e he

omit hlinks in
/-- Once the redex is detached and the replacement net is copied, everything is ready for the ends
of the paths to be linked. -/
private theorem exists_prepared : ∃ copy, Prepared net rule (pair.agentOn sides) (detach net pair)
      ((detach net pair).inject rule.replacement.net false).2 copy
      (copyOf ((detach net pair).inject rule.replacement.net false).1) ∧
    ∀ p, (rule.replacement.net.port? p).isSome →
      ((detach net pair).inject rule.replacement.net false).1.lookup p =
        some (copyOf ((detach net pair).inject rule.replacement.net false).1 p) := by
  have hdetached := detached_detach h hs.isRedexOf
  obtain ⟨copy, hcopy, hcopies, hinterface⟩ :=
    exists_isCopy_inject hv.wellFormed hdetached.wellFormed false
  exact ⟨copy, ⟨h, hv, hs.isRedexOf.isRedex, hdetached, hcopy,
    hinterface.trans hdetached.interface_eq⟩, hcopies⟩

/-- The ports to be linked are live. -/
theorem isSome_port?_of_resolve {e : PathEnd} (he : e ∈ pairEnds links) {p : PortId}
    (hp : resolve ((detach net pair).inject rule.replacement.net false).1 e = some p) :
    (((detach net pair).inject rule.replacement.net false).2.port? p).isSome := by
  have hm := matches_of_describes h hv hs hlinks
  obtain ⟨copy, hprepared, hcopies⟩ := exists_prepared h hv hs
  rw [resolve_eq_port? hv hm hcopies he] at hp
  obtain ⟨f, hf⟩ := mem_pairEnds.1 he
  obtain ⟨k, a, ha⟩ := hm.exists_turn (hf.elim hm.path fun hf => (hm.path hf).symm)
  obtain ⟨port, hport, -⟩ := (hprepared.isFree_of_turn ha hp).1
  rw [hport]
  rfl

/-- A plan whose links are the paths through a redex replaces the redex. -/
theorem isRewrite_commit (hfree : ∀ p q, (.free p, .free q) ∉ links) (took : Duration) :
    ∃ copy port, net.IsRewrite rule (pair.agentOn sides)
      (commit ⟨s, links⟩ rule took net) copy port ∧ net.FreshPorts rule port := by
  have hp := hs.isRedexOf
  have hm := matches_of_describes h hv hs hlinks
  obtain ⟨copy, hprepared, hcopies⟩ := exists_prepared h hv hs
  have hplaces := places_substituteOf h hv hp.isRedex hm hcopies hfree
  refine ⟨copy, copyOf ((detach net pair).inject rule.replacement.net false).1, ?_,
    hprepared.port?_copy⟩
  have hrewrite := hprepared.isRewrite_drop hm hplaces hp rfl
    ((((detach net pair).inject rule.replacement.net false).2.tally).record rule.label took)
  have hsubstitute := substitute_eq_filterMap (hprepared.nodup_places hm hplaces)
  have hcommit : commit ⟨s, links⟩ rule took net =
      { ((placed ((detach net pair).inject rule.replacement.net false).2
          (copyOf ((detach net pair).inject rule.replacement.net false).1) links
          (net.interface.filterMap (substituteOf
            (substitutes ((detach net pair).inject rule.replacement.net false).1 links)))).dropAgent
          pair.agent₁).dropAgent pair.agent₂ with
        tally := ((detach net pair).inject rule.replacement.net false).2.tally.record rule.label
          took } := by
    simp only [commit, hs.pair_eq, linkPaths_eq_linkAll, linkPairs_resolve hv hm hcopies,
      interface_linkAll, hprepared.interface_eq, hsubstitute, tally_dropAgent, placed,
      tally_linkAll]
  rw [hcommit]
  exact hrewrite

end Links

end Plan

end InteractionNets
