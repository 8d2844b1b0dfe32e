import InteractionNets.Proofs.Redex.Chains

/-!
# Interactions rewrite diagrams

The diagram of a net after an interaction is the diagram before, rewritten at the redex, up to the
ids of the copied agents (`Net.IsRewrite.exists_isIso`). The ports that stay on the interface keep
their labels.
-/

namespace InteractionNets

namespace Net

namespace IsRedex

variable {net : Net} {rule : Rule} {agents : Side → AgentId} (hr : net.IsRedex rule agents)
  (h : net.WellFormed) (hv : rule.Valid)

include hr h hv

/-- A place at the end of a path is that of the port of a slot. -/
theorem slot_of_path {p : PortId} {e : PathEnd} (hpath : (net.turns rule agents).Path (.free p) e) :
    p ∈ net.interface ∧ ¬ net.IsOutside agents p := by
  obtain ⟨d, s, hturn, -⟩ := (hr.regular h hv).exists_first hpath
  cases d with
  | inward => cases hturn
  | outward =>
    obtain _ | ⟨hs, hp⟩ := hturn
    exact ⟨hp, fun hout => hout s.side (List.mem_of_getElem? hs)⟩

/-- Two agents without ports on the interface leave no free wire. -/
theorem not_hasFreeWire_of_outside (hout : ∀ p ∈ net.interface, net.IsOutside agents p) :
    ¬ net.HasFreeWire rule agents := by
  rintro ⟨p, q, hpath⟩
  obtain ⟨hp, hslot⟩ := hr.slot_of_path h hv hpath
  exact hslot (hout p hp)

/-- A place on the interface whose port lies outside stays joined to that port alone. -/
theorem joined_place_iff {labels : List (PortId × Nat)} (hl : net.IsLabelling labels) {a : AgentId}
    {k i : Nat} {p : PortId} (hi : (p, i) ∈ labels) (hp : (net.portsOf a)[k]? = some p)
    (hne : ∀ side, a ≠ agents side) {y : Point Nat (AgentId ⊕ AgentId)} :
    (net.rewritten rule agents labels).joined (.place i) y ↔ y = .port (.inl a) k := by
  have hout := (isOutside_iff_ne h hp).2 hne
  constructor
  · intro hy
    obtain ⟨f, hf⟩ := exists_endAt_of_joined (Diagram.symm _ hy)
    rcases ((hr.joined_rewrite_iff h hl hv (.free hi) hf).1 hy).2 with hbeside | hpath
    · obtain _ | _ | _ := hbeside
      exact hf.point_unique h hv hl (.host hp hne)
    · exact absurd hout (hr.slot_of_path h hv hpath).2
  · rintro rfl
    refine (hr.joined_rewrite_iff h hl hv (.free hi) (.host hp hne)).2 ⟨by simp, .inl ?_⟩
    exact .free (hl.mem_interface hi) hout

end IsRedex

namespace IsRewrite

variable {net : Net} {rule : Rule} {agents : Side → AgentId} {labels : List (PortId × Nat)}
  {after : Net} {copy : AgentId → AgentId} {port : PortId → PortId}
  (hw : net.IsRewrite rule agents after copy port) (hr : net.IsRedex rule agents)
  (h : net.WellFormed) (hv : rule.Valid) (hl : net.IsLabelling labels)

include hw

/-! ### Agents -/

/-- The agents that play no side are as before. -/
theorem agent?_outside {a : AgentId} (ha : (net.agent? a).isSome)
    (hne : ∀ side, a ≠ agents side) : after.agent? a = net.agent? a :=
  hw.agent_old hne fun _ hb => agent_ne_of_eq_none ha (hw.fresh hb)

theorem portsOf_outside {a : AgentId} (ha : (net.agent? a).isSome)
    (hne : ∀ side, a ≠ agents side) : after.portsOf a = net.portsOf a := by
  rw [portsOf, portsOf, hw.agent?_outside ha hne]

/-- A copy lists the copies of the ports. -/
theorem portsOf_copy {a : AgentId} (ha : (rule.replacement.net.agent? a).isSome) :
    after.portsOf (copy a) = (rule.replacement.net.portsOf a).map port := by
  obtain ⟨data, hdata⟩ := Option.isSome_iff_exists.1 ha
  rw [portsOf_eq (hw.agent_copy hdata), portsOf_eq hdata]

/-- The agents of the rewritten diagram with the ids they have after the interaction. -/
theorem symbol_after {c : AgentId ⊕ AgentId}
    (hc : ((net.rewritten rule agents labels).symbol c).isSome) :
    (after.agent? (Sum.elim id copy c)).map Agent.symbol =
      (net.rewritten rule agents labels).symbol c := by
  rcases c with a | b
  · obtain ⟨hne, ha⟩ := isSome_symbol_rewritten_inl.1 hc
    rw [Diagram.symbol_rewrite_inl hne]
    exact congrArg _ (hw.agent?_outside ha hne)
  · obtain ⟨data, hdata⟩ := Option.isSome_iff_exists.1 (isSome_symbol_rewritten_inr.1 hc)
    show (after.agent? (copy b)).map _ = (rule.replacement.net.agent? b).map _
    rw [hw.agent_copy hdata, hdata]
    rfl

theorem agent_injective {c d : AgentId ⊕ AgentId}
    (hc : ((net.rewritten rule agents labels).symbol c).isSome)
    (hd : ((net.rewritten rule agents labels).symbol d).isSome)
    (heq : Sum.elim id copy c = Sum.elim id copy d) : c = d := by
  have hapart : ∀ {a b}, ((net.rewritten rule agents labels).symbol (.inl a)).isSome →
      (rule.replacement.net.agent? b).isSome → a ≠ copy b := fun ha hb =>
    agent_ne_of_eq_none (isSome_symbol_rewritten_inl.1 ha).2 (hw.fresh hb)
  rcases c with a | a <;> rcases d with b | b
  · exact congrArg Sum.inl heq
  · exact absurd heq (hapart hc (isSome_symbol_rewritten_inr.1 hd))
  · exact absurd heq.symm (hapart hd (isSome_symbol_rewritten_inr.1 hc))
  · exact congrArg Sum.inr (hw.injective (isSome_symbol_rewritten_inr.1 hc)
      (isSome_symbol_rewritten_inr.1 hd) heq)

theorem exists_agent {b : AgentId} (hb : (after.agent? b).isSome) :
    ∃ c, ((net.rewritten rule agents labels).symbol c).isSome ∧
      Sum.elim id copy c = b := by
  by_cases hcopy : ∃ a, (rule.replacement.net.agent? a).isSome ∧ b = copy a
  · obtain ⟨a, ha, rfl⟩ := hcopy
    exact ⟨.inr a, isSome_symbol_rewritten_inr.2 ha, rfl⟩
  · have hne : ∀ side, b ≠ agents side := by
      rintro side rfl
      rw [hw.agent_gone] at hb
      cases hb
    have hold := hw.agent_old hne fun a ha heq => hcopy ⟨a, ha, heq⟩
    rw [hold] at hb
    exact ⟨.inl b, isSome_symbol_rewritten_inl.2 ⟨hne, hb⟩, rfl⟩

/-! ### Ends -/

/-- A port at an end has its place on the agent with the new id. -/
theorem exists_port_of_endAt {c : AgentId ⊕ AgentId} {k : Nat} {e : PathEnd}
    (he : net.EndAt rule agents labels (.port c k) e) :
    ((net.rewritten rule agents labels).symbol c).isSome ∧
      ∃ p, e.port? port = some p ∧ (after.portsOf (Sum.elim id copy c))[k]? = some p := by
  obtain ⟨hp, hne⟩ | hp := he
  · have hlive := isSome_agent?_of_getElem? hp
    refine ⟨isSome_symbol_rewritten_inl.2 ⟨hne, hlive⟩, _, rfl, ?_⟩
    show (after.portsOf _)[k]? = _
    rwa [Sum.elim_inl, id, hw.portsOf_outside hlive hne]
  · have hlive := isSome_agent?_of_getElem? hp
    refine ⟨isSome_symbol_rewritten_inr.2 hlive, _, rfl, ?_⟩
    rw [Sum.elim_inr, hw.portsOf_copy hlive, List.getElem?_map, hp]
    rfl

/-- Every port of an agent after the interaction is at an end. -/
theorem exists_endAt_of_port {c : AgentId ⊕ AgentId} {k : Nat} {p : PortId}
    (hc : ((net.rewritten rule agents labels).symbol c).isSome)
    (hp : (after.portsOf (Sum.elim id copy c))[k]? = some p) :
    ∃ e, net.EndAt rule agents labels (.port c k) e := by
  rcases c with a | b
  · obtain ⟨hne, ha⟩ := isSome_symbol_rewritten_inl.1 hc
    rw [Sum.elim_inl, id, hw.portsOf_outside ha hne] at hp
    exact ⟨_, .host hp hne⟩
  · rw [Sum.elim_inr, hw.portsOf_copy (isSome_symbol_rewritten_inr.1 hc), List.getElem?_map,
      Option.map_eq_some_iff] at hp
    obtain ⟨q, hq, -⟩ := hp
    exact ⟨_, .fresh hq⟩

include hl in
/-- Ends with the same port are the same. -/
theorem end_of_port {x y : Point Nat (AgentId ⊕ AgentId)} {e f : PathEnd} {p : PortId}
    (hx : net.EndAt rule agents labels x e) (hy : net.EndAt rule agents labels y f)
    (he : e.port? port = some p) (hf : f.port? port = some p) : e = f := by
  rcases x with ⟨c, k⟩ | i
  · rcases y with ⟨d, l⟩ | j
    · obtain ⟨hc, p', he', hp⟩ := hw.exists_port_of_endAt hx
      obtain ⟨hd, q', hf', hq⟩ := hw.exists_port_of_endAt hy
      obtain rfl := Option.some.inj (he.symm.trans he')
      obtain rfl := Option.some.inj (hf.symm.trans hf')
      obtain ⟨hagent, rfl⟩ := hw.wellFormed.port_unique hp hq
      obtain rfl := hw.agent_injective hc hd hagent
      exact hx.end_unique hl hy
    · obtain _ | _ | _ := hy
      cases hf
  · obtain _ | _ | _ := hx
    cases he

/-! ### Joined points -/

section Joined

variable (hfree : ¬ net.HasFreeWire rule agents)

include hr h hv hl

omit hw in
/-- An end of a path with a port is a point of the diagram. -/
private theorem exists_endAt_of_path {e f : PathEnd} {p : PortId}
    (hpath : (net.turns rule agents).Path e f) (he : e.port? port = some p) :
    ∃ x, net.EndAt rule agents labels x e := by
  obtain ⟨d, s, hturn, -⟩ := (hr.regular h hv).exists_first hpath
  refine IsRedex.exists_endAt_of_turn h hl hv hturn ?_
  rintro rfl
  cases he

/-- Two ports at ends are joined exactly when the ends were beside each other before or belong to
one path. -/
private theorem joined_port_iff {c d : AgentId ⊕ AgentId} {j k : Nat} {e f : PathEnd} {p q : PortId}
    (hx : net.EndAt rule agents labels (.port c j) e)
    (hy : net.EndAt rule agents labels (.port d k) f) (he : e.port? port = some p)
    (hf : f.port? port = some q) :
    after.Joined p q ↔ net.Beside rule agents e f ∨ (net.turns rule agents).Path e f := by
  rw [hw.joined]
  -- ports of the net stay joined, those of the replacement are copied, and paths are closed
  constructor
  · rintro (⟨hpq, hp, hq⟩ | ⟨p, q, hpq, rfl, rfl⟩ | ⟨e', f', hpath, he', hf'⟩)
    · have hend : ∀ {r s : PortId}, net.Joined r s → net.IsOutside agents r →
          ∃ z, net.EndAt rule agents labels z (.host r) := by
        intro r s hrs hr'
        obtain ⟨a, l, hl'⟩ := h.port?_isSome_iff.1 (h.isSome_of_joined hrs)
        exact ⟨_, .host hl' ((isOutside_iff_ne h hl').1 hr')⟩
      obtain ⟨z, hz⟩ := hend hpq hp
      obtain ⟨z', hz'⟩ := hend hpq.symm hq
      rw [hw.end_of_port hl hx hz he rfl, hw.end_of_port hl hy hz' hf rfl]
      exact .inl (.host hpq hp hq)
    · have hend : ∀ {r s : PortId}, rule.replacement.net.Joined r s →
          ∃ z, net.EndAt rule agents labels z (.fresh r) := by
        intro r s hrs
        obtain ⟨a, l, hl'⟩ := hv.wellFormed.port?_isSome_iff.1 (hv.wellFormed.isSome_of_joined hrs)
        exact ⟨_, .fresh hl'⟩
      obtain ⟨z, hz⟩ := hend hpq
      obtain ⟨z', hz'⟩ := hend hpq.symm
      rw [hw.end_of_port hl hx hz he rfl, hw.end_of_port hl hy hz' hf rfl]
      exact .inl (.fresh hpq)
    · obtain ⟨z, hz⟩ := exists_endAt_of_path hr h hv hl hpath he'
      obtain ⟨z', hz'⟩ := exists_endAt_of_path hr h hv hl hpath.symm hf'
      rw [hw.end_of_port hl hx hz he he', hw.end_of_port hl hy hz' hf hf']
      exact .inr hpath
  · rintro (hef | hpath)
    · obtain ⟨hpq, hp, hq⟩ | hpq | _ | _ := hef
      · obtain rfl := Option.some.inj he
        obtain rfl := Option.some.inj hf
        exact .inl ⟨hpq, hp, hq⟩
      · obtain rfl := Option.some.inj he
        obtain rfl := Option.some.inj hf
        exact .inr (.inl ⟨_, _, hpq, rfl, rfl⟩)
      · cases he
      · cases hf
    · exact .inr (.inr ⟨e, f, hpath, he, hf⟩)

/-- The port that a place is passed on to is the one beside it or at the other end of its path. -/
private theorem place_eq_iff {place : PortId → Option PortId}
    (hkeep : ∀ p ∈ net.interface, net.IsOutside agents p → place p = some p)
    (hmove : ∀ p ∈ net.interface, ¬ net.IsOutside agents p →
      ∃ e, (net.turns rule agents).Path (.free p) e ∧ place p = e.port? port)
    {p q : PortId} (hp : p ∈ net.interface) {d : AgentId ⊕ AgentId} {k : Nat} {f : PathEnd}
    (hy : net.EndAt rule agents labels (.port d k) f) (hf : f.port? port = some q) :
    place p = some q ↔
      net.Beside rule agents (.free p) f ∨ (net.turns rule agents).Path (.free p) f := by
  by_cases hout : net.IsOutside agents p
  · rw [hkeep p hp hout]
    constructor
    · intro heq
      obtain rfl := Option.some.inj heq
      obtain ⟨a, l, hl'⟩ := h.port?_isSome_iff.1 (h.isSome_of_mem_interface hp)
      have hz : net.EndAt rule agents labels (.port (.inl a) l) (.host p) :=
        .host hl' ((isOutside_iff_ne h hl').1 hout)
      rw [hw.end_of_port hl hy hz hf rfl]
      exact .inl (.free hp hout)
    · rintro (hbeside | hpath)
      · obtain _ | _ | _ := hbeside
        exact hf
      · exact absurd hout (hr.slot_of_path h hv hpath).2
  · obtain ⟨e, hpath, hplace⟩ := hmove p hp hout
    rw [hplace]
    constructor
    · intro he
      obtain ⟨z, hz⟩ := exists_endAt_of_path hr h hv hl hpath.symm he
      rw [hw.end_of_port hl hy hz hf he]
      exact .inr hpath
    · rintro (hbeside | hpath')
      · obtain _ | _ | ⟨-, hout'⟩ := hbeside
        exact absurd hout' hout
      · have hsingle : (net.turns rule agents).Single (.free p) := hr.single h hv _ (by simp)
        rwa [(hr.regular h hv).path_unique hsingle hpath hpath']

end Joined

/-! ### The diagram after an interaction -/

omit hw in
/-- The labels of the ports that labelled ports are passed on to. -/
private theorem exists_labels {place : PortId → Option PortId} (hl : net.IsLabelling labels)
    (hplace : after.interface = net.interface.filterMap place) :
    ∃ labels', after.IsLabelling labels' ∧
      ∀ {q i}, (q, i) ∈ labels' ↔ ∃ p, (p, i) ∈ labels ∧ place p = some q := by
  refine ⟨labels.filterMap fun entry => (place entry.1).map (·, entry.2), ⟨?_, ?_⟩, ?_⟩
  · rw [hplace, ← hl.ports, List.filterMap_map, List.map_filterMap]
    refine List.filterMap_congr fun entry _ => ?_
    show (Option.map Prod.fst ((place entry.1).map (·, entry.2))) = place entry.1
    cases place entry.1 <;> rfl
  · refine hl.sorted.sublist ?_
    clear hl hplace
    induction labels with
    | nil => exact .slnil
    | cons entry rest ih =>
      rw [List.filterMap_cons]
      cases place entry.1 with
      | none => exact ih.cons _
      | some q => exact ih.cons_cons _
  · intro q i
    simp only [List.mem_filterMap, Option.map_eq_some_iff, Prod.mk.injEq, Prod.exists]
    constructor
    · rintro ⟨p, j, hp, r, hr, rfl, rfl⟩
      exact ⟨p, hp, hr⟩
    · rintro ⟨p, hp, hq⟩
      exact ⟨p, i, hp, q, hq, rfl, rfl⟩

include hr h hv hl

/-- The rewritten diagram is that of the net afterwards, if its labels are those of the ports that
labelled ports are passed on to. -/
private theorem exists_isIso_of_labels (hfree : ¬ net.HasFreeWire rule agents)
    {place : PortId → Option PortId}
    (hkeep : ∀ p ∈ net.interface, net.IsOutside agents p → place p = some p)
    (hmove : ∀ p ∈ net.interface, ¬ net.IsOutside agents p →
      ∃ e, (net.turns rule agents).Path (.free p) e ∧ place p = e.port? port)
    {labels' : List (PortId × Nat)}
    (hmem : ∀ {q i}, (q, i) ∈ labels' ↔ ∃ p, (p, i) ∈ labels ∧ place p = some q) :
    ∃ g, (net.rewritten rule agents labels).IsIso (after.diagram labels') (Sum.elim id copy) g := by
  have hplaces : ∀ {i d k e f}, net.EndAt rule agents labels (.place i) e →
      net.EndAt rule agents labels (.port d k) f →
      ((after.diagram labels').joined (.place i) (.port (Sum.elim id copy d) k) ↔
        net.Beside rule agents e f ∨ (net.turns rule agents).Path e f) := by
    intro i d k e f hx hy
    obtain _ | _ | hp := hx
    obtain ⟨-, q, hf, hq⟩ := hw.exists_port_of_endAt hy
    rw [diagram_joined_place_iff hq, hmem,
      ← hw.place_eq_iff hr h hv hl hkeep hmove (hl.mem_interface hp) hy hf]
    constructor
    · rintro ⟨p', hp', hplace'⟩
      rwa [hl.port_unique hp hp']
    · exact fun hplace' => ⟨_, hp, hplace'⟩
  -- ends are joined in the new diagram when they are beside each other or on one path
  have hends : ∀ {x y e f}, net.EndAt rule agents labels x e → net.EndAt rule agents labels y f →
      ((after.diagram labels').joined (x.map (Sum.elim id copy)) (y.map (Sum.elim id copy)) ↔
        net.Beside rule agents e f ∨ (net.turns rule agents).Path e f) := by
    intro x y e f hx hy
    rcases x with ⟨c, j⟩ | i <;> rcases y with ⟨d, k⟩ | i'
    · obtain ⟨-, p, he, hp⟩ := hw.exists_port_of_endAt hx
      obtain ⟨-, q, hf, hq⟩ := hw.exists_port_of_endAt hy
      exact (diagram_joined_port_iff hp hq).trans (hw.joined_port_iff hr h hv hl hx hy he hf)
    · rw [Diagram.joined_comm]
      refine (hplaces hy hx).trans ⟨?_, ?_⟩ <;> exact Or.imp Beside.symm Turns.Path.symm
    · exact hplaces hx hy
    · refine iff_of_false (not_diagram_joined_places _ _) ?_
      obtain _ | _ | _ := hx
      obtain _ | _ | _ := hy
      rintro (hbeside | hpath)
      · cases hbeside
      · exact hfree ⟨_, _, hpath⟩
  -- what is joined to something afterwards is an end, so the edges can be compared there
  have hexists : ∀ {x y}, x.IsLive (net.rewritten rule agents labels).symbol →
      (after.diagram labels').joined (x.map (Sum.elim id copy)) y →
      ∃ e, net.EndAt rule agents labels x e := by
    intro x y hx hxy
    rcases x with ⟨c, k⟩ | i
    · obtain ⟨hp, -, -⟩ | _ | ⟨-, hp⟩ := hxy
      · exact hw.exists_endAt_of_port hx hp
      · exact hw.exists_endAt_of_port hx hp
    · obtain _ | ⟨hi, -⟩ | _ | ⟨hnone, -⟩ := hxy
      · obtain ⟨p, hp, -⟩ := hmem.1 hi
        exact ⟨_, .free hp⟩
      · exact hnone.elim
  refine Diagram.exists_isIso hw.symbol_after hw.agent_injective ?_ ?_
  · exact fun hb => hw.exists_agent (isSome_symbol_draw.1 hb)
  · intro x y hx hy
    constructor
    · intro hxy
      obtain ⟨e, he⟩ := IsRedex.exists_endAt_of_joined hxy
      obtain ⟨f, hf⟩ := IsRedex.exists_endAt_of_joined (Diagram.symm _ hxy)
      exact (hends he hf).2 ((hr.joined_rewrite_iff h hl hv he hf).1 hxy).2
    · intro hxy
      obtain ⟨e, he⟩ := hexists hx hxy
      obtain ⟨f, hf⟩ := hexists hy (Diagram.symm _ hxy)
      refine (hr.joined_rewrite_iff h hl hv he hf).2 ⟨?_, (hends he hf).1 hxy⟩
      rintro rfl
      exact hw.wellFormed.not_diagram_joined_self hxy

/-- **An interaction rewrites the diagram of a net.** -/
theorem exists_isIso (hfree : ¬ net.HasFreeWire rule agents) :
    ∃ labels' g, after.IsLabelling labels' ∧
      (net.rewritten rule agents labels).IsIso (after.diagram labels') (Sum.elim id copy) g := by
  obtain ⟨place, hplace, hkeep, hmove⟩ := hw.interface
  obtain ⟨labels', hl', hmem⟩ := exists_labels hl hplace
  obtain ⟨g, hg⟩ := hw.exists_isIso_of_labels hr h hv hl hfree hkeep hmove hmem
  exact ⟨labels', g, hl', hg⟩

/-- If no port of the two agents is on the interface, the places keep their labels. -/
theorem exists_isIso_of_outside (hout : ∀ p ∈ net.interface, net.IsOutside agents p) :
    after.interface = net.interface ∧
      ∃ g, (net.rewritten rule agents labels).IsIso (after.diagram labels) (Sum.elim id copy) g := by
  obtain ⟨place, hplace, hkeep, hmove⟩ := hw.interface
  have hsame : ∀ p ∈ net.interface, place p = some p := fun p hp => hkeep p hp (hout p hp)
  have hmem : ∀ {q i}, (q, i) ∈ labels ↔ ∃ p, (p, i) ∈ labels ∧ place p = some q := by
    intro q i
    constructor
    · exact fun hq => ⟨q, hq, hsame q (hl.mem_interface hq)⟩
    · rintro ⟨p, hp, hpq⟩
      rwa [← Option.some.inj ((hsame p (hl.mem_interface hp)).symm.trans hpq)]
  refine ⟨?_, hw.exists_isIso_of_labels hr h hv hl (hr.not_hasFreeWire_of_outside h hv hout) hkeep
    hmove hmem⟩
  rw [hplace, List.filterMap_congr hsame, List.filterMap_some]

end IsRewrite

end Net

end InteractionNets
