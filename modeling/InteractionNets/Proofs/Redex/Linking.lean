import InteractionNets.Proofs.Net.Copy
import InteractionNets.Proofs.Redex.Detaching

/-!
# Linking the ends of paths

When the redex is detached and the replacement net is copied (`Plan.Prepared`), the ports at the two
ends of every path through the redex are linked. These are free and all different, so the net stays
well-formed, and afterwards ports are joined as they were, as they are in the replacement net, or by
a path (`Plan.Prepared.joined_linked`).
-/

namespace InteractionNets

/-- The port that stands at an end of a path after the interaction, when the ports of the
replacement net have the given copies. -/
def PathEnd.port? (copy : PortId → PortId) : PathEnd → Option PortId
  | .host p => some p
  | .fresh p => some (copy p)
  | .free _ => none
  | .hidden => none

namespace Net

/-- The ports of the replacement net are copied to ids that are not live. -/
def FreshPorts (net : Net) (rule : Rule) (port : PortId → PortId) : Prop :=
  ∀ {p}, (rule.replacement.net.port? p).isSome → net.port? (port p) = none

namespace IsRedex

variable {net : Net} {rule : Rule} {agents : Side → AgentId} (hr : net.IsRedex rule agents)
  (h : net.WellFormed) (hv : rule.Valid)

include hr h hv

/-- Every end but the hidden one belongs to one slot. -/
theorem single (e : PathEnd) (he : e ≠ .hidden) : (net.turns rule agents).Single e := by
  intro d a k b ha hb
  cases d with
  | inward =>
    cases ha with
    | port hp =>
      cases k with
      | inward =>
        cases hb with
        | port hp' => exact ⟨rfl, hv.port_injective hp hp'⟩
      | outward => cases hb
  | outward =>
    refine ⟨?_, ?_⟩
    · cases k with
      | inward =>
        cases hb with
        | port _ => cases ha
      | outward => rfl
    · cases k with
      | inward =>
        cases hb with
        | port _ => cases ha
      | outward =>
        cases ha with
        | peer hp hpq _ =>
          cases hb with
          | peer hp' hpq' _ =>
            obtain rfl := h.joined_unique hpq.symm hpq'.symm
            exact hr.slotPort?_injective h hp hp'
        | free hp _ =>
          cases hb with
          | free hp' _ => exact hr.slotPort?_injective h hp hp'
        | hidden _ _ _ => exact absurd rfl he

end IsRedex

end Net

namespace Plan

open Net

variable {net : Net} {rule : Rule}

/-! ### Pairs of ports -/

/-- The pairs of ports at the ends of those paths that come to a port at both ends. -/
def linkPairs (resolve : PathEnd → Option PortId) (links : List (PathEnd × PathEnd)) :
    List (PortId × PortId) :=
  links.filterMap fun link =>
    match resolve link.1, resolve link.2 with
    | some a, some b => some (a, b)
    | _, _ => none

theorem linkPaths_eq_linkAll (copies : PortMap) (links : List (PathEnd × PathEnd))
    (net : Net) : linkPaths copies links net = linkAll (linkPairs (resolve copies) links) net := by
  induction links generalizing net with
  | nil => rfl
  | cons link rest ih =>
    obtain ⟨start, stop⟩ := link
    rw [linkPaths, linkPairs, List.filterMap_cons]
    cases resolve copies start with
    | none => exact ih net
    | some a =>
      cases resolve copies stop with
      | none => exact ih net
      | some b => exact ih _

private theorem mem_linkPairs {resolve : PathEnd → Option PortId}
    {links : List (PathEnd × PathEnd)} {a b : PortId} :
    (a, b) ∈ linkPairs resolve links ↔
      ∃ e f, (e, f) ∈ links ∧ resolve e = some a ∧ resolve f = some b := by
  simp only [linkPairs, List.mem_filterMap, Prod.exists]
  constructor
  · rintro ⟨e, f, hlink, hpair⟩
    split at hpair
    · rename_i he hf
      cases hpair
      exact ⟨e, f, hlink, he, hf⟩
    · cases hpair
  · rintro ⟨e, f, hlink, he, hf⟩
    exact ⟨e, f, hlink, by rw [he, hf]⟩

private theorem pairEnds_linkPairs_sublist (resolve : PathEnd → Option PortId)
    (links : List (PathEnd × PathEnd)) :
    (pairEnds (linkPairs resolve links)).Sublist ((pairEnds links).filterMap resolve) := by
  induction links with
  | nil => exact .slnil
  | cons link rest ih =>
    obtain ⟨start, stop⟩ := link
    rw [linkPairs, List.filterMap_cons, pairEnds_cons, List.filterMap_cons, List.filterMap_cons]
    cases resolve start with
    | none =>
      cases resolve stop with
      | none => exact ih
      | some b => exact ih.cons b
    | some a =>
      cases resolve stop with
      | none => exact ih.cons a
      | some b => exact (ih.cons_cons b).cons_cons a

/-! ### Linking -/

/-- The ends of paths are linked in a net where the redex is detached and the replacement net is
copied. -/
structure Prepared (net : Net) (rule : Rule) (agents : Side → AgentId) (detached mid : Net)
    (copy : AgentId → AgentId) (port : PortId → PortId) : Prop where
  wellFormed : net.WellFormed
  valid : rule.Valid
  isRedex : net.IsRedex rule agents
  isDetached : Detached net detached agents
  isCopy : IsCopy rule.replacement.net detached mid copy port
  interface_eq : mid.interface = net.interface

namespace Prepared

variable {agents : Side → AgentId} {detached mid : Net} {copy : AgentId → AgentId}
  {port : PortId → PortId} (h : Prepared net rule agents detached mid copy port)

include h

private theorem portsOf_detached (a : AgentId) : detached.portsOf a = net.portsOf a := by
  simp only [portsOf, agent?, h.isDetached.agents_eq]

theorem isSome_port?_detached {p : PortId} :
    (detached.port? p).isSome ↔ (net.port? p).isSome := by
  simp only [h.isDetached.wellFormed.port?_isSome_iff, h.wellFormed.port?_isSome_iff,
    h.portsOf_detached]

/-- The copies of ports were not live before. -/
theorem port?_copy : net.FreshPorts rule port := by
  intro p hp
  have hnone := h.isCopy.port_fresh h.valid.wellFormed h.isDetached.wellFormed hp
  rw [← Option.not_isSome_iff_eq_none, ← h.isSome_port?_detached, hnone]
  simp

/-- Where a path ends at a port, the port is free and not on the interface. -/
theorem isFree_of_turn {k : Heading} {a : Slot} {e : PathEnd} {p : PortId}
    (hturn : net.turns rule agents k a (.stop e)) (hp : e.port? port = some p) :
    mid.IsFree p ∧ p ∉ net.interface := by
  cases k with
  | inward =>
    cases hturn with
    | @port p₀ hsplice =>
      obtain rfl := Option.some.inj hp
      have hfree := h.valid.port_free hsplice
      have hlive := (h.valid.wellFormed.isFree_iff.1 hfree).1
      refine ⟨h.isCopy.isFree_copy h.valid.wellFormed h.isDetached.wellFormed hfree, fun hmem => ?_⟩
      have := h.wellFormed.isSome_of_mem_interface hmem
      simp [h.port?_copy hlive] at this
  | outward =>
    cases hturn with
    | free _ _ => cases hp
    | hidden _ _ _ => cases hp
    | @peer r q hr hrq hq =>
      obtain rfl := Option.some.inj hp
      refine ⟨?_, h.wellFormed.not_mem_interface_of_joined hrq.symm⟩
      refine h.isCopy.isFree_old h.valid.wellFormed h.isDetached.wellFormed ?_
      refine h.isDetached.wellFormed.isFree_iff.2 ⟨?_, fun r' hr' => ?_⟩
      · exact h.isSome_port?_detached.2 (h.wellFormed.isSome_of_joined hrq.symm)
      · obtain ⟨hjoined, -, hout⟩ := h.isDetached.joined.1 hr'
        obtain rfl := h.wellFormed.joined_unique hjoined hrq.symm
        exact hout _ (List.mem_of_getElem? hr)

/-- Different ends are at different ports. -/
theorem end_injective {k k' : Heading} {a b : Slot} {e f : PathEnd} {p : PortId}
    (he : net.turns rule agents k a (.stop e)) (hf : net.turns rule agents k' b (.stop f))
    (hep : e.port? port = some p) (hfp : f.port? port = some p) : e = f := by
  have hlive : ∀ {k a q}, net.turns rule agents k a (.stop (.host q)) → (net.port? q).isSome := by
    intro k a q hturn
    cases k with
    | inward => cases hturn
    | outward =>
      cases hturn with
      | peer _ hjoined _ => exact h.wellFormed.isSome_of_joined hjoined.symm
  have hfree : ∀ {k a q}, net.turns rule agents k a (.stop (.fresh q)) →
      (rule.replacement.net.port? q).isSome := by
    intro k a q hturn
    cases k with
    | outward => cases hturn
    | inward =>
      cases hturn with
      | port hsplice => exact (h.valid.wellFormed.isFree_iff.1 (h.valid.port_free hsplice)).1
  -- a port of the host is no copy, because copies get ids that were vacant
  cases e with
  | free _ => cases hep
  | hidden => cases hep
  | host q =>
    obtain rfl := Option.some.inj hep
    cases f with
    | free _ => cases hfp
    | hidden => cases hfp
    | host q' =>
      obtain rfl := Option.some.inj hfp
      rfl
    | fresh q' =>
      have heq : port q' = q := Option.some.inj hfp
      have hnone := h.port?_copy (hfree hf)
      rw [heq] at hnone
      have hsome := hlive he
      simp [hnone] at hsome
  | fresh q =>
    cases f with
    | free _ => cases hfp
    | hidden => cases hfp
    | host q' =>
      obtain rfl := Option.some.inj hfp
      have heq : port q = q' := Option.some.inj hep
      have hnone := h.port?_copy (hfree he)
      have hsome := hlive hf
      simp [← heq, hnone] at hsome
    | fresh q' =>
      have heq : port q = port q' := Option.some.inj (hep.trans hfp.symm)
      rw [h.isCopy.port_injective h.valid.wellFormed (hfree he) (hfree hf) heq]

/-- Where a path ends at a port, the port belongs to neither of the two agents. -/
theorem isOutside_of_turn {k : Heading} {a : Slot} {e : PathEnd} {p : PortId}
    (hturn : net.turns rule agents k a (.stop e)) (hp : e.port? port = some p) :
    net.IsOutside agents p := by
  cases k with
  | inward =>
    cases hturn with
    | @port p₀ hsplice =>
      obtain rfl := Option.some.inj hp
      have hnone := h.port?_copy (h.valid.wellFormed.isFree_iff.1 (h.valid.port_free hsplice)).1
      intro side hmem
      obtain ⟨j, hj⟩ := List.mem_iff_getElem?.1 hmem
      simp [h.wellFormed.port?_eq hj] at hnone
  | outward =>
    cases hturn with
    | free _ _ => cases hp
    | hidden _ _ _ => cases hp
    | peer _ _ hq =>
      obtain rfl := Option.some.inj hp
      exact hq

variable {links : List (PathEnd × PathEnd)}
  (hm : (net.turns rule agents).Matches .hidden links)

include hm

omit h in
/-- The ports to be linked are at the ends of paths that come to a port at both ends. -/
theorem exists_path_of_mem_ends {p : PortId}
    (hp : p ∈ pairEnds (linkPairs (PathEnd.port? port) links)) :
    ∃ e f q, (net.turns rule agents).Path e f ∧ e.port? port = some p ∧ f.port? port = some q := by
  obtain ⟨q, hpq | hqp⟩ := mem_pairEnds.1 hp
  · obtain ⟨e, f, hlink, he, hf⟩ := mem_linkPairs.1 hpq
    exact ⟨e, f, q, hm.path hlink, he, hf⟩
  · obtain ⟨e, f, hlink, he, hf⟩ := mem_linkPairs.1 hqp
    exact ⟨f, e, q, (hm.path hlink).symm, hf, he⟩

private theorem nodup_ends : (pairEnds (linkPairs (PathEnd.port? port) links)).Nodup := by
  refine List.Nodup.sublist (pairEnds_linkPairs_sublist _ links) ?_
  refine List.pairwise_filterMap.2 (hm.nodup.imp_of_mem ?_)
  intro e f he hf hef p hp q hq hpq
  obtain ⟨e', he'⟩ := mem_pairEnds.1 he
  obtain ⟨f', hf'⟩ := mem_pairEnds.1 hf
  have hpath : ∀ {x y}, (x, y) ∈ links ∨ (y, x) ∈ links → (net.turns rule agents).Path x y :=
    fun hxy => hxy.elim hm.path fun hyx => (hm.path hyx).symm
  obtain ⟨k, a, ha⟩ := hm.exists_turn (hpath he')
  obtain ⟨k', b, hb⟩ := hm.exists_turn (hpath hf')
  obtain rfl := h.end_injective ha hb hp (hpq ▸ hq)
  obtain rfl := hef rfl
  cases hp

theorem wellFormed_linked :
    (linkAll (linkPairs (PathEnd.port? port) links) mid).WellFormed := by
  refine h.isCopy.wellFormed.linkAll (h.nodup_ends hm) fun p hp => ?_
  obtain ⟨e, f, -, hpath, he, -⟩ := exists_path_of_mem_ends hm hp
  obtain ⟨k, a, ha⟩ := hm.exists_turn hpath
  rw [h.interface_eq]
  exact h.isFree_of_turn ha he

/-- Linking joins the ports at the two ends of each path. -/
theorem joined_linked {p q : PortId} :
    (linkAll (linkPairs (PathEnd.port? port) links) mid).Joined p q ↔
      (net.Joined p q ∧ net.IsOutside agents p ∧ net.IsOutside agents q) ∨
      (∃ p₀ q₀, rule.replacement.net.Joined p₀ q₀ ∧ port p₀ = p ∧ port q₀ = q) ∨
      ∃ e f, (net.turns rule agents).Path e f ∧ e.port? port = some p ∧
        f.port? port = some q := by
  rw [joined_linkAll, h.isCopy.joined, h.isDetached.joined, or_assoc]
  refine or_congr_right (or_congr_right ?_)
  constructor
  · rintro (hpq | hqp)
    · obtain ⟨e, f, hlink, he, hf⟩ := mem_linkPairs.1 hpq
      exact ⟨e, f, hm.path hlink, he, hf⟩
    · obtain ⟨e, f, hlink, he, hf⟩ := mem_linkPairs.1 hqp
      exact ⟨f, e, (hm.path hlink).symm, hf, he⟩
  · rintro ⟨e, f, hpath, he, hf⟩
    have hne : e ≠ .hidden := by
      rintro rfl
      cases he
    exact (hm.mem hne hpath).imp (fun hlink => mem_linkPairs.2 ⟨e, f, hlink, he, hf⟩)
      fun hlink => mem_linkPairs.2 ⟨f, e, hlink, hf, he⟩

/-- The two agents of the redex stay unconnected. -/
theorem isOutside_of_joined_linked {p q : PortId}
    (hpq : (linkAll (linkPairs (PathEnd.port? port) links) mid).Joined p q) :
    net.IsOutside agents p := by
  rcases (h.joined_linked hm).1 hpq with ⟨-, hp, -⟩ | ⟨p₀, q₀, hcopied, rfl, -⟩ |
    ⟨e, f, hpath, he, -⟩
  · exact hp
  · have hnone := h.port?_copy (h.valid.wellFormed.isSome_of_joined hcopied)
    intro side hmem
    obtain ⟨j, hj⟩ := List.mem_iff_getElem?.1 hmem
    simp [h.wellFormed.port?_eq hj] at hnone
  · obtain ⟨k, a, ha⟩ := hm.exists_turn hpath
    exact h.isOutside_of_turn ha he

end Prepared

end Plan

end InteractionNets
