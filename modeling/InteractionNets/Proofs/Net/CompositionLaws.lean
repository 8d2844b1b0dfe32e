import InteractionNets.Proofs.Net.Composition
import InteractionNets.Proofs.Net.SideBySide

/-!
# Laws of composition

Nets side by side are associative, and the net without agents is a unit; isomorphic nets may take
each other's places in a composition; and two nets may be plugged into each other from either side
(`Net.WellFormed.composition_laws`). None of these are equalities, because the two sides give out
ids in different orders.

The laws are those of diagrams. Diagrams side by side are associative in the same way as sums are,
if the places of all of them are counted in a row (`Net.isomorphic_diagram_parallel`). Plugging is
fusing: the places of the two diagrams are counted from the same number on, and then the two ports
at a place are joined to each other (`Diagram.fuse`, `Net.isomorphic_diagram_sequential`).
-/

namespace InteractionNets

/-- Whether a point is a port of an agent. -/
def Point.IsPort {ι V : Type} : Point ι V → Prop
  | port _ _ => True
  | place _ => False

namespace Diagram

variable {ι V W X : Type} {D : Diagram ι V} {E : Diagram ι W}

/-! ### Diagrams side by side -/

/-- The parentheses of diagrams side by side do not matter. -/
theorem isIso_beside_assoc (D : Diagram ι V) (E : Diagram ι W) (F : Diagram ι X) :
    ((D.beside E).beside F).IsIso (D.beside (E.beside F)) (Equiv.sumAssoc V W X)
      (Equiv.sumAssoc V W X).symm := by
  refine ⟨⟨fun {c} _ => ?_, fun {c} _ => Equiv.symm_apply_apply _ c, fun {x y} hxy => ?_⟩,
    ⟨fun {c} _ => ?_, fun {c} _ => Equiv.apply_symm_apply _ c, fun {x y} hxy => ?_⟩⟩
  · rcases c with (a | b) | c <;> rfl
  · obtain ⟨_, _, ⟨a, b, hab, rfl, rfl⟩ | ⟨a, b, hab, rfl, rfl⟩, rfl, rfl⟩ |
      ⟨a, b, hab, rfl, rfl⟩ := hxy
    · refine .inl ⟨a, b, hab, ?_, ?_⟩ <;> simp only [Point.map_map] <;> rfl
    · refine .inr ⟨_, _, .inl ⟨a, b, hab, rfl, rfl⟩, ?_, ?_⟩ <;> simp only [Point.map_map] <;> rfl
    · refine .inr ⟨_, _, .inr ⟨a, b, hab, rfl, rfl⟩, ?_, ?_⟩ <;> simp only [Point.map_map] <;> rfl
  · rcases c with a | b | c <;> rfl
  · obtain ⟨a, b, hab, rfl, rfl⟩ |
      ⟨_, _, ⟨a, b, hab, rfl, rfl⟩ | ⟨a, b, hab, rfl, rfl⟩, rfl, rfl⟩ := hxy
    · refine .inl ⟨_, _, .inl ⟨a, b, hab, rfl, rfl⟩, ?_, ?_⟩ <;> simp only [Point.map_map] <;> rfl
    · refine .inl ⟨_, _, .inr ⟨a, b, hab, rfl, rfl⟩, ?_, ?_⟩ <;> simp only [Point.map_map] <;> rfl
    · refine .inr ⟨a, b, hab, ?_, ?_⟩ <;> simp only [Point.map_map] <;> rfl

/-- A diagram in which there is nothing adds nothing. -/
theorem isIso_beside_empty (D : Diagram ι V) (hsymbol : ∀ c, E.symbol c = none)
    (hjoined : ∀ x y, ¬ E.joined x y) (a : V) :
    D.IsIso (D.beside E) .inl (Sum.elim id fun _ => a) := by
  refine ⟨embeds_beside D E a, fun {c} hc => ?_, fun {c} hc => ?_, fun {x y} hxy => ?_⟩
  · rcases c with c | c
    · rfl
    · cases (hsymbol c).symm ▸ hc
  · rcases c with c | c
    · rfl
    · cases (hsymbol c).symm ▸ hc
  · obtain ⟨u, v, huv, rfl, rfl⟩ | ⟨u, v, huv, -, -⟩ := hxy
    · rw [Point.map_map, Point.map_map]
      exact (Embeds.refl D).joined huv
    · exact absurd huv (hjoined u v)

/-! ### Diagrams fused at their places -/

/-- The ports of a diagram, without its places: ports that stood at the same place are joined to
each other. -/
def fuse (D : Diagram ι V) : Diagram ι V where
  symbol := D.symbol
  joined x y := x.IsPort ∧ y.IsPort ∧
    (D.joined x y ∨ x ≠ y ∧ ∃ i, D.joined (.place i) x ∧ D.joined (.place i) y)
  symm h := by
    obtain ⟨hx, hy, hxy | ⟨hne, i, hix, hiy⟩⟩ := h
    · exact ⟨hy, hx, .inl (D.symm hxy)⟩
    · exact ⟨hy, hx, .inr ⟨hne.symm, i, hiy, hix⟩⟩
  live h := by
    obtain ⟨-, -, hxy | ⟨-, i, hix, -⟩⟩ := h
    · exact D.live hxy
    · exact D.live (D.symm hix)

theorem Embeds.fuse {f : V → W} {g : W → V} (h : D.Embeds E f g) : D.fuse.Embeds E.fuse f g := by
  refine ⟨h.symbol, h.inverse, fun {x y} hxy => ?_⟩
  have hport : ∀ {z : Point ι V}, z.IsPort → (z.map f).IsPort := by
    rintro (⟨a, k⟩ | i) hz <;> exact hz
  have hlive := D.fuse.live hxy
  have hlive' := D.fuse.live (D.fuse.symm hxy)
  obtain ⟨hx, hy, hjoined | ⟨hne, i, hix, hiy⟩⟩ := hxy
  · exact ⟨hport hx, hport hy, .inl (h.joined hjoined)⟩
  · refine ⟨hport hx, hport hy, .inr ⟨fun heq => hne ?_, i, h.joined hix, h.joined hiy⟩⟩
    rw [← h.map_inverse hlive, heq, h.map_inverse hlive']

theorem Isomorphic.fuse (h : D.Isomorphic E) : D.fuse.Isomorphic E.fuse := by
  obtain ⟨f, g, hfg⟩ := h
  exact ⟨f, g, hfg.forward.fuse, hfg.backward.fuse⟩

end Diagram

namespace Net

variable {net other after : Net}

/-! ### Nets side by side -/

section Parallel

variable (h : net.WellFormed) (hother : other.WellFormed)

include h hother

/-- **Nets side by side are associative.** -/
theorem parallel_assoc {last : Net} (hlast : last.WellFormed) :
    ((net.parallel other).parallel last).Isomorphic (net.parallel (other.parallel last)) := by
  refine (((h.parallel hother).parallel hlast).isomorphic_iff
    (h.parallel (hother.parallel hlast))).2 ?_
  have hfirst := isomorphic_diagram_parallel (h.parallel hother) hlast 0
  have hlater := isomorphic_diagram_parallel h (hother.parallel hlast) 0
  have hleft := isomorphic_diagram_parallel h hother 0
  have hright := isomorphic_diagram_parallel hother hlast (0 + net.interface.length)
  rw [length_interface_parallel h hother, ← Nat.add_assoc] at hfirst
  refine hfirst.symm.trans (.trans ?_ hlater)
  exact (hleft.symm.beside (.refl _)).trans
    (.trans ⟨_, _, Diagram.isIso_beside_assoc _ _ _⟩ ((Diagram.Isomorphic.refl _).beside hright))

end Parallel

/-- Nothing is put beside a net. -/
theorem parallel_empty (net : Net) : net.parallel .empty = net := by
  have hnone : net.tally + Net.empty.tally = net.tally := Tally.add_empty net.tally
  exact Net.ext rfl rfl rfl rfl hnone

/-- A net is put beside nothing. -/
theorem empty_parallel (h : net.WellFormed) : (Net.empty.parallel net).Isomorphic net := by
  have hsymbol : ∀ a, (Net.empty.diagram []).symbol a = none := fun a => by
    show (Net.empty.agent? a).map Agent.symbol = none
    rw [agent?, empty, Arena.get?_empty, Option.map_none]
  have hjoined : ∀ x y, ¬ (Net.empty.diagram []).joined x y := by
    have hlive : ∀ {x y}, (Net.empty.diagram []).joined x y → ∃ i, x = .place i := by
      rintro (⟨a, k⟩ | i) y hxy
      · have hsome : ((Net.empty.diagram []).symbol a).isSome := Diagram.live _ hxy
        rw [hsymbol] at hsome
        cases hsome
      · exact ⟨i, rfl⟩
    intro x y hxy
    obtain ⟨i, rfl⟩ := hlive hxy
    obtain ⟨j, rfl⟩ := hlive (Diagram.symm _ hxy)
    exact not_diagram_joined_places i j hxy
  have hiso := isomorphic_diagram_parallel wellFormed_empty h 0
  refine ((wellFormed_empty.parallel h).isomorphic_iff h).2 (hiso.symm.trans ?_)
  exact .trans ⟨_, _, Diagram.isIso_beside_swap _ _⟩
    (.symm ⟨_, _, Diagram.isIso_beside_empty _ hsymbol hjoined 0⟩)

/-! ### Nets plugged into each other -/

namespace Plugs

variable {left right mid : Net} {agent : AgentId → AgentId} {port : PortId → PortId} {p q : PortId}
  (h : Plugs left right (left.interface.zip right.interface) mid after agent port)

include h

/-- Different ports are plugged into each other when they have the same label. -/
theorem joined_iff_labels : after.Joined p q ↔ mid.Joined p q ∨ p ≠ q ∧
    ∃ i, (p, i) ∈ bothLabels left.interface.zipIdx right.interface.zipIdx port ∧
      (q, i) ∈ bothLabels left.interface.zipIdx right.interface.zipIdx port := by
  constructor
  · intro hpq
    have hne := h.wellFormed.joined_ne hpq
    rcases h.joined_iff.1 hpq with hmid | ⟨a, b, hpair, rfl, rfl⟩ | ⟨a, b, hpair, rfl, rfl⟩
    · exact .inl hmid
    · obtain ⟨i, ha, hb⟩ := mem_zip_iff_zipIdx.1 hpair
      exact .inr ⟨hne, i, mem_bothLabels.2 (.inl ha), mem_bothLabels.2 (.inr ⟨b, hb, rfl⟩)⟩
    · obtain ⟨i, ha, hb⟩ := mem_zip_iff_zipIdx.1 hpair
      exact .inr ⟨hne, i, mem_bothLabels.2 (.inr ⟨b, hb, rfl⟩), mem_bothLabels.2 (.inl ha)⟩
  · rintro (hmid | ⟨hne, i, hp, hq⟩)
    · exact h.joined_iff.2 (.inl hmid)
    · -- no two ports of one net have a label in common
      rcases mem_bothLabels.1 hp with hp | ⟨b, hb, rfl⟩ <;>
        rcases mem_bothLabels.1 hq with hq | ⟨b', hb', rfl⟩
      · exact absurd (left.isLabelling_zipIdx.port_unique hp hq) hne
      · exact h.joined_pair (mem_zip_iff_zipIdx.2 ⟨i, hp, hb'⟩)
      · exact (h.joined_pair (mem_zip_iff_zipIdx.2 ⟨i, hq, hb⟩)).symm
      · exact absurd (congrArg port (right.isLabelling_zipIdx.port_unique hb hb')) hne

/-- The diagram of the net is that of the two nets side by side, fused at the common labels. -/
theorem diagram_eq : after.diagram [] =
    (mid.diagram (bothLabels left.interface.zipIdx right.interface.zipIdx port)).fuse := by
  refine Diagram.ext (funext fun a => ?_) (funext fun x => funext fun y => propext ?_)
  · show (after.agent? a).map Agent.symbol = (mid.agent? a).map Agent.symbol
    rw [h.agent?_eq]
  · constructor
    · intro hxy
      cases hxy with
      | joined hp hq hpq =>
        rw [h.portsOf_eq] at hp hq
        refine ⟨trivial, trivial, (h.joined_iff_labels.1 hpq).imp (.joined hp hq)
          fun ⟨hne, i, hi, hi'⟩ => ⟨fun heq => hne ?_, i, .exposed hi hp, .exposed hi' hq⟩⟩
        obtain ⟨rfl, rfl⟩ := Point.port.inj heq
        exact Option.some.inj (hp.symm.trans hq)
      | exposed hi _ => cases hi
      | exposed' hi _ => cases hi
      | wired hnone _ => exact hnone.elim
    · rintro ⟨hx, hy, hxy⟩
      rcases x with ⟨a, j⟩ | i
      · rcases y with ⟨b, k⟩ | i
        · rcases hxy with hxy | ⟨hne, i, hix, hiy⟩
          · obtain ⟨hp, hq, hpq⟩ := hxy
            exact .joined ((h.portsOf_eq a).symm ▸ hp) ((h.portsOf_eq b).symm ▸ hq)
              (h.joined_iff_labels.2 (.inl hpq))
          · obtain _ | ⟨hi, hp⟩ := hix
            obtain _ | ⟨hi', hq⟩ := hiy
            refine .joined ((h.portsOf_eq a).symm ▸ hp) ((h.portsOf_eq b).symm ▸ hq)
              (h.joined_iff_labels.2 (.inr ⟨?_, i, hi, hi'⟩))
            rintro rfl
            obtain ⟨rfl, rfl⟩ := h.isCopy.wellFormed.port_unique hp hq
            exact hne rfl
        · exact hy.elim
      · exact hx.elim

end Plugs

section Sequential

variable (h : net.WellFormed) (hother : other.WellFormed)

include h hother

/-- **The diagram of two nets plugged into each other** consists of their diagrams, fused at their
places. -/
theorem isomorphic_diagram_sequential (hafter : net.sequential other = .ok after) :
    after.IsLabelling [] ∧
      ((net.diagram net.interface.zipIdx).beside
        (other.diagram other.interface.zipIdx)).fuse.Isomorphic (after.diagram []) := by
  have hlength := (exists_sequential_iff h hother).1 ⟨after, hafter⟩
  obtain ⟨last, agent, hlast, hplugs⟩ := exists_plugs_of_length h hother hlength
  obtain rfl := Except.ok.inj (hlast.symm.trans hafter)
  obtain ⟨g, hiso⟩ :=
    hplugs.isCopy.exists_isIso h hother net.isLabelling_zipIdx other.isLabelling_zipIdx
  refine ⟨⟨hplugs.interface_eq.symm, .nil⟩, ?_⟩
  rw [hplugs.diagram_eq]
  exact Diagram.Isomorphic.fuse ⟨_, g, hiso⟩

/-- Isomorphic nets are plugged into isomorphic nets with isomorphic results. -/
theorem Isomorphic.sequential {net' other' after' : Net} (h' : net'.WellFormed)
    (hother' : other'.WellFormed) (hiso : net.Isomorphic net') (hiso' : other.Isomorphic other')
    (hafter : net.sequential other = .ok after) (hafter' : net'.sequential other' = .ok after') :
    after.Isomorphic after' := by
  obtain ⟨hlabels, hfused⟩ := isomorphic_diagram_sequential h hother hafter
  obtain ⟨hlabels', hfused'⟩ := isomorphic_diagram_sequential h' hother' hafter'
  have hbeside := ((h.isomorphic_iff h').1 hiso).beside ((hother.isomorphic_iff hother').1 hiso')
  exact (h.sequential hother hafter).isomorphic_of_diagram (h'.sequential hother' hafter') hlabels
    hlabels' (hfused.symm.trans (hbeside.fuse.trans hfused'))

/-- Which of two nets is plugged into the other does not matter. -/
theorem sequential_comm (hafter : net.sequential other = .ok after) :
    ∃ after', other.sequential net = .ok after' ∧ after.Isomorphic after' := by
  have hlength := (exists_sequential_iff h hother).1 ⟨after, hafter⟩
  obtain ⟨after', hafter'⟩ := (exists_sequential_iff hother h).2 hlength.symm
  obtain ⟨hlabels, hfused⟩ := isomorphic_diagram_sequential h hother hafter
  obtain ⟨hlabels', hfused'⟩ := isomorphic_diagram_sequential hother h hafter'
  have hmid := Diagram.Isomorphic.fuse ⟨_, _, Diagram.isIso_beside_swap
    (net.diagram net.interface.zipIdx) (other.diagram other.interface.zipIdx)⟩
  exact ⟨after', hafter', (h.sequential hother hafter).isomorphic_of_diagram
    (hother.sequential h hafter') hlabels hlabels' (hfused.symm.trans (hmid.trans hfused'))⟩

end Sequential

/-! ### The laws -/

/-- **The laws of composition.** Nets side by side are associative up to isomorphism, and the empty
net is a unit on either side. Nets in a composition may be replaced by isomorphic ones: side by side
they give isomorphic nets, and plugged into each other both fail or both give isomorphic nets. Two
nets that can be plugged into each other can be so the other way round, with isomorphic results. -/
theorem WellFormed.composition_laws {a b c a' b' : Net} (ha : a.WellFormed) (hb : b.WellFormed)
    (hc : c.WellFormed) (ha' : a'.WellFormed) (hb' : b'.WellFormed) :
    ((a.parallel b).parallel c).Isomorphic (a.parallel (b.parallel c)) ∧
    (a.parallel .empty).Isomorphic a ∧
    (Net.empty.parallel a).Isomorphic a ∧
    (a.Isomorphic a' → b.Isomorphic b' →
      (a.parallel b).Isomorphic (a'.parallel b') ∧
      ((∃ after, a.sequential b = .ok after) ↔ ∃ after', a'.sequential b' = .ok after') ∧
      ∀ after after', a.sequential b = .ok after → a'.sequential b' = .ok after' →
        after.Isomorphic after') ∧
    ∀ after, a.sequential b = .ok after →
      ∃ after', b.sequential a = .ok after' ∧ after.Isomorphic after' := by
  refine ⟨parallel_assoc ha hb hc, ?_, empty_parallel ha, fun hiso hiso' => ⟨?_, ?_, ?_⟩,
    fun after hafter => sequential_comm ha hb hafter⟩
  · rw [parallel_empty]
    exact ha.isomorphic_refl
  · exact Isomorphic.parallel ha hb ha' hb' hiso hiso'
  · obtain ⟨f, -, hinterface⟩ := id hiso
    obtain ⟨f', -, hinterface'⟩ := id hiso'
    rw [exists_sequential_iff ha hb, exists_sequential_iff ha' hb', hinterface.length_eq,
      hinterface'.length_eq]
  · exact fun after after' => Isomorphic.sequential ha hb ha' hb' hiso hiso'

open Combinators in
/-- The two agents of an active pair may be made in either order before its auxiliary ports are
plugged into two passages. -/
theorem composition_laws_facing :
    (((facing gamma epsilon).parallel (facing passage passage)).parallel
        (single passage)).Isomorphic
      ((facing gamma epsilon).parallel ((facing passage passage).parallel (single passage))) ∧
      ∃ after after', (facing gamma epsilon).sequential (facing passage passage) = .ok after ∧
        (facing epsilon gamma).sequential (facing passage passage) = .ok after' ∧
        after.Isomorphic after' := by
  have hleft := wellFormed_facing gamma epsilon
  have hleft' := wellFormed_facing epsilon gamma
  have hright := wellFormed_facing passage passage
  have hiso : (facing gamma epsilon).Isomorphic (facing epsilon gamma) :=
    (hleft.isomorphic_eq_true hleft').1 (by decide +kernel)
  obtain ⟨hassoc, -, -, hcongr, -⟩ := WellFormed.composition_laws hleft hright
    (wellFormed_single passage) hleft' hright
  obtain ⟨-, hiff, hresults⟩ := hcongr hiso hright.isomorphic_refl
  obtain ⟨after, hafter⟩ := (exists_sequential_iff hleft hright).2 (by decide +kernel)
  obtain ⟨after', hafter'⟩ := hiff.1 ⟨after, hafter⟩
  exact ⟨hassoc, after, after', hafter, hafter', hresults after after' hafter hafter'⟩

end Net

end InteractionNets
