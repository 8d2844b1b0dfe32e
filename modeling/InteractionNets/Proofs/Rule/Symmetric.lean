import InteractionNets.Proofs.Net.Invariance
import InteractionNets.Proofs.Redex.Chains
import InteractionNets.Proofs.Rule.Sets
import InteractionNets.Rule.Confluence

/-!
# Symmetric rules

A rule between agents of one symbol may find them in either order. The check for this compares the
shape of the replacement net with the shape it has when the sides of the pattern trade places. A
rule passes exactly when its template is isomorphic to its mirror image
(`Rule.isSymmetric_iff_isomorphic_flip`), so both ways of playing the sides give the same. The sets
that pass the check for confluence are lawful: all their rules that have to be are symmetric.
-/

namespace InteractionNets

namespace Rule

variable {rule : Rule}

/-- The template of a rule whose slots have the splices of the opposite slots. -/
theorem flip_template : rule.template.flip =
    rule.replacement.net.draw (fun s p => rule.replacement.splice? s.flip = some (.port p))
      fun s t => rule.replacement.splice? s.flip = some (.wire t.flip) := by
  refine Diagram.ext rfl (funext fun x => funext fun y => propext ⟨fun hxy => ?_, fun hxy => ?_⟩)
  · rcases x with ⟨a, j⟩ | s <;> rcases y with ⟨b, k⟩ | t
    · obtain ⟨hp, hq, hpq⟩ := hxy
      exact .joined hp hq hpq
    · obtain _ | _ | ⟨ht, hp⟩ := hxy
      exact .exposed' ht hp
    · obtain _ | ⟨hs, hp⟩ := hxy
      exact .exposed hs hp
    · obtain _ | _ | _ | ⟨hst, hts⟩ := hxy
      exact .wired hst hts
  · show rule.template.joined x.flip y.flip
    rcases hxy with ⟨hp, hq, hpq⟩ | ⟨hs, hp⟩ | ⟨hs, hp⟩ | ⟨hst, hts⟩
    · exact .joined hp hq hpq
    · exact .exposed hs hp
    · exact .exposed' hs hp
    · exact .wired hst hts

/-! ### What the check compares -/

/-- A splice of the opposite slot that is a wire leads to the slot opposite to where it seems to. -/
private theorem splice?_flip_of_flippedSplice? {s : Slot} {splice : Splice}
    (h : rule.flippedSplice? s = some splice) :
    (∃ t, splice = .wire t ∧ rule.replacement.splice? s.flip = some (.wire t.flip)) ∨
      ∃ p, splice = .port p ∧ rule.replacement.splice? s.flip = some (.port p) := by
  rw [flippedSplice?] at h
  rcases hflip : rule.replacement.splice? s.flip with _ | p | t <;> rw [hflip] at h
  · cases h
  · exact .inr ⟨p, (Option.some.inj h).symm, rfl⟩
  · refine .inl ⟨t.flip, (Option.some.inj h).symm, ?_⟩
    rw [Slot.flip_flip]

/-- Slots with the splices of the opposite slots: wires fall on wires, and ports on the ports that
they are paired with. -/
private theorem flippedPorts?_spec {slots : List Slot} {ports : List (PortId × PortId)}
    (h : rule.flippedPorts? slots = some ports) :
    (∀ s ∈ slots, (∃ t, rule.replacement.splice? s = some (.wire t) ∧
        rule.replacement.splice? s.flip = some (.wire t.flip)) ∨
      ∃ p q, rule.replacement.splice? s = some (.port p) ∧
        rule.replacement.splice? s.flip = some (.port q) ∧ (p, q) ∈ ports) ∧
    ∀ p q, (p, q) ∈ ports → ∃ s, rule.replacement.splice? s = some (.port p) ∧
      rule.replacement.splice? s.flip = some (.port q) := by
  induction slots generalizing ports with
  | nil =>
    obtain rfl := Option.some.inj h
    exact ⟨fun _ hs => absurd hs List.not_mem_nil, fun _ _ hpq => absurd hpq List.not_mem_nil⟩
  | cons s rest ih =>
    rw [flippedPorts?] at h
    split at h
    · rename_i t t' hs hflip
      obtain ⟨_, heq, hflip⟩ | ⟨_, heq, -⟩ := splice?_flip_of_flippedSplice? hflip
      · obtain rfl := Splice.wire.inj heq
        split at h
        · rename_i htt'
          obtain ⟨hslots, hports⟩ := ih h
          refine ⟨fun u hu => ?_, hports⟩
          rcases List.mem_cons.1 hu with rfl | hu
          · rw [htt'] at hs
            exact .inl ⟨t', hs, hflip⟩
          · exact hslots u hu
        · cases h
      · cases heq
    · rename_i p q hs hflip
      obtain ⟨_, heq, -⟩ | ⟨_, heq, hflip⟩ := splice?_flip_of_flippedSplice? hflip
      · cases heq
      · obtain rfl := Splice.port.inj heq
        obtain ⟨ports, hrest, rfl⟩ := Option.map_eq_some_iff.1 h
        obtain ⟨hslots, hports⟩ := ih hrest
        refine ⟨fun u hu => ?_, fun p' q' hmem => ?_⟩
        · rcases List.mem_cons.1 hu with rfl | hu
          · exact .inr ⟨p, q, hs, hflip, List.mem_cons_self⟩
          · refine (hslots u hu).imp id ?_
            rintro ⟨p', q', hp', hq', hmem⟩
            exact ⟨p', q', hp', hq', List.mem_cons_of_mem _ hmem⟩
        · rcases List.mem_cons.1 hmem with heq | hmem
          · obtain ⟨rfl, rfl⟩ := Prod.mk.inj heq
            exact ⟨s, hs, hflip⟩
          · exact hports p' q' hmem
    · cases h

/-- The replacement net of a symmetric rule can be renamed so that each slot gets the splice of the
opposite slot. -/
private theorem exists_renames_of_isSymmetric (hv : rule.Valid) (h : rule.isSymmetric) :
    ∃ f, rule.replacement.net.Renames rule.replacement.net f ∧
      ∀ {s splice}, rule.replacement.splice? s = some splice →
        (∃ t, splice = .wire t ∧ rule.replacement.splice? s.flip = some (.wire t.flip)) ∨
          ∃ p q, splice = .port p ∧ rule.replacement.splice? s.flip = some (.port q) ∧
            rule.replacement.net.SamePlace rule.replacement.net f p q := by
  rw [isSymmetric] at h
  split at h
  · cases h
  · rename_i ports hports
    obtain ⟨hslots, hpairs⟩ := flippedPorts?_spec hports
    have hlive : ∀ {s p}, rule.replacement.splice? s = some (.port p) →
        (rule.replacement.net.port? p).isSome := by
      intro s p hp
      obtain ⟨data, hdata, -⟩ := hv.port_free hp
      rw [hdata]
      rfl
    have hfst : ∀ p ∈ ports.map Prod.fst, (rule.replacement.net.port? p).isSome := by
      intro p hp
      obtain ⟨⟨_, q⟩, hmem, rfl⟩ := List.mem_map.1 hp
      obtain ⟨s, hs, -⟩ := hpairs _ _ hmem
      exact hlive hs
    have hsnd : ∀ p ∈ ports.map Prod.snd, (rule.replacement.net.port? p).isSome := by
      intro q hq
      obtain ⟨⟨p, _⟩, hmem, rfl⟩ := List.mem_map.1 hq
      obtain ⟨s, -, hs⟩ := hpairs _ _ hmem
      exact hlive hs
    obtain ⟨f, hf, hsame⟩ := hv.wellFormed.exists_renames_of_withBoundary hv.wellFormed hfst hsnd
      (eq_of_beq h)
    rw [List.forall₂_map_left_iff, List.forall₂_map_right_iff, List.forall₂_same] at hsame
    refine ⟨f, hf, fun {s splice} hs => ?_⟩
    have hmem : s ∈ rule.slots := hv.mem_slots hs
    rcases hslots s hmem with ⟨t, ht, hflip⟩ | ⟨p, q, hp, hflip, hpq⟩
    · exact .inl ⟨t, Option.some.inj (hs.symm.trans ht), hflip⟩
    · exact .inr ⟨p, q, Option.some.inj (hs.symm.trans hp), hflip, hsame _ hpq⟩

/-- **A symmetric rule has a symmetric template.** -/
theorem isomorphic_flip_of_isSymmetric (hv : rule.Valid) (h : rule.isSymmetric) :
    rule.template.Isomorphic rule.template.flip := by
  obtain ⟨f, hf, hsplice⟩ := exists_renames_of_isSymmetric hv h
  have hport : ∀ {s p q}, rule.replacement.net.SamePlace rule.replacement.net f p q →
      rule.replacement.splice? s = some (.port p) →
        rule.replacement.splice? s.flip = some (.port q) := by
    intro s p q hpq hs
    obtain ⟨_, heq, -⟩ | ⟨_, q', heq, hflip, hpq'⟩ := hsplice hs
    · cases heq
    · obtain rfl := Splice.port.inj heq
      rwa [hpq.unique hv.wellFormed hpq']
  have hport' : ∀ {s p q}, rule.replacement.net.SamePlace rule.replacement.net f p q →
      rule.replacement.splice? s.flip = some (.port q) →
        rule.replacement.splice? s = some (.port p) := by
    intro s p q hpq hflip
    -- the opposite slot of the opposite slot goes to a port, and only one goes to `q`
    obtain ⟨_, heq, -⟩ | ⟨_, p', -, hs, -⟩ := hsplice hflip
    · cases heq
    · rw [Slot.flip_flip] at hs
      obtain ⟨_, heq, -⟩ | ⟨_, q', heq, hflip', hpq'⟩ := hsplice hs
      · cases heq
      · obtain rfl := Splice.port.inj heq
        obtain rfl := Splice.port.inj (Option.some.inj (hflip.symm.trans hflip'))
        rwa [hpq.unique_left hv.wellFormed hf hpq']
  have hwire : ∀ {s t}, rule.replacement.splice? s = some (.wire t) →
      rule.replacement.splice? s.flip = some (.wire t.flip) := by
    intro s t hs
    obtain ⟨_, heq, hflip⟩ | ⟨_, _, heq, -⟩ := hsplice hs
    · rwa [Splice.wire.inj heq]
    · cases heq
  have hwire' : ∀ {s t}, rule.replacement.splice? s.flip = some (.wire t.flip) →
      rule.replacement.splice? s = some (.wire t) := by
    intro s t hflip
    have hs := hwire hflip
    rwa [Slot.flip_flip, Slot.flip_flip] at hs
  have hiso : ∃ g, rule.template.IsIso rule.template.flip f g := by
    rw [flip_template]
    exact hv.wellFormed.exists_isIso_draw hv.wellFormed hf
      (fun _ _ _ hpq => ⟨hport hpq, hport' hpq⟩) fun _ _ => ⟨hwire, hwire'⟩
  exact ⟨f, hiso⟩

/-! ### What the mirror image shows -/

/-- If wires fall on wires and ports on related ports when the sides trade places, the check finds
the ports of each side, and they are related. -/
private theorem exists_flippedPorts {R : PortId → PortId → Prop}
    (hport : ∀ {s p}, rule.replacement.splice? s = some (.port p) →
      ∃ q, rule.replacement.splice? s.flip = some (.port q) ∧ R p q)
    (hwire : ∀ {s t}, rule.replacement.splice? s = some (.wire t) →
      rule.replacement.splice? s.flip = some (.wire t.flip))
    {slots : List Slot} (hslots : ∀ s ∈ slots, (rule.replacement.splice? s).isSome) :
    ∃ ports, rule.flippedPorts? slots = some ports ∧
      List.Forall₂ R (ports.map Prod.fst) (ports.map Prod.snd) := by
  induction slots with
  | nil => exact ⟨[], rfl, .nil⟩
  | cons s rest ih =>
    obtain ⟨hs, hrest⟩ := List.forall_mem_cons.1 hslots
    obtain ⟨ports, hports, hrelated⟩ := ih hrest
    obtain ⟨splice, hsplice⟩ := Option.isSome_iff_exists.1 hs
    cases splice with
    | port p =>
      obtain ⟨q, hflip, hpq⟩ := hport hsplice
      refine ⟨(p, q) :: ports, ?_, .cons hpq hrelated⟩
      simp only [flippedPorts?, flippedSplice?, hsplice, hflip, hports, Option.map_some]
    | wire t =>
      refine ⟨ports, ?_, hrelated⟩
      simp only [flippedPorts?, flippedSplice?, hsplice, hwire hsplice, Slot.flip_flip, hports,
        if_true]

/-- A rule whose template is isomorphic to its mirror image is symmetric. -/
theorem isSymmetric_of_isomorphic_flip (hv : rule.Valid)
    (h : rule.template.Isomorphic rule.template.flip) : rule.isSymmetric := by
  obtain ⟨f, g, hfg⟩ := h
  rw [flip_template] at hfg
  have hf : rule.replacement.net.Renames rule.replacement.net f := Net.renames_of_isIso_draw hfg
  have hport : ∀ {s p}, rule.replacement.splice? s = some (.port p) →
      ∃ q, rule.replacement.splice? s.flip = some (.port q) ∧
        rule.replacement.net.SamePlace rule.replacement.net f p q := by
    intro s p hs
    obtain ⟨b, k, hp⟩ := hv.wellFormed.port?_isSome_iff.1
      (hv.wellFormed.isFree_iff.1 (hv.port_free hs)).1
    obtain ⟨q, hq, hpq⟩ := hf.exists_samePlace_right hv.wellFormed hv.wellFormed hp
    have hjoined := hfg.forward.joined ((Net.draw_joined_place_iff hp).2 hs)
    exact ⟨q, (Net.draw_joined_place_iff hq).1 hjoined, hpq⟩
  have hwire : ∀ {s t}, rule.replacement.splice? s = some (.wire t) →
      rule.replacement.splice? s.flip = some (.wire t.flip) := by
    intro s t hs
    have hjoined := hfg.forward.joined (Net.draw_joined_places_iff.2 ⟨hs, hv.wire_symm hs⟩)
    exact (Net.draw_joined_places_iff.1 hjoined).1
  have hslots : ∀ s ∈ rule.slots, (rule.replacement.splice? s).isSome :=
    fun _ hs => hv.splice_isSome.2 hs
  obtain ⟨ports, hports, hsame⟩ := exists_flippedPorts hport hwire hslots
  rw [isSymmetric, hports]
  exact beq_iff_eq.2 (hf.withBoundary_eq hv.wellFormed hv.wellFormed hsame)

/-- **A rule is symmetric exactly when its template is.** -/
theorem isSymmetric_iff_isomorphic_flip (hv : rule.Valid) :
    rule.isSymmetric ↔ rule.template.Isomorphic rule.template.flip :=
  ⟨isomorphic_flip_of_isSymmetric hv, isSymmetric_of_isomorphic_flip hv⟩

end Rule

namespace RuleSet

variable {rules : RuleSet} {rule : Rule}

/-- The rules reconnect every slot once, and those between agents of one symbol are symmetric. -/
structure Lawful (rules : RuleSet) : Prop where
  valid : ∀ {rule}, rules.Contains rule → rule.Valid
  isSymmetric : ∀ {rule}, rules.Contains rule → rule.isSelfInteraction → rule.isSymmetric

/-- In a set that passes the check, the rules between agents of one symbol are symmetric. -/
theorem isSymmetric_of_isConfluent (h : rules.isConfluent) (hmem : rule ∈ rules.rules)
    (hself : rule.isSelfInteraction) : rule.isSymmetric := by
  have hkeys : rules.asymmetricKeys = [] := by
    rw [isConfluent, confluenceFaults] at h
    split at h
    · exact List.isEmpty_iff.1 h
    · rename_i hne
      exact absurd (List.isEmpty_iff.1 h) hne
  have hnot := List.filter_eq_nil_iff.1 (List.map_eq_nil_iff.1 hkeys) rule hmem
  simpa [hself] using hnot

/-- **Sets that pass the check are lawful**, if their rules were made from well-formed nets. -/
theorem lawful_of_isConfluent (haccepted : ∀ rule ∈ rules.rules, rule.Accepted)
    (h : rules.isConfluent) : rules.Lawful where
  valid hrule := (haccepted _ (mem_rules_of_contains hrule)).valid
  isSymmetric hrule := isSymmetric_of_isConfluent h (mem_rules_of_contains hrule)

end RuleSet

end InteractionNets
