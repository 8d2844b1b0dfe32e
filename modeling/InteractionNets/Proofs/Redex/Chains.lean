import InteractionNets.Proofs.Diagram.Rewrite
import InteractionNets.Proofs.Net.Isomorphic
import InteractionNets.Proofs.Redex.Interaction

/-!
# Chains through a redex

The diagram of a net is rewritten by contracting the ports of a redex. So points are joined by the
chains through slots afterwards, and these are the paths of the rule: the ends of paths are points
of the diagram, and two of them are joined afterwards exactly when they were joined before or belong
to one path (`Net.IsRedex.joined_rewrite_iff`). Places clash exactly when a path joins two places on
the interface (`Net.hasClash_rewrite_iff`).
-/

namespace InteractionNets

open Relation

/-- The diagram of what replaces the pattern of a rule, with the slots as places. -/
def Rule.template (rule : Rule) : Diagram Slot AgentId :=
  rule.replacement.net.draw (fun a p => rule.replacement.splice? a = some (.port p))
    fun a b => rule.replacement.splice? a = some (.wire b)

namespace Net

/-- The diagram of a net, rewritten at a redex. -/
noncomputable abbrev rewritten (net : Net) (rule : Rule) (agents : Side → AgentId)
    (labels : List (PortId × Nat)) : Diagram Nat (AgentId ⊕ AgentId) :=
  (net.diagram labels).rewrite agents rule.template

/-- The points of a diagram that is rewritten at a redex, as ends of paths. -/
inductive EndAt (net : Net) (rule : Rule) (agents : Side → AgentId)
    (labels : List (PortId × Nat)) : Point Nat (AgentId ⊕ AgentId) → PathEnd → Prop
  | host {a : AgentId} {k : Nat} {p : PortId} : (net.portsOf a)[k]? = some p →
      (∀ side, a ≠ agents side) → EndAt net rule agents labels (.port (.inl a) k) (.host p)
  | fresh {a : AgentId} {k : Nat} {p : PortId} :
      (rule.replacement.net.portsOf a)[k]? = some p →
      EndAt net rule agents labels (.port (.inr a) k) (.fresh p)
  | free {i : Nat} {p : PortId} : (p, i) ∈ labels →
      EndAt net rule agents labels (.place i) (.free p)

/-- Ends that are joined to each other, with no slot in between. -/
inductive Beside (net : Net) (rule : Rule) (agents : Side → AgentId) : PathEnd → PathEnd → Prop
  | host {p q} : net.Joined p q → net.IsOutside agents p → net.IsOutside agents q →
      Beside net rule agents (.host p) (.host q)
  | fresh {p q} : rule.replacement.net.Joined p q → Beside net rule agents (.fresh p) (.fresh q)
  | free {p} : p ∈ net.interface → net.IsOutside agents p →
      Beside net rule agents (.free p) (.host p)
  | free' {p} : p ∈ net.interface → net.IsOutside agents p →
      Beside net rule agents (.host p) (.free p)

variable {net : Net} {rule : Rule} {agents : Side → AgentId} {labels : List (PortId × Nat)}

theorem Beside.symm {e f : PathEnd} (h : net.Beside rule agents e f) :
    net.Beside rule agents f e := by
  rcases h with ⟨hpq, hp, hq⟩ | hpq | ⟨hmem, hp⟩ | ⟨hmem, hp⟩
  · exact .host hpq.symm hq hp
  · exact .fresh hpq.symm
  · exact .free' hmem hp
  · exact .free hmem hp

/-- A port of an agent lies outside when the agent does not play a side. -/
theorem isOutside_iff_ne (h : net.WellFormed) {a : AgentId} {k : Nat} {p : PortId}
    (hp : (net.portsOf a)[k]? = some p) :
    net.IsOutside agents p ↔ ∀ side, a ≠ agents side := by
  constructor
  · rintro hout side rfl
    exact hout side (List.mem_of_getElem? hp)
  · intro hne side hmem
    obtain ⟨j, hj⟩ := List.mem_iff_getElem?.1 hmem
    exact hne side (h.port_unique hp hj).1

theorem isSome_symbol_rewritten_inl {a : AgentId} :
    ((net.rewritten rule agents labels).symbol (.inl a)).isSome ↔
      (∀ side, a ≠ agents side) ∧ (net.agent? a).isSome := by
  rw [Diagram.isSome_symbol_rewrite_inl, diagram, isSome_symbol_draw]

theorem isSome_symbol_rewritten_inr {b : AgentId} :
    ((net.rewritten rule agents labels).symbol (.inr b)).isSome ↔
      (rule.replacement.net.agent? b).isSome := by
  rw [Diagram.symbol_rewrite_inr, Rule.template, isSome_symbol_draw]

theorem EndAt.not_isGone {x : Point Nat (AgentId ⊕ AgentId)} {e : PathEnd}
    (hx : net.EndAt rule agents labels x e) : ¬ x.IsGone agents := by
  rcases hx with ⟨-, hne⟩ | _ | _
  · rintro ⟨side, heq⟩
    exact hne side heq
  · exact id
  · exact id

theorem EndAt.end_unique (hl : net.IsLabelling labels) {x : Point Nat (AgentId ⊕ AgentId)}
    {e f : PathEnd} (he : net.EndAt rule agents labels x e)
    (hf : net.EndAt rule agents labels x f) : e = f := by
  rcases he with ⟨hp, -⟩ | hp | hp <;> rcases hf with ⟨hq, -⟩ | hq | hq
  · rw [Option.some.inj (hp.symm.trans hq)]
  · rw [Option.some.inj (hp.symm.trans hq)]
  · rw [hl.port_unique hp hq]

theorem EndAt.point_unique (h : net.WellFormed) (hv : rule.Valid) (hl : net.IsLabelling labels)
    {x y : Point Nat (AgentId ⊕ AgentId)} {e : PathEnd} (hx : net.EndAt rule agents labels x e)
    (hy : net.EndAt rule agents labels y e) : x = y := by
  rcases hx with ⟨hp, -⟩ | hp | hp
  · obtain ⟨hq, -⟩ := hy
    obtain ⟨rfl, rfl⟩ := h.port_unique hp hq
    rfl
  · obtain _ | hq := hy
    obtain ⟨rfl, rfl⟩ := hv.wellFormed.port_unique hp hq
    rfl
  · obtain _ | _ | hq := hy
    rw [hl.label_unique h hp hq]

/-! ### Edges -/

/-- A turn between slots is an edge. -/
theorem glued_of_go (hv : rule.Valid) {d : Heading} {s t : Slot}
    (hturn : net.turns rule agents d s (.go t)) : (net.diagram labels).Glued agents rule.template
      (Point.inner agents (.place s)) (Point.inner agents (.place t)) := by
  cases d with
  | inward =>
    obtain _ | ht := hturn
    exact .inr ⟨.place s, .place t, .wired ht (hv.wire_symm ht), rfl, rfl⟩
  | outward =>
    obtain _ | _ | _ | ⟨hs, ht, hpq⟩ := hturn
    exact .inl ⟨.port _ _, .port _ _, .joined hs ht hpq, rfl, rfl⟩

/-- A turn to an end is an edge. -/
theorem glued_of_stop {d : Heading} {s : Slot} {e : PathEnd} {z : Point Nat (AgentId ⊕ AgentId)}
    (hturn : net.turns rule agents d s (.stop e)) (hz : net.EndAt rule agents labels z e) :
    (net.diagram labels).Glued agents rule.template (Point.inner agents (.place s)) z := by
  cases d with
  | inward =>
    obtain ⟨hp⟩ := hturn
    obtain _ | hp' := hz
    exact .inr ⟨.place s, .port _ _, .exposed hp hp', rfl, rfl⟩
  | outward =>
    obtain ⟨hs, hpq, -⟩ | ⟨hs, -⟩ | _ := hturn
    · obtain ⟨hq, -⟩ := hz
      exact .inl ⟨.port _ _, .port _ _, .joined hs hq hpq, rfl, rfl⟩
    · obtain _ | _ | hi := hz
      exact .inl ⟨.port _ _, .place _, .exposed' hi hs, rfl, rfl⟩
    · cases hz

/-- There is an edge between ends beside each other. -/
theorem glued_of_beside {x y : Point Nat (AgentId ⊕ AgentId)} {e f : PathEnd}
    (hx : net.EndAt rule agents labels x e) (hy : net.EndAt rule agents labels y f)
    (hef : net.Beside rule agents e f) :
    (net.diagram labels).Glued agents rule.template x y := by
  obtain ⟨hpq, -, -⟩ | hpq | ⟨-, -⟩ | ⟨-, -⟩ := hef
  · obtain ⟨hp, -⟩ := hx
    obtain ⟨hq, -⟩ := hy
    exact .inl ⟨.port _ _, .port _ _, .joined hp hq hpq, rfl, rfl⟩
  · obtain _ | hp := hx
    obtain _ | hq := hy
    exact .inr ⟨.port _ _, .port _ _, .joined hp hq hpq, rfl, rfl⟩
  · obtain _ | _ | hi := hx
    obtain ⟨hp, -⟩ := hy
    exact .inl ⟨.place _, .port _ _, .exposed hi hp, rfl, rfl⟩
  · obtain ⟨hp, -⟩ := hx
    obtain _ | _ | hi := hy
    exact .inl ⟨.port _ _, .place _, .exposed' hi hp, rfl, rfl⟩

namespace IsRedex

variable (hr : net.IsRedex rule agents) (h : net.WellFormed) (hv : rule.Valid)
  (hl : net.IsLabelling labels)

include hr

/-- A port of the redex that is joined to something else than its principal ports is a slot's. -/
private theorem exists_slot {side : Side} {k : Nat} {p : PortId}
    (hp : (net.portsOf (agents side))[k]? = some p)
    (hother : ∀ q, net.Joined p q → net.IsOutside agents q) :
    ∃ s : Slot, s.side = side ∧ k = s.index + 1 ∧ net.slotPort? agents s = some p := by
  rcases Nat.eq_zero_or_pos k with rfl | hk
  · obtain ⟨p', q, hp', hq, hpq⟩ := hr.exists_principal side
    obtain rfl := Option.some.inj (hp.symm.trans hp')
    exact absurd (List.mem_of_getElem? hq) (hother q hpq _)
  · refine ⟨⟨side, k - 1⟩, rfl, (Nat.sub_add_cancel hk).symm, ?_⟩
    rw [slotPort?, Nat.sub_add_cancel hk]
    exact hp

include h hl

/-- The edges at an end lead to an end beside it, or to a slot with a turn to the end. -/
theorem glued_endAt {x z : Point Nat (AgentId ⊕ AgentId)} {e : PathEnd}
    (hx : net.EndAt rule agents labels x e)
    (hz : (net.diagram labels).Glued agents rule.template x z) :
    (∃ f, net.EndAt rule agents labels z f ∧ net.Beside rule agents e f) ∨
      ∃ d s, z = Point.inner agents (.place s) ∧ net.turns rule agents d s (.stop e) := by
  have hinterface : ∀ {p i q}, (p, i) ∈ labels → ¬ net.Joined p q := fun hp hpq =>
    h.not_mem_interface_of_joined hpq (hl.mem_interface hp)
  obtain ⟨u, w, huw, rfl, rfl⟩ | ⟨u, w, huw, rfl, rfl⟩ := hz
  · -- an edge of the net leads to the redex, and then to a slot, or to what is beside the end
    obtain @⟨a, b, j, k, p, q, hp, hq, hpq⟩ | @⟨i, b, k, p, hi, hp⟩ | ⟨hi, hp⟩ | ⟨hnone, -⟩ := huw
    · obtain @⟨_, _, p', hp', hne⟩ := hx
      obtain rfl := Option.some.inj (hp.symm.trans hp')
      have hout := (isOutside_iff_ne h hp).2 hne
      by_cases hb : ∃ side, b = agents side
      · obtain ⟨side, rfl⟩ := hb
        obtain ⟨s, rfl, rfl, hs⟩ := hr.exists_slot hq fun r hr' => by
          rwa [← h.joined_unique hpq.symm hr']
        exact .inr ⟨.outward, s, rfl, .peer hs hpq.symm hout⟩
      · have hne' : ∀ side, b ≠ agents side := fun side heq => hb ⟨side, heq⟩
        exact .inl ⟨.host q, .host hq hne', .host hpq hout ((isOutside_iff_ne h hq).2 hne')⟩
    · obtain _ | _ | hi' := hx
      obtain rfl := hl.port_unique hi hi'
      have hmem := hl.mem_interface hi
      by_cases hb : ∃ side, b = agents side
      · obtain ⟨side, rfl⟩ := hb
        obtain ⟨s, rfl, rfl, hs⟩ := hr.exists_slot hp fun r hr' => absurd hr' (hinterface hi)
        exact .inr ⟨.outward, s, rfl, .free hs hmem⟩
      · have hne : ∀ side, b ≠ agents side := fun side heq => hb ⟨side, heq⟩
        exact .inl ⟨.host p, .host hp hne, .free hmem ((isOutside_iff_ne h hp).2 hne)⟩
    · obtain ⟨hp', hne⟩ := hx
      obtain rfl := Option.some.inj (hp.symm.trans hp')
      exact .inl ⟨_, .free hi, .free' (hl.mem_interface hi) ((isOutside_iff_ne h hp).2 hne)⟩
    · exact hnone.elim
  · -- the places of the template are ports of the redex, so no ends
    obtain ⟨hp, hq, hpq⟩ | ⟨hs, hp⟩ | ⟨hs, hp⟩ | ⟨hs, -⟩ := huw
    · obtain _ | hp' := hx
      obtain rfl := Option.some.inj (hp.symm.trans hp')
      exact .inl ⟨_, .fresh hq, .fresh hpq⟩
    · exact absurd ⟨_, rfl⟩ hx.not_isGone
    · obtain _ | hp' := hx
      obtain rfl := Option.some.inj (hp.symm.trans hp')
      exact .inr ⟨.inward, _, rfl, .port hs⟩
    · exact absurd ⟨_, rfl⟩ hx.not_isGone

/-- The edges at a slot are the turns there. -/
theorem glued_inner {s : Slot} {z : Point Nat (AgentId ⊕ AgentId)}
    (hz : (net.diagram labels).Glued agents rule.template (Point.inner agents (.place s)) z) :
    ∃ d, (∃ e, net.turns rule agents d s (.stop e) ∧ net.EndAt rule agents labels z e) ∨
      ∃ t, net.turns rule agents d s (.go t) ∧ z = Point.inner agents (.place t) := by
  obtain ⟨u, w, huw, hu, rfl⟩ | ⟨u, w, huw, hu, rfl⟩ := hz
  · refine ⟨.outward, ?_⟩
    rcases u with ⟨a, l⟩ | i <;> cases hu
    obtain @⟨_, b, _, k, p, q, hp, hq, hpq⟩ | _ | ⟨hi, hp⟩ := huw
    · by_cases hb : ∃ side, b = agents side
      · obtain ⟨side, rfl⟩ := hb
        obtain ⟨hk, ht⟩ := hr.exists_slot_of_joined h hp hpq hq
        refine .inr ⟨⟨side, k - 1⟩, .slot hp ht hpq, ?_⟩
        exact congrArg (Point.port _) (Nat.sub_add_cancel (Nat.pos_of_ne_zero hk)).symm
      · have hne : ∀ side, b ≠ agents side := fun side heq => hb ⟨side, heq⟩
        exact .inl ⟨.host q, .peer hp hpq ((isOutside_iff_ne h hq).2 hne), .host hq hne⟩
    · exact .inl ⟨_, .free hp (hl.mem_interface hi), .free hi⟩
  · refine ⟨.inward, ?_⟩
    rcases u with ⟨a, l⟩ | ⟨side, index⟩
    · cases hu
    · obtain ⟨hagents, hindex⟩ := Point.port.inj hu
      obtain rfl := hr.agents_injective h (Sum.inl.inj hagents)
      obtain rfl := Nat.succ.inj hindex
      obtain _ | ⟨hs, hp⟩ | _ | ⟨hs, -⟩ := huw
      · exact .inl ⟨_, .port hs, .fresh hp⟩
      · exact .inr ⟨_, .wire hs, rfl⟩

/-! ### Paths -/

omit hr hl in
/-- An end has one other end beside it. -/
private theorem beside_unique (hv : rule.Valid) {e f g : PathEnd}
    (hf : net.Beside rule agents e f) (hg : net.Beside rule agents e g) : f = g := by
  have hmem : ∀ {p q}, p ∈ net.interface → ¬ net.Joined p q := fun hp hpq =>
    h.not_mem_interface_of_joined hpq hp
  obtain ⟨hpq, -, -⟩ | hpq | ⟨-, -⟩ | ⟨hp, -⟩ := hf
  · obtain ⟨hpq', -, -⟩ | _ | _ | ⟨hp, -⟩ := hg
    · rw [h.joined_unique hpq hpq']
    · exact absurd hpq (hmem hp)
  · obtain _ | hpq' := hg
    rw [hv.wellFormed.joined_unique hpq hpq']
  · obtain _ | _ | _ := hg
    rfl
  · obtain ⟨hpq, -, -⟩ | _ | _ | _ := hg
    · exact absurd hpq (hmem hp)
    · rfl

omit hr hl in
/-- An end that a slot is attached to has no end beside it. -/
theorem not_beside_of_turn (hv : rule.Valid) {d : Heading} {s : Slot} {e f : PathEnd}
    (hturn : net.turns rule agents d s (.stop e)) : ¬ net.Beside rule agents e f := by
  intro hef
  have hslot : ∀ {p}, net.slotPort? agents s = some p → ¬ net.IsOutside agents p := by
    intro p hp hout
    exact hout s.side (List.mem_of_getElem? hp)
  rcases d with _ | _
  · obtain ⟨hp⟩ := hturn
    obtain _ | hpq := hef
    exact (hv.wellFormed.isFree_iff.1 (hv.port_free hp)).2 _ hpq
  · obtain ⟨hs, hpq, -⟩ | ⟨hs, hp⟩ | ⟨hs, -, -⟩ := hturn
    · obtain ⟨hpq', -, hout⟩ | _ | _ | ⟨hmem, -⟩ := hef
      · obtain rfl := h.joined_unique hpq.symm hpq'
        exact hslot hs hout
      · exact h.not_mem_interface_of_joined hpq.symm hmem
    · obtain _ | _ | ⟨-, hout⟩ := hef
      exact hslot hs hout
    · cases hef

omit hr in
/-- The ends of turns are points of the diagram. -/
theorem exists_endAt_of_turn (hv : rule.Valid) {d : Heading} {s : Slot} {e : PathEnd}
    (hturn : net.turns rule agents d s (.stop e)) (he : e ≠ .hidden) :
    ∃ x, net.EndAt rule agents labels x e := by
  rcases d with _ | _
  · obtain ⟨hp⟩ := hturn
    have hlive := (hv.wellFormed.isFree_iff.1 (hv.port_free hp)).1
    obtain ⟨a, k, hk⟩ := hv.wellFormed.port?_isSome_iff.1 hlive
    exact ⟨_, .fresh hk⟩
  · obtain ⟨-, hpq, hout⟩ | ⟨-, hp⟩ | _ := hturn
    · obtain ⟨a, k, hk⟩ := h.port?_isSome_iff.1 (h.isSome_of_joined hpq.symm)
      exact ⟨_, .host hk ((isOutside_iff_ne h hk).1 hout)⟩
    · obtain ⟨i, hi⟩ := hl.exists_label hp
      exact ⟨_, .free hi⟩
    · exact absurd rfl he

omit hr h hl in
/-- The way from a slot to an end is a chain. -/
private theorem chain_of_reaches (hv : rule.Valid) {d : Heading} {s : Slot} {e : PathEnd}
    (hreach : (net.turns rule agents).Reaches d s e) {x : Point Nat (AgentId ⊕ AgentId)}
    (hx : net.EndAt rule agents labels x e) :
    ReflTransGen ((net.diagram labels).Glued agents rule.template)
      (Point.inner agents (.place s)) x := by
  induction hreach with
  | stop hturn => exact .single (glued_of_stop hturn hx)
  | go hturn _ ih => exact .head (glued_of_go hv hturn) (ih hx)

/-- A chain that starts at an end stays there, comes to an end that is joined to it, or comes to a
slot that leads to it. -/
private theorem cases_of_chain (hv : rule.Valid) {x z : Point Nat (AgentId ⊕ AgentId)} {e : PathEnd}
    (hx : net.EndAt rule agents labels x e)
    (hchain : ReflTransGen ((net.diagram labels).Glued agents rule.template) x z) :
    z = x ∨
      (∃ f, net.EndAt rule agents labels z f ∧
        (net.Beside rule agents e f ∨ (net.turns rule agents).Path e f)) ∨
      ∃ d s, z = Point.inner agents (.place s) ∧ (net.turns rule agents).Reaches d s e := by
  have hregular := hr.regular h hv
  induction hchain with
  | refl => exact .inl rfl
  | @tail y z _ hyz ih =>
    obtain rfl | ⟨f, hy, hef⟩ | ⟨d, s, rfl, hreach⟩ := ih
    · obtain ⟨f, hz, hef⟩ | ⟨d, s, rfl, hturn⟩ := hr.glued_endAt h hl hx hyz
      · exact .inr (.inl ⟨f, hz, .inl hef⟩)
      · exact .inr (.inr ⟨d, s, rfl, .stop hturn⟩)
    · obtain ⟨g, hz, hfg⟩ | ⟨d, s, rfl, hturn⟩ := hr.glued_endAt h hl hy hyz
      · rcases hef with hef | hpath
        · -- an edge back
          obtain rfl := beside_unique h hv hfg hef.symm
          exact .inl (hz.point_unique h hv hl hx)
        · obtain ⟨d, s, hturn, -⟩ := hregular.exists_first hpath.symm
          exact absurd hfg (not_beside_of_turn h hv hturn)
      · -- back into the path, at the only slot that leads to its other end
        rcases hef with hef | hpath
        · exact absurd hef.symm (not_beside_of_turn h hv hturn)
        · obtain ⟨k, t, hturn', hreach⟩ := hregular.exists_first hpath.symm
          have hf : f ≠ .hidden := by
            rintro rfl
            cases hy
          obtain ⟨rfl, rfl⟩ := hr.single h hv f hf hturn hturn'
          exact .inr (.inr ⟨_, _, rfl, hreach⟩)
    · obtain ⟨k, hk⟩ := hr.glued_inner h hl hyz
      rcases d.eq_or_eq_flip k with rfl | rfl
      · -- one step further towards the end
        obtain ⟨f, hturn, hz⟩ | ⟨t, hturn, rfl⟩ := hk
        · obtain hturn' | ⟨hturn', -⟩ := hreach
          · cases hregular.unique hturn hturn'
            exact .inl (hz.point_unique h hv hl hx)
          · cases hregular.unique hturn hturn'
        · obtain hturn' | ⟨hturn', hrest⟩ := hreach
          · cases hregular.unique hturn hturn'
          · cases hregular.unique hturn hturn'
            exact .inr (.inr ⟨_, _, rfl, hrest⟩)
      · -- one step further away from the end
        have hback : (net.turns rule agents).Reaches d.flip.flip s e := by
          rwa [Heading.flip_flip]
        obtain ⟨f, hturn, hz⟩ | ⟨t, hturn, rfl⟩ := hk
        · exact .inr (.inl ⟨f, hz, .inr ⟨d.flip, s, hback, .stop hturn⟩⟩)
        · exact .inr (.inr ⟨d.flip, t, rfl, .go (hregular.symm hturn) hback⟩)

/-- **Rewriting joins the ends of paths.** Different ends are joined after the rewrite exactly when
they were beside each other before or belong to one path. -/
theorem joined_rewrite_iff (hv : rule.Valid) {x y : Point Nat (AgentId ⊕ AgentId)} {e f : PathEnd}
    (hx : net.EndAt rule agents labels x e) (hy : net.EndAt rule agents labels y f) :
    (net.rewritten rule agents labels).joined x y ↔
      x ≠ y ∧ (net.Beside rule agents e f ∨ (net.turns rule agents).Path e f) := by
  constructor
  · rintro ⟨-, hgone, hne, hchain⟩
    refine ⟨hne, ?_⟩
    obtain rfl | ⟨f', hy', hef⟩ | ⟨d, s, rfl, -⟩ := hr.cases_of_chain h hl hv hx hchain
    · exact absurd rfl hne
    · rwa [hy.end_unique hl hy']
    · exact absurd ⟨s.side, rfl⟩ hgone
  · rintro ⟨hne, hef | ⟨d, s, he, hf⟩⟩
    · exact ⟨hx.not_isGone, hy.not_isGone, hne, .single (glued_of_beside hx hy hef)⟩
    · have hback : ReflTransGen ((net.diagram labels).Glued agents rule.template) x
          (Point.inner agents (.place s)) := by
        have : Std.Symm ((net.diagram labels).Glued agents rule.template) := ⟨fun _ _ => .symm⟩
        exact ReflTransGen.stdSymm.symm _ _ (chain_of_reaches hv he hx)
      exact ⟨hx.not_isGone, hy.not_isGone, hne, hback.trans (chain_of_reaches hv hf hy)⟩

omit hr h hl in
/-- The points that are joined to something after the rewrite are ends. -/
theorem exists_endAt_of_joined {x y : Point Nat (AgentId ⊕ AgentId)}
    (hxy : (net.rewritten rule agents labels).joined x y) :
    ∃ e, net.EndAt rule agents labels x e := by
  have hgone := hxy.1
  have hport : ∀ {a : AgentId} {k : Nat} {p : PortId}, (net.portsOf a)[k]? = some p →
      ¬ (Point.port (.inl a) k : Point Nat (AgentId ⊕ AgentId)).IsGone agents →
      net.EndAt rule agents labels (.port (.inl a) k) (.host p) :=
    fun hp hgone => .host hp fun side heq => hgone ⟨side, heq⟩
  obtain ⟨z, ⟨u, w, huw, rfl, -⟩ | ⟨u, w, huw, rfl, -⟩⟩ := hxy.exists_head
  · obtain ⟨hp, -, -⟩ | ⟨hi, -⟩ | ⟨-, hp⟩ | ⟨hnone, -⟩ := huw
    · exact ⟨_, hport hp hgone⟩
    · exact ⟨_, .free hi⟩
    · exact ⟨_, hport hp hgone⟩
    · exact hnone.elim
  · obtain ⟨hp, -, -⟩ | ⟨-, -⟩ | ⟨-, hp⟩ | ⟨-, -⟩ := huw
    · exact ⟨_, .fresh hp⟩
    · exact absurd ⟨_, rfl⟩ hgone
    · exact ⟨_, .fresh hp⟩
    · exact absurd ⟨_, rfl⟩ hgone

/-- Places clash exactly when a path joins two places on the interface. -/
theorem hasClash_rewrite_iff (hv : rule.Valid) :
    (net.rewritten rule agents labels).HasClash ↔ net.HasFreeWire rule agents := by
  constructor
  · rintro ⟨i, j, -, hij⟩
    obtain ⟨e, he⟩ := exists_endAt_of_joined hij
    obtain ⟨f, hf⟩ := exists_endAt_of_joined (Diagram.symm _ hij)
    obtain ⟨-, hef⟩ := (hr.joined_rewrite_iff h hl hv he hf).1 hij
    obtain _ | _ | hp := he
    obtain _ | _ | hq := hf
    rcases hef with hbeside | hpath
    · cases hbeside
    · exact ⟨_, _, hpath⟩
  · rintro ⟨p, q, hpath⟩
    have hlabel : ∀ {p e}, (net.turns rule agents).Path (.free p) e → ∃ i, (p, i) ∈ labels := by
      intro p e hpath
      obtain ⟨d, s, hturn, -⟩ := (hr.regular h hv).exists_first hpath
      obtain ⟨x, hx⟩ := exists_endAt_of_turn h hl hv hturn (by simp)
      obtain _ | _ | hi := hx
      exact ⟨_, hi⟩
    obtain ⟨i, hi⟩ := hlabel hpath
    obtain ⟨j, hj⟩ := hlabel hpath.symm
    have hne : i ≠ j := by
      rintro rfl
      obtain rfl := hl.port_unique hi hj
      exact (hr.regular h hv).not_path_self (hr.single h hv _ (by simp)) hpath
    have hpoint : (Point.place i : Point Nat (AgentId ⊕ AgentId)) ≠ .place j := by
      rintro ⟨⟩
      exact hne rfl
    exact ⟨i, j, hne, (hr.joined_rewrite_iff h hl hv (.free hi) (.free hj)).2 ⟨hpoint, .inr hpath⟩⟩

end IsRedex

end Net

end InteractionNets
