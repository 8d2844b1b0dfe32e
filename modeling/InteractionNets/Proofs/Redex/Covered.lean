import InteractionNets.Proofs.Redex.Exchange

/-!
# Covered redexes

A redex is covered when every slot is attached to an agent of its own, a cover with two ports, the
other one on the interface, and when there are no more agents. In the rewritten diagram the first
port of a cover then stands for its slot: two of these points, or ports of the replacement net, are
joined exactly when they are in the template (`Net.Covers.joined_shown_iff`). The places on the
interface tell which cover is which. So if a covered redex can be rewritten with the sides in either
order to the same, then the template is isomorphic to its mirror image
(`Net.Covers.isomorphic_flip`).
-/

namespace InteractionNets

namespace Point

/-- Where a template shows when its slots are covered: a place is the first port of its cover. -/
def shown {V W : Type} (cover : Slot → V) : Point Slot W → Point Nat (V ⊕ W)
  | port b k => port (.inr b) k
  | place s => port (.inl (cover s)) 0

/-- A point of a template, whose places are some slots. -/
def Within {W : Type} (slots : List Slot) : Point Slot W → Prop
  | port _ _ => True
  | place s => s ∈ slots

end Point

namespace Rule

variable {rule : Rule} (hself : rule.left = rule.right)

include hself

theorem symbolOn_flip (side : Side) : rule.symbolOn side.flip = rule.symbolOn side := by
  cases side
  · exact hself.symm
  · exact hself

theorem flip_mem_slots_iff {s : Slot} : s.flip ∈ rule.slots ↔ s ∈ rule.slots := by
  rw [mem_slots_iff, mem_slots_iff, Slot.flip, symbolOn_flip hself]

end Rule

namespace Net

/-- All slots of a redex have covers, and all agents outside are covers. -/
structure Covers (net : Net) (rule : Rule) (agents : Side → AgentId) (cover : Slot → AgentId) :
    Prop where
  /-- The first port of a cover is joined to the port of its slot, the second on the interface. -/
  slot : ∀ {s}, s ∈ rule.slots → ∃ p q r, net.slotPort? agents s = some p ∧
    net.portsOf (cover s) = [q, r] ∧ net.Joined p q ∧ r ∈ net.interface
  ne : ∀ {s}, s ∈ rule.slots → ∀ side, cover s ≠ agents side
  exists_slot : ∀ {a}, (net.agent? a).isSome → (∀ side, a ≠ agents side) →
    ∃ s ∈ rule.slots, cover s = a

/-- The points of the template, as ends of the paths through a covered redex. -/
inductive ShownAt (net : Net) (rule : Rule) (cover : Slot → AgentId) :
    Point Slot AgentId → PathEnd → Prop
  | place {s : Slot} {q : PortId} : s ∈ rule.slots → (net.portsOf (cover s))[0]? = some q →
      ShownAt net rule cover (.place s) (.host q)
  | port {b : AgentId} {k : Nat} {p : PortId} : (rule.replacement.net.portsOf b)[k]? = some p →
      ShownAt net rule cover (.port b k) (.fresh p)

variable {net : Net} {rule : Rule} {agents : Side → AgentId} {cover : Slot → AgentId}
  {labels : List (PortId × Nat)}

theorem ShownAt.ne_hidden {x : Point Slot AgentId} {e : PathEnd}
    (hx : net.ShownAt rule cover x e) : e ≠ .hidden := by
  rintro rfl
  cases hx

/-- No end is beside itself. -/
theorem not_beside_self (h : net.WellFormed) (hv : rule.Valid) {e : PathEnd} :
    ¬ net.Beside rule agents e e := by
  rintro (⟨hpp, -, -⟩ | hpp)
  · exact h.joined_ne hpp rfl
  · exact hv.wellFormed.joined_ne hpp rfl

/-- The points of a template that are joined to something have slots of the rule as places. -/
theorem within_of_template_joined (hv : rule.Valid) {x y : Point Slot AgentId}
    (hxy : rule.template.joined x y) : x.Within rule.slots := by
  obtain _ | ⟨hs, -⟩ | _ | ⟨hs, -⟩ := hxy
  · trivial
  · exact hv.mem_slots hs
  · trivial
  · exact hv.mem_slots hs

namespace Covers

variable (hc : net.Covers rule agents cover)

include hc

theorem endAt {x : Point Slot AgentId} {e : PathEnd} (hx : net.ShownAt rule cover x e) :
    net.EndAt rule agents labels (x.shown cover) e := by
  obtain ⟨hs, hq⟩ | hp := hx
  · exact .host hq (hc.ne hs)
  · exact .fresh hp

theorem exists_front {s : Slot} (hs : s ∈ rule.slots) :
    ∃ q, (net.portsOf (cover s))[0]? = some q := by
  obtain ⟨_, q, _, _, hports, _⟩ := hc.slot hs
  exact ⟨q, by rw [hports]; rfl⟩

/-- The points of the template that show are there after the rewrite. -/
theorem isLive_shown {x : Point Slot AgentId} (hx : x.IsLive rule.template.symbol)
    (hw : x.Within rule.slots) :
    (x.shown cover).IsLive (net.rewritten rule agents labels).symbol := by
  cases x with
  | port b k => exact hx
  | place s =>
    obtain ⟨q, hq⟩ := hc.exists_front hw
    exact isSome_symbol_rewritten_inl.2 ⟨hc.ne hw, isSome_agent?_of_getElem? hq⟩

variable (h : net.WellFormed)

include h

/-- Outside, a slot leads to the first port of its cover. -/
theorem turns_outward {s : Slot} {q : PortId} (hs : s ∈ rule.slots)
    (hq : (net.portsOf (cover s))[0]? = some q) :
    net.turns rule agents .outward s (.stop (.host q)) := by
  obtain ⟨p, q', _, hp, hports, hpq, _⟩ := hc.slot hs
  have hq' : (net.portsOf (cover s))[0]? = some q' := by rw [hports]; rfl
  obtain rfl := Option.some.inj (hq.symm.trans hq')
  exact .peer hp hpq ((isOutside_iff_ne h hq).2 (hc.ne hs))

variable (hr : net.IsRedex rule agents) (hv : rule.Valid)

include hr hv

/-- A path from the first port of a cover leads into the replacement by the slot. -/
theorem path_front_iff {s : Slot} {q : PortId} {f : PathEnd} (hs : s ∈ rule.slots)
    (hq : (net.portsOf (cover s))[0]? = some q) :
    (net.turns rule agents).Path (.host q) f ↔ (net.turns rule agents).Reaches .inward s f := by
  have hturn := hc.turns_outward h hs hq
  constructor
  · intro hpath
    obtain ⟨d, t, hturn', hreach⟩ := (hr.regular h hv).exists_first hpath
    obtain ⟨rfl, rfl⟩ := hr.single h hv _ (by simp) hturn hturn'
    exact hreach
  · exact fun hreach => ⟨.inward, s, .stop hturn, hreach⟩

/-- The paths from a slot inward lead to what the slot is joined to in the template. -/
theorem reaches_inward_iff {s : Slot} {y : Point Slot AgentId} {f : PathEnd}
    (hy : net.ShownAt rule cover y f) :
    (net.turns rule agents).Reaches .inward s f ↔ rule.template.joined (.place s) y := by
  have hregular := hr.regular h hv
  constructor
  · rintro (⟨⟨hp⟩⟩ | @⟨_, _, t, _, hturn, hreach⟩)
    · obtain _ | hp' := hy
      exact .exposed hp hp'
    · -- the other slot of a wire leads to its own cover
      obtain _ | ht := hturn
      have hmem : t ∈ rule.slots := hv.mem_slots (hv.wire_symm ht)
      obtain ⟨q, hq⟩ := hc.exists_front hmem
      have hturn := hc.turns_outward h hmem hq
      obtain rfl := hregular.reaches_unique hreach (.stop hturn)
      obtain ⟨hs', hq'⟩ := hy
      obtain ⟨-, rfl⟩ := hr.single h hv _ (by simp) hturn (hc.turns_outward h hs' hq')
      exact .wired ht (hv.wire_symm ht)
  · intro hsy
    obtain _ | ⟨hp, hp'⟩ | _ | ⟨ht, -⟩ := hsy
    · obtain _ | hp'' := hy
      obtain rfl := Option.some.inj (hp'.symm.trans hp'')
      exact .stop (.port hp)
    · obtain ⟨ht', hq⟩ := hy
      exact .go (.wire ht) (.stop (hc.turns_outward h ht' hq))

/-- No path joins two ports of the replacement net. -/
theorem not_path_fresh {p q : PortId} : ¬ (net.turns rule agents).Path (.fresh p) (.fresh q) := by
  intro hpath
  obtain ⟨d, s, hturn, hreach⟩ := (hr.regular h hv).exists_first hpath
  cases d with
  | outward => cases hturn
  | inward =>
    obtain ⟨hp⟩ := hturn
    have hs : s ∈ rule.slots := hv.mem_slots hp
    obtain ⟨r, hr'⟩ := hc.exists_front hs
    cases (hr.regular h hv).reaches_unique hreach (.stop (hc.turns_outward h hs hr'))

/-- Ends are beside each other or on one path when they are joined in the template. -/
theorem beside_or_path_iff {x y : Point Slot AgentId} {e f : PathEnd}
    (hx : net.ShownAt rule cover x e) (hy : net.ShownAt rule cover y f) :
    net.Beside rule agents e f ∨ (net.turns rule agents).Path e f ↔ rule.template.joined x y := by
  have hplace : ∀ {s q z g}, s ∈ rule.slots → (net.portsOf (cover s))[0]? = some q →
      net.ShownAt rule cover z g →
      (net.Beside rule agents (.host q) g ∨ (net.turns rule agents).Path (.host q) g ↔
        rule.template.joined (.place s) z) := by
    intro s q z g hs hq hz
    rw [or_iff_right (IsRedex.not_beside_of_turn h hv (hc.turns_outward h hs hq)),
      hc.path_front_iff h hr hv hs hq, hc.reaches_inward_iff h hr hv hz]
  obtain ⟨hs, hq⟩ | hp := hx
  · exact hplace hs hq hy
  · obtain ⟨hs, hq⟩ | hp' := hy
    · rw [Diagram.joined_comm, ← hplace hs hq (.port hp)]
      exact ⟨Or.imp Beside.symm Turns.Path.symm, Or.imp Beside.symm Turns.Path.symm⟩
    · rw [or_iff_left (hc.not_path_fresh h hr hv), Rule.template, draw_joined_port_iff hp hp']
      refine ⟨?_, .fresh⟩
      rintro ⟨⟩
      assumption

variable (hl : net.IsLabelling labels)

include hl

/-- **A covered redex shows its template.** In the rewritten diagram, points of the template are
joined as in the template. -/
theorem joined_shown_iff {x y : Point Slot AgentId} (hx : x.Within rule.slots)
    (hy : y.Within rule.slots) :
    (net.rewritten rule agents labels).joined (x.shown cover) (y.shown cover) ↔
      rule.template.joined x y := by
  -- the points that are joined to something in either diagram are at ends
  have hshown : ∀ {z w}, z.Within rule.slots →
      (net.rewritten rule agents labels).joined (z.shown cover) w →
      ∃ e, net.ShownAt rule cover z e := by
    rintro (⟨b, k⟩ | s) w hz hzw
    · obtain ⟨e, he⟩ := IsRedex.exists_endAt_of_joined hzw
      obtain _ | hp := he
      exact ⟨_, .port hp⟩
    · obtain ⟨q, hq⟩ := hc.exists_front hz
      exact ⟨_, .place hz hq⟩
  have htemplate : ∀ {z w}, z.Within rule.slots → rule.template.joined z w →
      ∃ e, net.ShownAt rule cover z e := by
    rintro (⟨b, k⟩ | s) w hz hzw
    · obtain ⟨hp, -, -⟩ | _ | ⟨-, hp⟩ := hzw
      · exact ⟨_, .port hp⟩
      · exact ⟨_, .port hp⟩
    · obtain ⟨q, hq⟩ := hc.exists_front hz
      exact ⟨_, .place hz hq⟩
  constructor
  · intro hxy
    obtain ⟨e, he⟩ := hshown hx hxy
    obtain ⟨f, hf⟩ := hshown hy (Diagram.symm _ hxy)
    exact (hc.beside_or_path_iff h hr hv he hf).1
      ((hr.joined_rewrite_iff h hl hv (hc.endAt he) (hc.endAt hf)).1 hxy).2
  · intro hxy
    obtain ⟨e, he⟩ := htemplate hx hxy
    obtain ⟨f, hf⟩ := htemplate hy (Diagram.symm _ hxy)
    have hef := (hc.beside_or_path_iff h hr hv he hf).2 hxy
    refine (hr.joined_rewrite_iff h hl hv (hc.endAt he) (hc.endAt hf)).2 ⟨fun heq => ?_, hef⟩
    have hend : net.EndAt rule agents labels (y.shown cover) e := heq ▸ hc.endAt he
    obtain rfl := hend.end_unique hl (hc.endAt hf)
    rcases hef with hbeside | hpath
    · exact not_beside_self h hv hbeside
    · exact (hr.regular h hv).not_path_self (hr.single h hv _ he.ne_hidden) hpath

end Covers

/-! ### The other order of the sides -/

theorem IsRedex.comp_flip (hself : rule.left = rule.right) (hr : net.IsRedex rule agents) :
    net.IsRedex rule (agents ∘ Side.flip) := by
  refine ⟨fun side => ?_, Meets.samePair hr.joined (.inr rfl)⟩
  rw [← Rule.symbolOn_flip hself]
  exact hr.symbol side.flip

namespace Covers

variable (hc : net.Covers rule agents cover)

include hc

/-- With the sides in the other order, the covers are those of the opposite slots. -/
theorem comp_flip (hself : rule.left = rule.right) :
    net.Covers rule (agents ∘ Side.flip) (cover ∘ Slot.flip) where
  slot {s} hs := hc.slot (s := s.flip) ((Rule.flip_mem_slots_iff hself).2 hs)
  ne hs side := hc.ne ((Rule.flip_mem_slots_iff hself).2 hs) side.flip
  exists_slot {a} ha hne := by
    obtain ⟨s, hs, rfl⟩ := hc.exists_slot ha fun side => by
      rw [← side.flip_flip]
      exact hne side.flip
    exact ⟨s.flip, (Rule.flip_mem_slots_iff hself).2 hs, congrArg cover s.flip_flip⟩

/-- The ports of a covered redex are not on the interface. -/
theorem outside_of_mem_interface (h : net.WellFormed) (hr : net.IsRedex rule agents)
    (hv : rule.Valid) {p : PortId} (hp : p ∈ net.interface) : net.IsOutside agents p := by
  intro side hmem
  obtain ⟨k, hk⟩ := List.mem_iff_getElem?.1 hmem
  have hjoined : ∃ q, net.Joined p q := by
    cases k with
    | zero =>
      obtain ⟨p', q, hp', -, hpq⟩ := hr.exists_principal side
      obtain rfl := Option.some.inj (hk.symm.trans hp')
      exact ⟨q, hpq⟩
    | succ k =>
      have hs : (⟨side, k⟩ : Slot) ∈ rule.slots :=
        (hr.isSome_slotPort?_iff h hv).1 (Option.isSome_iff_exists.2 ⟨p, hk⟩)
      obtain ⟨p', q, _, hp', _, hpq, _⟩ := hc.slot hs
      obtain rfl := Option.some.inj (hk.symm.trans hp')
      exact ⟨q, hpq⟩
  obtain ⟨q, hpq⟩ := hjoined
  exact h.not_mem_interface_of_joined hpq hp

variable (h : net.WellFormed) (hr : net.IsRedex rule agents) (hv : rule.Valid)
  (hl : net.IsLabelling labels) (hself : rule.left = rule.right)
  {f g : AgentId ⊕ AgentId → AgentId ⊕ AgentId}
  (hfg : (net.rewritten rule agents labels).Embeds (net.rewritten rule (agents ∘ Side.flip) labels)
    f g)

include h hr hv hl hself hfg

/-- Covers are known by their places. -/
theorem map_cover {s : Slot} (hs : s ∈ rule.slots) : f (.inl (cover s)) = .inl (cover s) := by
  obtain ⟨_, q, r, _, hports, _, hmem⟩ := hc.slot hs
  have hback : (net.portsOf (cover s))[1]? = some r := by rw [hports]; rfl
  obtain ⟨i, hi⟩ := hl.exists_label hmem
  have hplace := hfg.joined ((hr.joined_place_iff h hv hl hi hback (hc.ne hs)).2 rfl)
  have heq := ((hr.comp_flip hself).joined_place_iff h hv hl hi hback
    fun side => hc.ne hs side.flip).1 hplace
  exact (Point.port.inj heq).1

/-- The agents of the replacement are mapped to such agents. -/
theorem exists_map_inr {b : AgentId} (hb : (rule.replacement.net.agent? b).isSome) :
    ∃ c, f (.inr b) = .inr c := by
  have hlive : ((net.rewritten rule agents labels).symbol (.inr b)).isSome :=
    isSome_symbol_rewritten_inr.2 hb
  have hmap := hfg.isSome_symbol hlive
  cases hfb : f (.inr b) with
  | inr c => exact ⟨c, rfl⟩
  | inl a =>
    rw [hfb] at hmap
    obtain ⟨hne, ha⟩ := isSome_symbol_rewritten_inl.1 hmap
    obtain ⟨s, hs, rfl⟩ := (hc.comp_flip hself).exists_slot ha hne
    have hs' : s.flip ∈ rule.slots := (Rule.flip_mem_slots_iff hself).2 hs
    have hcover : ((net.rewritten rule agents labels).symbol (.inl (cover s.flip))).isSome :=
      isSome_symbol_rewritten_inl.2 ⟨hc.ne hs', ha⟩
    have heq := hfg.injective hlive hcover (hfb.trans (hc.map_cover h hr hv hl hself hfg hs').symm)
    cases heq

end Covers

/-- **A covered redex tells the sides apart.** If both orders of the sides give the same, then the
template is isomorphic to its mirror image. -/
theorem Covers.isomorphic_flip (hc : net.Covers rule agents cover) (h : net.WellFormed)
    (hr : net.IsRedex rule agents) (hv : rule.Valid) (hl : net.IsLabelling labels)
    (hself : rule.left = rule.right)
    (hiso : (net.rewritten rule agents labels).Isomorphic
      (net.rewritten rule (agents ∘ Side.flip) labels)) :
    rule.template.Isomorphic rule.template.flip := by
  obtain ⟨f, f', hf⟩ := hiso
  have hr' := hr.comp_flip hself
  have hc' := hc.comp_flip hself
  have hback : (net.rewritten rule (agents ∘ Side.flip) labels).Embeds
      (net.rewritten rule ((agents ∘ Side.flip) ∘ Side.flip) labels) f' f := by
    rw [SamePair.comp_flip_flip]
    exact hf.backward
  have hinr : ∀ b, ∃ c, (rule.replacement.net.agent? b).isSome → f (.inr b) = .inr c := by
    intro b
    by_cases hb : (rule.replacement.net.agent? b).isSome
    · obtain ⟨c, hc⟩ := hc.exists_map_inr h hr hv hl hself hf.forward hb
      exact ⟨c, fun _ => hc⟩
    · exact ⟨b, fun hb' => absurd hb' hb⟩
  choose g hg using hinr
  have hlive : ∀ {b}, (rule.template.symbol b).isSome ↔ (rule.replacement.net.agent? b).isSome :=
    isSome_symbol_draw
  -- a point of the template is mapped to the one that shows at the opposite slots
  have hshown : ∀ {x : Point Slot AgentId}, x.IsLive rule.template.symbol → x.Within rule.slots →
      (x.shown cover).map f = (x.map g).flip.shown (cover ∘ Slot.flip) := by
    rintro (⟨b, k⟩ | s) hx hw
    · exact congrArg (Point.port · k) (hg b (hlive.1 hx))
    · rw [Point.map, Point.flip, Point.shown, Point.shown, Function.comp_apply, Slot.flip_flip]
      exact congrArg (Point.port · 0) (hc.map_cover h hr hv hl hself hf.forward hw)
  refine ⟨g, Diagram.exists_isIso (fun {b} hb => ?_) (fun {b c} hb hc heq => ?_) (fun {c} hc => ?_)
    fun {x y} hx hy => ?_⟩
  · have hsymbol := hf.forward.symbol (a := .inr b) hb
    rwa [hg b (hlive.1 hb)] at hsymbol
  · refine Sum.inr.inj (hf.forward.injective hb hc ?_)
    rw [hg b (hlive.1 hb), hg c (hlive.1 hc), heq]
  · obtain ⟨b, hb⟩ := hc'.exists_map_inr h hr' hv hl hself hback (hlive.1 hc)
    have hlive' := hf.backward.isSome_symbol (a := .inr c) hc
    rw [hb] at hlive'
    have hinverse := hf.backward.inverse (a := .inr c) hc
    rw [hb, hg b (hlive.1 hlive')] at hinverse
    exact ⟨b, hlive', Sum.inr.inj hinverse⟩
  · have hwithin : ∀ {z : Point Slot AgentId},
        (z.map g).flip.Within rule.slots ↔ z.Within rule.slots := by
      rintro (⟨b, k⟩ | s)
      · exact .rfl
      · exact Rule.flip_mem_slots_iff hself
    show _ ↔ rule.template.joined (x.map g).flip (y.map g).flip
    by_cases hw : x.Within rule.slots ∧ y.Within rule.slots
    · obtain ⟨hxw, hyw⟩ := hw
      rw [← hc.joined_shown_iff h hr hv hl hxw hyw,
        ← hc'.joined_shown_iff h hr' hv hl (hwithin.2 hxw) (hwithin.2 hyw), ← hshown hx hxw,
        ← hshown hy hyw]
      exact hf.joined_iff (hc.isLive_shown hx hxw) (hc.isLive_shown hy hyw)
    · refine iff_of_false (fun hxy => hw ?_) fun hxy => hw ?_
      · exact ⟨within_of_template_joined hv hxy,
          within_of_template_joined hv (Diagram.symm _ hxy)⟩
      · exact ⟨hwithin.1 (within_of_template_joined hv hxy),
          hwithin.1 (within_of_template_joined hv (Diagram.symm _ hxy))⟩

end Net

end InteractionNets
