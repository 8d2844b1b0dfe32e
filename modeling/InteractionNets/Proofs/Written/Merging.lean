import InteractionNets.Proofs.Reduction.Confluence
import InteractionNets.Proofs.Written.Cells

/-!
# Names that an interaction merges

The cells of a rule have names of their own. Put in the place of a redex, the slots of the pattern
get the names that the ports of the redex had for them, and the connections inside get names that
were not used. When names are merged so (`Net.Merges`), two ports have one name afterwards exactly
when the interaction joins them (`Net.Merges.joined_rewritten_iff`).
-/

namespace InteractionNets

open Net Relation

/-! ### The cells of a rule -/

namespace Rule

variable {rule : Rule}

/-- The name of a port of the replacement net: the slot that is reconnected to it, or else the
smaller one of the ports that are joined there. -/
def wireAt (rule : Rule) (p : PortId) : Slot ⊕ PortId :=
  match rule.slots.find? fun s => rule.replacement.splice? s = some (.port p) with
  | some s => .inl s
  | none => .inr (((rule.replacement.net.peer? p).map (min p)).getD p)

/-- What a rule puts in, written down. -/
def cells (rule : Rule) : List (Cell (Slot ⊕ PortId)) :=
  rule.replacement.net.agentList.map (.of rule.wireAt)

namespace Valid

variable (hv : rule.Valid)

include hv

theorem wireAt_eq_inl_iff {p : PortId} {s : Slot} :
    rule.wireAt p = .inl s ↔ rule.replacement.splice? s = some (.port p) := by
  rw [wireAt]
  constructor
  · intro heq
    split at heq
    · rename_i s' hs'
      obtain rfl := Sum.inl.inj heq
      simpa using List.find?_some hs'
    · cases heq
  · intro hs
    have hslot : s ∈ rule.slots := hv.mem_slots hs
    split
    · rename_i s' hs'
      have hs'' : rule.replacement.splice? s' = some (.port p) := by simpa using List.find?_some hs'
      rw [hv.port_injective hs'' hs]
    · rename_i hnone
      exact absurd hs (by simpa using List.find?_eq_none.1 hnone s hslot)

/-- A port that no slot is reconnected to is called by itself or by the port it is joined to. -/
private theorem eq_or_joined_of_wireAt {p q : PortId} (hq : rule.wireAt p = .inr q) :
    q = p ∨ rule.replacement.net.Joined p q := by
  rw [wireAt] at hq
  split at hq
  · cases hq
  · obtain rfl := Sum.inr.inj hq
    cases hpeer : rule.replacement.net.peer? p with
    | none => exact .inl rfl
    | some r =>
      rw [Option.map_some, Option.getD_some]
      rcases Nat.le_total p r with hle | hle
      · exact .inl (Nat.min_eq_left hle)
      · rw [Nat.min_eq_right hle]
        exact .inr (hv.wellFormed.peer?_eq_some_iff.1 hpeer)

private theorem wireAt_of_joined {p q : PortId} (hpq : rule.replacement.net.Joined p q) :
    rule.wireAt p = .inr (min p q) := by
  rw [wireAt]
  split
  · rename_i s hs
    have hs' : rule.replacement.splice? s = some (.port p) := by simpa using List.find?_some hs
    exact absurd hpq ((hv.wellFormed.isFree_iff.1 (hv.port_free hs')).2 q)
  · rw [hv.wellFormed.peer?_eq_some_iff.2 hpq]
    rfl

/-- The names of the ports of the replacement net are as they should be. -/
theorem isNaming_wireAt : rule.replacement.net.IsNaming rule.wireAt := by
  intro p q _ _
  constructor
  · intro heq
    cases hp : rule.wireAt p with
    | inl s =>
      have hs := (hv.wireAt_eq_inl_iff).1 hp
      have ht := (hv.wireAt_eq_inl_iff).1 (heq ▸ hp)
      rw [hs] at ht
      exact .inl (Splice.port.inj (Option.some.inj ht))
    | inr r =>
      have hq : rule.wireAt q = .inr r := heq ▸ hp
      rcases hv.eq_or_joined_of_wireAt hp with rfl | hpr
      · rcases hv.eq_or_joined_of_wireAt hq with rfl | hqr
        · exact .inl rfl
        · exact .inr hqr.symm
      · rcases hv.eq_or_joined_of_wireAt hq with rfl | hqr
        · exact .inr hpr
        · exact .inl (hv.wellFormed.joined_unique hpr.symm hqr.symm)
  · rintro (rfl | hpq)
    · rfl
    · rw [hv.wireAt_of_joined hpq, hv.wireAt_of_joined hpq.symm, Nat.min_comm]

end Valid

end Rule

namespace Net

variable {N : Type} {net after : Net} {rules : RuleSet} {rule : Rule} {roles : Side → AgentId}
  {labels : List (PortId × Nat)} {old : PortId → N} {new : Slot ⊕ PortId → N}

/-! ### Names after an interaction -/

/-- Ports that are joined, or that are in slots with a wire in between. -/
inductive Bridged (net : Net) (rule : Rule) (roles : Side → AgentId) : PortId → PortId → Prop
  | joined {p q} : net.Joined p q → Bridged net rule roles p q
  | wired {s t p q} : rule.replacement.splice? s = some (.wire t) →
      net.slotPort? roles s = some p → net.slotPort? roles t = some q → Bridged net rule roles p q

/-- Names for the ports of a net with a redex and of the replacement net, once this is put in: old
ports have one name exactly when there are links between them, a port that a slot is reconnected to
has the name of the slot's port, and the other names are not used by old ports. -/
structure Merges (net : Net) (rule : Rule) (roles : Side → AgentId) (old : PortId → N)
    (new : Slot ⊕ PortId → N) : Prop where
  eq_of_bridged : ∀ {p q}, net.Bridged rule roles p q → old p = old q
  bridged_of_eq : ∀ {p q}, (net.port? p).isSome → (net.port? q).isSome → old p = old q →
    ReflTransGen (net.Bridged rule roles) p q
  slot : ∀ {s p}, net.slotPort? roles s = some p → new (.inl s) = old p
  fresh_injective : ∀ {p q}, new (.inr p) = new (.inr q) → p = q
  fresh_ne : ∀ {p q}, (net.port? p).isSome → old p ≠ new (.inr q)

/-- The names of the points of a diagram that is rewritten. -/
inductive NamedAt (net : Net) (rule : Rule) (labels : List (PortId × Nat)) (old : PortId → N)
    (new : Slot ⊕ PortId → N) : Point Nat (AgentId ⊕ AgentId) → N → Prop
  | host {a : AgentId} {k : Nat} {p : PortId} : (net.portsOf a)[k]? = some p →
      NamedAt net rule labels old new (.port (.inl a) k) (old p)
  | fresh {b : AgentId} {k : Nat} {p : PortId} : (rule.replacement.net.portsOf b)[k]? = some p →
      NamedAt net rule labels old new (.port (.inr b) k) (new (rule.wireAt p))
  | place {i : Nat} {p : PortId} : (p, i) ∈ labels →
      NamedAt net rule labels old new (.place i) (old p)

namespace NamedAt

variable {x y : Point Nat (AgentId ⊕ AgentId)} {m n : N}

theorem unique (hl : net.IsLabelling labels) (hm : net.NamedAt rule labels old new x m)
    (hn : net.NamedAt rule labels old new x n) : m = n := by
  rcases hm with hp | hp | hp <;> rcases hn with hq | hq | hq
  · rw [Option.some.inj (hp.symm.trans hq)]
  · rw [Option.some.inj (hp.symm.trans hq)]
  · rw [hl.port_unique hp hq]

end NamedAt

section Merges

variable (hmerges : net.Merges rule roles old new) (hr : net.IsRedex rule roles)
  (h : net.WellFormed) (hv : rule.Valid)

include hmerges hr h hv

/-- The ends of an edge have one name. -/
theorem Merges.exists_named {x y : Point Nat (AgentId ⊕ AgentId)}
    (hxy : (net.diagram labels).Glued roles rule.template x y) :
    ∃ n, net.NamedAt rule labels old new x n ∧ net.NamedAt rule labels old new y n := by
  have hslot : ∀ {s splice}, rule.replacement.splice? s = some splice →
      ∃ p, net.slotPort? roles s = some p := by
    intro s splice hs
    refine Option.isSome_iff_exists.1 ((hr.isSome_slotPort?_iff h hv).2 ?_)
    exact hv.mem_slots hs
  -- an edge is of the net outside of the redex, or of the template inside of it
  obtain ⟨u, v, huv, rfl, rfl⟩ | ⟨u, v, huv, rfl, rfl⟩ := hxy
  · obtain ⟨hp, hq, hpq⟩ | ⟨hi, hp⟩ | ⟨hi, hp⟩ | ⟨hnone, -⟩ := huv
    · refine ⟨_, .host hp, ?_⟩
      rw [hmerges.eq_of_bridged (.joined hpq)]
      exact .host hq
    · exact ⟨_, .place hi, .host hp⟩
    · exact ⟨_, .host hp, .place hi⟩
    · exact hnone.elim
  · have hexposed : ∀ {s b k q}, rule.replacement.splice? s = some (.port q) →
        (rule.replacement.net.portsOf b)[k]? = some q →
        ∃ n, net.NamedAt rule labels old new (.inner roles (.place s)) n ∧
          net.NamedAt rule labels old new (.port (.inr b) k) n := by
      intro s b k q hs hq
      obtain ⟨p, hp⟩ := hslot hs
      refine ⟨_, .host hp, ?_⟩
      rw [← hmerges.slot hp, ← hv.wireAt_eq_inl_iff.2 hs]
      exact .fresh hq
    obtain ⟨hp, hq, hpq⟩ | ⟨hs, hp⟩ | ⟨hs, hp⟩ | ⟨hst, -⟩ := huv
    · refine ⟨_, .fresh hp, ?_⟩
      rw [IsNaming.eq_of_joined hv.isNaming_wireAt hv.wellFormed hpq]
      exact .fresh hq
    · exact hexposed hs hp
    · obtain ⟨n, hn, hn'⟩ := hexposed hs hp
      exact ⟨n, hn', hn⟩
    · obtain ⟨p, hp⟩ := hslot hst
      obtain ⟨q, hq⟩ := hslot (hv.wire_symm hst)
      refine ⟨_, .host hp, ?_⟩
      rw [hmerges.eq_of_bridged (.wired hst hp hq)]
      exact .host hq

omit hmerges hr in
/-- Ports with links between them are joined by a chain. -/
theorem chain_of_bridged {p q : PortId} (hpq : ReflTransGen (net.Bridged rule roles) p q)
    {a b : AgentId} {j k : Nat} (hp : (net.portsOf a)[j]? = some p)
    (hq : (net.portsOf b)[k]? = some q) :
    ReflTransGen ((net.diagram labels).Glued roles rule.template) (.port (.inl a) j)
      (.port (.inl b) k) := by
  induction hpq generalizing b k with
  | refl =>
    obtain ⟨rfl, rfl⟩ := h.port_unique hp hq
    exact .refl
  | @tail r q _ hlast ih =>
    obtain hjoined | ⟨hst, hs, ht⟩ := hlast
    · obtain ⟨c, l, hr⟩ := h.port?_isSome_iff.1 (h.isSome_of_joined hjoined)
      exact (ih hr).tail (.inl ⟨.port c l, .port b k, .joined hr hq hjoined, rfl, rfl⟩)
    · obtain ⟨rfl, rfl⟩ := h.port_unique hq ht
      exact (ih hs).tail (.inr ⟨_, _, .wired hst (hv.wire_symm hst), rfl, rfl⟩)

variable (hl : net.IsLabelling labels)

include hl

/-- A point has the name of an old port that a chain leads to, or a fresh one. -/
theorem Merges.cases_of_named {x : Point Nat (AgentId ⊕ AgentId)} {n : N}
    (hx : net.NamedAt rule labels old new x n) :
    (∃ a k p, (net.portsOf a)[k]? = some p ∧ n = old p ∧
      ReflTransGen ((net.diagram labels).Glued roles rule.template) x (.port (.inl a) k)) ∨
    ∃ b k p q, x = .port (.inr b) k ∧ (rule.replacement.net.portsOf b)[k]? = some p ∧
      rule.wireAt p = .inr q ∧ n = new (.inr q) := by
  obtain @⟨a, k, p, hp⟩ | @⟨b, k, p, hp⟩ | @⟨i, p, hi⟩ := hx
  · exact .inl ⟨a, k, p, hp, rfl, .refl⟩
  · cases hwire : rule.wireAt p with
    | inr q => exact .inr ⟨b, k, p, q, rfl, hp, hwire, rfl⟩
    | inl s =>
      have hs := hv.wireAt_eq_inl_iff.1 hwire
      obtain ⟨q, hq⟩ := Option.isSome_iff_exists.1
        ((hr.isSome_slotPort?_iff h hv).2 (hv.mem_slots hs))
      exact .inl ⟨_, _, q, hq, hmerges.slot hq,
        .single (.inr ⟨_, _, .exposed' hs hp, rfl, rfl⟩)⟩
  · obtain ⟨a, k, hk⟩ := h.port?_isSome_iff.1 (h.isSome_of_mem_interface (hl.mem_interface hi))
    exact .inl ⟨a, k, p, hk, rfl, .single (.inl ⟨_, _, .exposed hi hk, rfl, rfl⟩)⟩

/-- A chain leads from a point to every other one of the same name. -/
theorem Merges.chain_of_named {x y : Point Nat (AgentId ⊕ AgentId)} {n : N}
    (hx : net.NamedAt rule labels old new x n) (hy : net.NamedAt rule labels old new y n) :
    ReflTransGen ((net.diagram labels).Glued roles rule.template) x y := by
  have : Std.Symm ((net.diagram labels).Glued roles rule.template) := ⟨fun _ _ => .symm⟩
  obtain ⟨a, j, p, hp, rfl, hxp⟩ | ⟨a, j, p, p', rfl, hp, hwire, rfl⟩ :=
    hmerges.cases_of_named hr h hv hl hx
  · obtain ⟨b, k, q, hq, heq, hyq⟩ | ⟨b, k, q, q', rfl, hq, hwire, heq⟩ :=
      hmerges.cases_of_named hr h hv hl hy
    · have hchain := hmerges.bridged_of_eq (h.port?_isSome_iff.2 ⟨a, j, hp⟩)
        (h.port?_isSome_iff.2 ⟨b, k, hq⟩) heq
      exact hxp.trans ((chain_of_bridged h hv hchain hp hq).trans
        (ReflTransGen.stdSymm.symm _ _ hyq))
    · exact absurd heq (hmerges.fresh_ne (h.port?_isSome_iff.2 ⟨a, j, hp⟩))
  · obtain ⟨b, k, q, hq, heq, -⟩ | ⟨b, k, q, q', rfl, hq, hwire', heq⟩ :=
      hmerges.cases_of_named hr h hv hl hy
    · exact absurd heq.symm (hmerges.fresh_ne (h.port?_isSome_iff.2 ⟨b, k, hq⟩))
    · obtain rfl := hmerges.fresh_injective heq
      rcases (hv.isNaming_wireAt (hv.wellFormed.port?_isSome_iff.2 ⟨a, j, hp⟩)
        (hv.wellFormed.port?_isSome_iff.2 ⟨b, k, hq⟩)).1 (hwire.trans hwire'.symm) with rfl | hpq
      · obtain ⟨rfl, rfl⟩ := hv.wellFormed.port_unique hp hq
        exact .refl
      · exact .single (.inr ⟨.port a j, .port b k, .joined hp hq hpq, rfl, rfl⟩)

/-- **Different points are joined after the rewrite exactly when they have the same name.** -/
theorem Merges.joined_rewritten_iff {x y : Point Nat (AgentId ⊕ AgentId)} {m n : N}
    (hx : net.NamedAt rule labels old new x m) (hy : net.NamedAt rule labels old new y n)
    (hgone : ¬ x.IsGone roles) (hgone' : ¬ y.IsGone roles) :
    (net.rewritten rule roles labels).joined x y ↔ x ≠ y ∧ m = n := by
  constructor
  · rintro ⟨-, -, hne, hchain⟩
    refine ⟨hne, ?_⟩
    suffices hm : net.NamedAt rule labels old new y m from hm.unique hl hy
    clear hgone' hne hy
    induction hchain with
    | refl => exact hx
    | tail _ hlast ih =>
      obtain ⟨m', hm, hm'⟩ := hmerges.exists_named hr h hv hlast
      rwa [← hm.unique hl ih]
  · rintro ⟨hne, rfl⟩
    exact ⟨hgone, hgone', hne, hmerges.chain_of_named hr h hv hl hx hy⟩

end Merges

end Net

end InteractionNets
