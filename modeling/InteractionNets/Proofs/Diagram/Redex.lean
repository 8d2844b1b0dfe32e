import InteractionNets.Proofs.Rule.Symmetric

/-!
# Redexes of diagrams

A redex of a diagram is two agents that meet, with the symbols of a rule. Isomorphic diagrams have
the same redexes, and a rewrite keeps those of other agents. The agents of a redex may play the
sides of the pattern in two ways if they have one symbol. With the rules of a lawful set it makes no
difference to the diagram afterwards which of them they choose
(`Diagram.IsRedex.exists_isIso_of_samePair`).
-/

namespace InteractionNets

/-- Two ways for the same agents to play the sides of a pattern. -/
def SamePair {V : Type} (agents agents' : Side → V) : Prop :=
  agents' = agents ∨ agents' = agents ∘ Side.flip

namespace SamePair

variable {V : Type} {agents agents' agents'' : Side → V}

theorem refl (agents : Side → V) : SamePair agents agents :=
  .inl rfl

theorem comp_flip_flip (agents : Side → V) : (agents ∘ Side.flip) ∘ Side.flip = agents :=
  funext fun side => congrArg agents side.flip_flip

theorem symm (h : SamePair agents agents') : SamePair agents' agents := by
  rcases h with rfl | rfl
  · exact .refl _
  · exact .inr (comp_flip_flip agents).symm

theorem trans (h : SamePair agents agents') (h' : SamePair agents' agents'') :
    SamePair agents agents'' := by
  rcases h with rfl | rfl
  · exact h'
  · rcases h' with rfl | rfl
    · exact .inr rfl
    · exact .inl (comp_flip_flip agents)

theorem comp {W : Type} (h : SamePair agents agents') (f : V → W) :
    SamePair (f ∘ agents) (f ∘ agents') := by
  rcases h with rfl | rfl
  · exact .refl _
  · exact .inr rfl

/-- Whoever plays a side in one way plays a side in the other. -/
theorem exists_side (h : SamePair agents agents') (side : Side) :
    ∃ side', agents' side = agents side' := by
  rcases h with rfl | rfl
  · exact ⟨side, rfl⟩
  · exact ⟨side.flip, rfl⟩

/-- Pairs without common agents have none however they play the sides. -/
theorem apart {roles roles' : Side → V} (h : SamePair agents roles) (h' : SamePair agents' roles')
    (hapart : ∀ side side', agents side ≠ agents' side') :
    ∀ side side', roles side ≠ roles' side' := by
  intro side side' heq
  obtain ⟨side₀, hside₀⟩ := h.exists_side side
  obtain ⟨side₁, hside₁⟩ := h'.exists_side side'
  refine hapart side₀ side₁ ?_
  rw [← hside₀, heq, hside₁]

end SamePair

namespace Diagram

variable {ι V W : Type} {D : Diagram ι V} {E : Diagram ι W} {T : Diagram Slot W} {f : V → W}
  {g : W → V} {rule : Rule} {agents agents' : Side → V}

/-- The principal ports of two agents are joined. -/
def Meets (D : Diagram ι V) (agents : Side → V) : Prop :=
  D.joined (.port (agents .left) 0) (.port (agents .right) 0)

/-- Two agents with the symbols of a rule's pattern meet. -/
structure IsRedex (D : Diagram ι V) (rule : Rule) (agents : Side → V) : Prop where
  symbol : ∀ side, D.symbol (agents side) = some (rule.symbolOn side)
  meets : D.Meets agents

theorem Meets.samePair (h : D.Meets agents) (hsame : SamePair agents agents') :
    D.Meets agents' := by
  rcases hsame with rfl | rfl
  · exact h
  · exact D.symm h

theorem Meets.isSome_symbol (h : D.Meets agents) (side : Side) :
    (D.symbol (agents side)).isSome := by
  cases side with
  | left => exact D.live h
  | right => exact D.live (D.symm h)

theorem Embeds.meets (h : D.Embeds E f g) (hm : D.Meets agents) : E.Meets (f ∘ agents) :=
  h.joined hm

theorem Embeds.isRedex (h : D.Embeds E f g) (hr : D.IsRedex rule agents) :
    E.IsRedex rule (f ∘ agents) := by
  refine ⟨fun side => ?_, h.meets hr.meets⟩
  rw [Function.comp_apply, h.symbol (hr.meets.isSome_symbol side), hr.symbol side]

/-- Isomorphic diagrams have the same redexes. -/
theorem IsIso.isRedex_iff (h : D.IsIso E f g) (hm : D.Meets agents) :
    D.IsRedex rule agents ↔ E.IsRedex rule (f ∘ agents) := by
  refine ⟨h.forward.isRedex, fun hr => ⟨fun side => ?_, hm⟩⟩
  rw [← h.forward.symbol (hm.isSome_symbol side)]
  exact hr.symbol side

section Rewrite

variable (hdisjoint : ∀ side side', agents side ≠ agents' side')

include hdisjoint

theorem symbol_rewrite_of_disjoint (T : Diagram Slot W) (side : Side) :
    (D.rewrite agents T).symbol (.inl (agents' side)) = D.symbol (agents' side) :=
  symbol_rewrite_inl fun side' heq => hdisjoint side' side heq.symm

/-- Other agents that meet still meet after a rewrite. -/
theorem Meets.rewrite (hm : D.Meets agents') (hne : agents' .left ≠ agents' .right)
    (T : Diagram Slot W) : (D.rewrite agents T).Meets (.inl ∘ agents') := by
  have hgone : ∀ side, ¬ (Point.port (.inl (agents' side)) 0 : Point ι (V ⊕ W)).IsGone agents := by
    rintro side ⟨side', heq⟩
    exact hdisjoint side' side heq.symm
  refine ⟨hgone .left, hgone .right, fun heq => hne ?_, .single (.inl ⟨_, _, hm, rfl, rfl⟩)⟩
  exact Sum.inl.inj (Point.port.inj heq).1

/-- A rewrite keeps the redexes of other agents, and makes no new ones of them. -/
theorem isRedex_rewrite_iff (hm : D.Meets agents') (hne : agents' .left ≠ agents' .right)
    (T : Diagram Slot W) :
    (D.rewrite agents T).IsRedex rule (.inl ∘ agents') ↔ D.IsRedex rule agents' := by
  constructor
  · intro hr
    refine ⟨fun side => ?_, hm⟩
    rw [← symbol_rewrite_of_disjoint hdisjoint T side]
    exact hr.symbol side
  · intro hr
    refine ⟨fun side => ?_, hm.rewrite hdisjoint hne T⟩
    rw [Function.comp_apply, symbol_rewrite_of_disjoint hdisjoint T side, hr.symbol side]

end Rewrite

end Diagram

/-! ### Redexes and rules -/

theorem RuleKey.of_symbolOn (rule : Rule) (side : Side) :
    RuleKey.of (rule.symbolOn side) (rule.symbolOn side.flip) = rule.key := by
  cases side with
  | left => rfl
  | right => exact RuleKey.of_comm _ _

namespace Diagram

variable {ι V : Type} {D : Diagram ι V} {rules : RuleSet} {rule rule' : Rule}
  {agents agents' : Side → V}

/-- Two agents have one rule at most in a set. -/
theorem IsRedex.rule_unique (hrule : rules.Contains rule) (hrule' : rules.Contains rule')
    (hr : D.IsRedex rule agents) (hr' : D.IsRedex rule' agents') (hsame : SamePair agents agents') :
    rule = rule' := by
  have hkey : rule.key = rule'.key := by
    rcases hsame with rfl | rfl
    · have hsymbol : ∀ side, rule.symbolOn side = rule'.symbolOn side := fun side =>
        Option.some.inj ((hr.symbol side).symm.trans (hr'.symbol side))
      rw [← RuleKey.of_symbolOn rule .left, ← RuleKey.of_symbolOn rule' .left, hsymbol, hsymbol]
    · have hsymbol : ∀ side, rule.symbolOn side.flip = rule'.symbolOn side := fun side =>
        Option.some.inj ((hr.symbol side.flip).symm.trans (hr'.symbol side))
      rw [← RuleKey.of_symbolOn rule .right, ← RuleKey.of_symbolOn rule' .left, ← hsymbol,
        ← hsymbol]
      rfl
  rw [RuleSet.Contains, hkey, hrule'] at hrule
  exact (Option.some.inj hrule).symm

/-- Which of its agents plays the left side makes no difference to the rewrite of a redex. -/
theorem IsRedex.exists_isIso_of_samePair (hrules : rules.Lawful) (hrule : rules.Contains rule)
    (hr : D.IsRedex rule agents) (hr' : D.IsRedex rule agents') (hsame : SamePair agents agents') :
    ∃ p q, (D.rewrite agents rule.template).IsIso (D.rewrite agents' rule.template)
      (Sum.map id p) (Sum.map id q) := by
  have hlive := hr.meets.isSome_symbol
  rcases hsame with rfl | rfl
  · exact ⟨id, id, IsIso.rewrite ⟨.refl D, .refl D⟩ ⟨.refl _, .refl _⟩ hlive fun _ => rfl⟩
  · have hself : rule.isSelfInteraction := by
      have hsymbol : rule.right = rule.left :=
        Option.some.inj ((hr.symbol .right).symm.trans (hr'.symbol .left))
      rw [Rule.isSelfInteraction, hsymbol]
      exact beq_self_eq_true _
    exact exists_isIso_comp_flip hlive <| Rule.isomorphic_flip_of_isSymmetric (hrules.valid hrule)
      (hrules.isSymmetric hrule hself)

end Diagram

end InteractionNets
