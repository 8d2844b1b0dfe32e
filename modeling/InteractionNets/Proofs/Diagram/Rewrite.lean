import InteractionNets.Proofs.Diagram.Basic
import InteractionNets.Rule.Slot

/-!
# Rewriting diagrams

A redex of a diagram is rewritten by gluing in a template, a diagram whose places are the slots of
the redex, and by contracting the ports of the two agents of the redex. So the ends of a path
through slots are joined to each other.

Rewriting keeps isomorphisms (`Diagram.IsIso.rewrite`). Two redexes without common agents can be
rewritten in either order (`Diagram.rewrite_rewrite`), because contractions can; and places that
clash after one of the rewrites still clash after both.
-/

namespace InteractionNets

open Relation

variable {ι V V' W W' X : Type}

namespace Point

/-- Where the points of a template are glued in: a place is the port of its slot. -/
def inner (agents : Side → V) : Point Slot W → Point ι (V ⊕ W)
  | port a k => port (.inr a) k
  | place s => port (.inl (agents s.side)) (s.index + 1)

/-- The ports of the two agents of a redex. -/
def IsGone (agents : Side → V) : Point ι (V ⊕ W) → Prop
  | port (.inl a) _ => ∃ side, a = agents side
  | _ => False

end Point

namespace Diagram

/-- The edges of a diagram and those of a template that is glued in. -/
def Glued (D : Diagram ι V) (agents : Side → V) (T : Diagram Slot W) (x y : Point ι (V ⊕ W)) :
    Prop :=
  Relation.Map D.joined (Point.map .inl) (Point.map .inl) x y ∨
    Relation.Map T.joined (Point.inner agents) (Point.inner agents) x y

variable {D : Diagram ι V} {E : Diagram ι V'} {T : Diagram Slot W} {U : Diagram Slot W'}
  {agents : Side → V}

theorem Glued.symm {x y : Point ι (V ⊕ W)} (h : D.Glued agents T x y) : D.Glued agents T y x := by
  obtain ⟨a, b, hab, rfl, rfl⟩ | ⟨a, b, hab, rfl, rfl⟩ := h
  · exact .inl ⟨b, a, D.symm hab, rfl, rfl⟩
  · exact .inr ⟨b, a, T.symm hab, rfl, rfl⟩

open scoped Classical in
/-- Replace two agents by a template. -/
noncomputable def rewrite (D : Diagram ι V) (agents : Side → V) (T : Diagram Slot W) :
    Diagram ι (V ⊕ W) where
  symbol
    | .inl a => if ∃ side, a = agents side then none else D.symbol a
    | .inr b => T.symbol b
  joined := Contract (D.Glued agents T) (Point.IsGone agents)
  symm := Contract.symm Glued.symm
  live {x y} h := by
    obtain ⟨z, hz⟩ := h.exists_head
    have hx := h.1
    obtain ⟨a, b, hab, rfl, -⟩ | ⟨a, b, hab, rfl, -⟩ := hz
    · have hlive := D.live hab
      cases a with
      | place i => trivial
      | port a k =>
        have ha : ¬ ∃ side, a = agents side := hx
        show Option.isSome (if ∃ side, a = agents side then none else D.symbol a)
        rwa [if_neg ha]
    · have hlive := T.live hab
      cases a with
      | place s => exact absurd ⟨s.side, rfl⟩ hx
      | port a k => exact hlive

theorem symbol_rewrite_inr (b : W) : (D.rewrite agents T).symbol (.inr b) = T.symbol b := rfl

theorem symbol_rewrite_inl {a : V} (ha : ∀ side, a ≠ agents side) :
    (D.rewrite agents T).symbol (.inl a) = D.symbol a :=
  if_neg fun ⟨side, heq⟩ => ha side heq

theorem symbol_rewrite_agents (side : Side) :
    (D.rewrite agents T).symbol (.inl (agents side)) = none :=
  if_pos ⟨side, rfl⟩

theorem isSome_symbol_rewrite_inl {a : V} :
    ((D.rewrite agents T).symbol (.inl a)).isSome ↔
      (∀ side, a ≠ agents side) ∧ (D.symbol a).isSome := by
  constructor
  · intro hlive
    have ha : ∀ side, a ≠ agents side := by
      rintro side rfl
      rw [symbol_rewrite_agents] at hlive
      cases hlive
    rw [symbol_rewrite_inl ha] at hlive
    exact ⟨ha, hlive⟩
  · rintro ⟨ha, hlive⟩
    rwa [symbol_rewrite_inl ha]

/-- A point that is there after the rewrite is not gone. -/
theorem not_isGone_of_isLive {x : Point ι (V ⊕ W)} (hx : x.IsLive (D.rewrite agents T).symbol) :
    ¬ x.IsGone agents := by
  cases x with
  | place i => exact id
  | port a k =>
    cases a with
    | inl a =>
      rintro ⟨side, heq⟩
      exact (isSome_symbol_rewrite_inl.1 hx).1 side heq
    | inr b => exact id

/-! ### Rewriting isomorphic diagrams -/

section Congruence

variable {f : V → V'} {g : V' → V} {p : W → W'} {q : W' → W} {agents' : Side → V'}

/-- Maps between diagrams and between templates give a map after the rewrite, if they fit at the
redex. -/
theorem Embeds.rewrite (h : D.Embeds E f g) (ht : T.Embeds U p q)
    (hlive : ∀ side, (D.symbol (agents side)).isSome)
    (hagents : ∀ side, f (agents side) = agents' side) :
    (D.rewrite agents T).Embeds (E.rewrite agents' U) (Sum.map f p) (Sum.map g q) := by
  -- live agents have different images, so those that stay do not fall on the redex
  have hkeep : ∀ {a}, (∀ side, a ≠ agents side) → (D.symbol a).isSome →
      ∀ side, f a ≠ agents' side := by
    intro a ha hsome side heq
    rw [← hagents] at heq
    exact ha side (h.injective hsome (hlive side) heq)
  have hinverse : ∀ {a}, ((D.rewrite agents T).symbol a).isSome →
      Sum.map g q (Sum.map f p a) = a := by
    intro a ha
    cases a with
    | inl a => exact congrArg Sum.inl (h.inverse (isSome_symbol_rewrite_inl.1 ha).2)
    | inr b => exact congrArg Sum.inr (ht.inverse ha)
  have hgone : ∀ {x : Point ι (V ⊕ W)}, x.IsLive (D.rewrite agents T).symbol →
      ¬ (x.map (Sum.map f p)).IsGone agents' := by
    intro x hx
    cases x with
    | place i => exact id
    | port a k =>
      cases a with
      | inl a =>
        obtain ⟨ha, hsome⟩ := isSome_symbol_rewrite_inl.1 hx
        rintro ⟨side, heq⟩
        exact hkeep ha hsome side heq
      | inr b => exact id
  refine ⟨fun {a} ha => ?_, hinverse, fun {x y} hxy => ?_⟩
  · cases a with
    | inl a =>
      obtain ⟨hne, hsome⟩ := isSome_symbol_rewrite_inl.1 ha
      rw [symbol_rewrite_inl hne, Sum.map_inl, symbol_rewrite_inl (hkeep hne hsome),
        h.symbol hsome]
    | inr b => exact ht.symbol ha
  · have hx := (D.rewrite agents T).live hxy
    have hy := (D.rewrite agents T).live ((D.rewrite agents T).symm hxy)
    obtain ⟨-, -, hne, hchain⟩ := hxy
    refine ⟨hgone hx, hgone hy, fun heq => hne ?_, hchain.lift _ ?_⟩
    · rw [← Point.map_map_of_isLive hinverse hx, heq, Point.map_map_of_isLive hinverse hy]
    · rintro u v (⟨a, b, hab, rfl, rfl⟩ | ⟨a, b, hab, rfl, rfl⟩)
      · refine .inl ⟨_, _, h.joined hab, ?_, ?_⟩
        · cases a <;> rfl
        · cases b <;> rfl
      · -- a place of the template is the port of the redex with that slot, on both sides
        have hinner : ∀ c : Point Slot W, Point.inner agents' (c.map p) =
            (Point.inner agents c : Point ι (V ⊕ W)).map (Sum.map f p) := by
          intro c
          cases c with
          | place s =>
            have heq := (hagents s.side).symm
            exact congrArg (fun a => Point.port (Sum.inl a) (s.index + 1)) heq
          | port b k => rfl
        exact .inr ⟨_, _, ht.joined hab, hinner a, hinner b⟩

theorem IsIso.rewrite (h : D.IsIso E f g) (ht : T.IsIso U p q)
    (hlive : ∀ side, (D.symbol (agents side)).isSome)
    (hagents : ∀ side, f (agents side) = agents' side) :
    (D.rewrite agents T).IsIso (E.rewrite agents' U) (Sum.map f p) (Sum.map g q) := by
  refine ⟨h.forward.rewrite ht.forward hlive hagents,
    h.backward.rewrite ht.backward (fun side => ?_) fun side => ?_⟩
  · rw [← hagents]
    exact h.forward.isSome_symbol (hlive side)
  · rw [← hagents, h.forward.inverse (hlive side)]

end Congruence

/-! ### Trading sides -/

end Diagram

namespace Point

/-- The point of a template when the sides of the pattern trade places. -/
def flip : Point Slot W → Point Slot W
  | port a k => port a k
  | place s => place s.flip

@[simp] theorem flip_flip (x : Point Slot W) : x.flip.flip = x := by
  cases x with
  | port a k => rfl
  | place s => exact congrArg place s.flip_flip

theorem inner_flip (agents : Side → V) (x : Point Slot W) :
    (inner (agents ∘ Side.flip) x.flip : Point ι (V ⊕ W)) = inner agents x := by
  cases x with
  | port a k => rfl
  | place s =>
    have heq := congrArg agents s.side.flip_flip
    exact congrArg (fun a => port (Sum.inl a) (s.index + 1)) heq

theorem isGone_flip (agents : Side → V) (x : Point ι (V ⊕ W)) :
    x.IsGone (agents ∘ Side.flip) ↔ x.IsGone agents := by
  rcases x with ⟨a | b, k⟩ | i
  · constructor
    · rintro ⟨side, rfl⟩
      exact ⟨side.flip, rfl⟩
    · rintro ⟨side, rfl⟩
      exact ⟨side.flip, congrArg agents side.flip_flip.symm⟩
  · exact .rfl
  · exact .rfl

end Point

namespace Diagram

variable {D : Diagram ι V} {T : Diagram Slot W} {agents : Side → V}

/-- The template with the sides of the pattern in each other's place. -/
def flip (T : Diagram Slot W) : Diagram Slot W where
  symbol := T.symbol
  joined x y := T.joined x.flip y.flip
  symm h := T.symm h
  live {x _} h := by
    have hlive := T.live h
    cases x <;> exact hlive

/-- When both the sides of the pattern and those of the redex trade places, the rewrite is the
same. -/
theorem rewrite_flip (D : Diagram ι V) (agents : Side → V) (T : Diagram Slot W) :
    D.rewrite (agents ∘ Side.flip) T.flip = D.rewrite agents T := by
  have hmap : Relation.Map T.flip.joined (Point.inner (agents ∘ Side.flip))
      (Point.inner (agents ∘ Side.flip)) =
        (Relation.Map T.joined (Point.inner agents) (Point.inner agents) :
          Point ι (V ⊕ W) → Point ι (V ⊕ W) → Prop) := by
    funext x y
    refine propext ⟨?_, ?_⟩
    · rintro ⟨a, b, hab, rfl, rfl⟩
      refine ⟨a.flip, b.flip, hab, ?_, ?_⟩
      · rw [← Point.inner_flip, Point.flip_flip]
      · rw [← Point.inner_flip, Point.flip_flip]
    · rintro ⟨a, b, hab, rfl, rfl⟩
      refine ⟨a.flip, b.flip, ?_, Point.inner_flip agents a, Point.inner_flip agents b⟩
      show T.joined a.flip.flip b.flip.flip
      rwa [Point.flip_flip, Point.flip_flip]
  have hgone : (Point.IsGone (agents ∘ Side.flip) : Point ι (V ⊕ W) → Prop) =
      Point.IsGone agents :=
    funext fun x => propext (Point.isGone_flip agents x)
  have hglued : D.Glued (agents ∘ Side.flip) T.flip = D.Glued agents T := by
    funext x y
    rw [Glued, Glued, hmap]
  refine Diagram.ext (funext fun a => ?_) ?_
  · cases a with
    | inr b => rfl
    | inl a =>
      by_cases ha : ∃ side, a = agents side
      · obtain ⟨side, rfl⟩ := ha
        have hside : agents side = (agents ∘ Side.flip) side.flip :=
          congrArg agents side.flip_flip.symm
        rw [symbol_rewrite_agents, hside, symbol_rewrite_agents]
      · have hne : ∀ side, a ≠ agents side := fun side heq => ha ⟨side, heq⟩
        have hflip : ∀ side, a ≠ (agents ∘ Side.flip) side := fun side => hne side.flip
        rw [symbol_rewrite_inl hne, symbol_rewrite_inl hflip]
  · show Contract (D.Glued (agents ∘ Side.flip) T.flip) (Point.IsGone (agents ∘ Side.flip)) =
      Contract (D.Glued agents T) (Point.IsGone agents)
    rw [hglued, hgone]

/-- If a template is isomorphic to its mirror image, then it makes no difference which of two agents
plays which side. -/
theorem exists_isIso_comp_flip (hlive : ∀ side, (D.symbol (agents side)).isSome)
    (hflip : T.Isomorphic T.flip) : ∃ p q, (D.rewrite agents T).IsIso
      (D.rewrite (agents ∘ Side.flip) T) (Sum.map id p) (Sum.map id q) := by
  obtain ⟨p, q, hpq⟩ := hflip
  refine ⟨q, p, ?_⟩
  rw [← D.rewrite_flip agents T]
  exact IsIso.rewrite ⟨.refl D, .refl D⟩ hpq.symm (fun side => hlive side.flip) fun _ => rfl

/-! ### Two redexes -/

section Exchange

variable {agents' : Side → V} {U : Diagram Slot X}

/-- A clash stays a clash when other agents are rewritten. -/
theorem HasClash.rewrite (h : D.HasClash) (agents : Side → V) (T : Diagram Slot W) :
    (D.rewrite agents T).HasClash := by
  obtain ⟨i, j, hne, hij⟩ := h
  have hplace : (Point.place i : Point ι (V ⊕ W)) ≠ .place j := by
    rintro ⟨⟩
    exact hne rfl
  exact ⟨i, j, hne, id, id, hplace, .single (.inl ⟨_, _, hij, rfl, rfl⟩)⟩

/-- The edges of a diagram and those of two templates that are glued in. -/
private def GluedTwice (D : Diagram ι V) (agents : Side → V) (T : Diagram Slot W)
    (agents' : Side → V) (U : Diagram Slot X) (x y : Point ι ((V ⊕ W) ⊕ X)) : Prop :=
  Relation.Map (D.Glued agents T) (Point.map .inl) (Point.map .inl) x y ∨
    Relation.Map U.joined (Point.inner (.inl ∘ agents')) (Point.inner (.inl ∘ agents')) x y

/-- The agents after two additions, when the additions are made in the other order. -/
def exchange : (V ⊕ W) ⊕ X → (V ⊕ X) ⊕ W
  | .inl (.inl a) => .inl (.inl a)
  | .inl (.inr b) => .inr b
  | .inr c => .inl (.inr c)

theorem exchange_exchange (c : (V ⊕ W) ⊕ X) : exchange (exchange c) = c := by
  rcases c with (a | b) | c <;> rfl

theorem map_exchange_exchange (x : Point ι ((V ⊕ W) ⊕ X)) : (x.map exchange).map exchange = x := by
  cases x with
  | port c k => exact congrArg (Point.port · k) (exchange_exchange c)
  | place i => rfl

theorem map_exchange_outer (x : Point ι V) :
    ((x.map .inl : Point ι (V ⊕ W)).map .inl).map exchange =
      ((x.map .inl : Point ι (V ⊕ X)).map .inl : Point ι ((V ⊕ X) ⊕ W)) := by
  cases x <;> rfl

theorem map_exchange_inner_first (agents : Side → V) (x : Point Slot W) :
    ((Point.inner agents x : Point ι (V ⊕ W)).map .inl).map exchange =
      (Point.inner (.inl ∘ agents) x : Point ι ((V ⊕ X) ⊕ W)) := by
  cases x <;> rfl

theorem map_exchange_inner_second (agents : Side → V) (x : Point Slot X) :
    (Point.inner (.inl ∘ agents) x : Point ι ((V ⊕ W) ⊕ X)).map exchange =
      ((Point.inner agents x : Point ι (V ⊕ X)).map .inl : Point ι ((V ⊕ X) ⊕ W)) := by
  cases x <;> rfl

theorem map_inl_injective : Function.Injective
    (Point.map .inl : Point ι V → Point ι (V ⊕ W)) := by
  rintro (⟨a, k⟩ | i) (⟨b, l⟩ | j) heq <;> cases heq <;> rfl

variable (hdisjoint : ∀ side side', agents side ≠ agents' side')

include hdisjoint

/-- After two rewrites, points are joined by the chains through the slots of both redexes. -/
private theorem joined_rewrite_rewrite_iff {x y : Point ι ((V ⊕ W) ⊕ X)}
    (hx : x.IsLive ((D.rewrite agents T).rewrite (.inl ∘ agents') U).symbol)
    (hy : y.IsLive ((D.rewrite agents T).rewrite (.inl ∘ agents') U).symbol) :
    ((D.rewrite agents T).rewrite (.inl ∘ agents') U).joined x y ↔
      x ≠ y ∧ ReflTransGen (D.GluedTwice agents T agents' U) x y := by
  have hleft : ∀ {z : Point ι ((V ⊕ W) ⊕ X)},
      z.IsLive ((D.rewrite agents T).rewrite (.inl ∘ agents') U).symbol →
        ∀ p : Point ι (V ⊕ W), p.IsGone agents → p.map .inl ≠ z := by
    rintro z hz (⟨a | b, k⟩ | i) hp rfl
    · obtain ⟨side, rfl⟩ := hp
      have hsome := (isSome_symbol_rewrite_inl.1 hz).2
      rw [symbol_rewrite_agents] at hsome
      cases hsome
    · exact hp
    · exact hp
  have hapart : ∀ {p : Point ι (V ⊕ W)} {c : Point Slot X}, p.IsGone agents →
      Point.inner (.inl ∘ agents') c ≠ p.map (.inl : V ⊕ W → (V ⊕ W) ⊕ X) := by
    rintro (⟨a | b, k⟩ | i) c hp heq
    · obtain ⟨side, rfl⟩ := hp
      cases c with
      | port c l => cases heq
      | place s =>
        have hagents : agents' s.side = agents side := by
          simpa [Point.inner, Point.map] using (Point.port.inj heq).1
        exact hdisjoint side s.side hagents.symm
    · exact hp
    · exact hp
  have hmore : ∀ {p : Point ι (V ⊕ W)} {z : Point ι ((V ⊕ W) ⊕ X)}, p.IsGone agents →
      ¬ Relation.Map U.joined (Point.inner (.inl ∘ agents')) (Point.inner (.inl ∘ agents'))
        (p.map .inl) z ∧
      ¬ Relation.Map U.joined (Point.inner (.inl ∘ agents')) (Point.inner (.inl ∘ agents'))
        z (p.map .inl) := by
    intro p z hp
    constructor
    · rintro ⟨a, b, -, ha, -⟩
      exact hapart hp ha
    · rintro ⟨a, b, -, -, hb⟩
      exact hapart hp hb
  have hchain : ReflTransGen _ x y ↔ ReflTransGen (D.GluedTwice agents T agents' U) x y :=
    contract_contract map_inl_injective hmore (hleft hx) (hleft hy)
  constructor
  · rintro ⟨-, -, hne, h⟩
    exact ⟨hne, hchain.1 h⟩
  · rintro ⟨hne, h⟩
    exact ⟨not_isGone_of_isLive hx, not_isGone_of_isLive hy, hne, hchain.2 h⟩

omit hdisjoint in
private theorem gluedTwice_exchange {x y : Point ι ((V ⊕ W) ⊕ X)}
    (h : D.GluedTwice agents T agents' U x y) :
    D.GluedTwice agents' U agents T (x.map exchange) (y.map exchange) := by
  obtain ⟨_, _, ⟨a, b, hab, rfl, rfl⟩ | ⟨a, b, hab, rfl, rfl⟩, rfl, rfl⟩ |
    ⟨a, b, hab, rfl, rfl⟩ := h
  · exact .inl ⟨_, _, .inl ⟨a, b, hab, rfl, rfl⟩, (map_exchange_outer a).symm,
      (map_exchange_outer b).symm⟩
  · exact .inr ⟨a, b, hab, (map_exchange_inner_first agents a).symm,
      (map_exchange_inner_first agents b).symm⟩
  · exact .inl ⟨_, _, .inr ⟨a, b, hab, rfl, rfl⟩, (map_exchange_inner_second agents' a).symm,
      (map_exchange_inner_second agents' b).symm⟩

omit hdisjoint in
private theorem symbol_exchange {c : (V ⊕ W) ⊕ X}
    (hc : (((D.rewrite agents T).rewrite (.inl ∘ agents') U).symbol c).isSome) :
    ((D.rewrite agents' U).rewrite (.inl ∘ agents) T).symbol (exchange c) =
      ((D.rewrite agents T).rewrite (.inl ∘ agents') U).symbol c := by
  rcases c with (a | b) | c
  · obtain ⟨ha', hsome⟩ := isSome_symbol_rewrite_inl.1 hc
    obtain ⟨ha, -⟩ := isSome_symbol_rewrite_inl.1 hsome
    have hne' : ∀ side, a ≠ agents' side := fun side heq => ha' side (congrArg Sum.inl heq)
    have hne : ∀ side, (.inl a : V ⊕ X) ≠ (Sum.inl ∘ agents) side :=
      fun side heq => ha side (Sum.inl.inj heq)
    rw [exchange, symbol_rewrite_inl hne, symbol_rewrite_inl hne', symbol_rewrite_inl ha',
      symbol_rewrite_inl ha]
  · have hne : ∀ side, (.inr b : V ⊕ W) ≠ (Sum.inl ∘ agents') side := by
      rintro side ⟨⟩
    rw [symbol_rewrite_inl hne]
    rfl
  · have hne : ∀ side, (.inr c : V ⊕ X) ≠ (Sum.inl ∘ agents) side := by
      rintro side ⟨⟩
    rw [exchange, symbol_rewrite_inl hne]
    rfl

private theorem embeds_exchange :
    ((D.rewrite agents T).rewrite (.inl ∘ agents') U).Embeds
      ((D.rewrite agents' U).rewrite (.inl ∘ agents) T) exchange exchange := by
  have hlive : ∀ {x : Point ι ((V ⊕ W) ⊕ X)},
      x.IsLive ((D.rewrite agents T).rewrite (.inl ∘ agents') U).symbol →
        (x.map exchange).IsLive ((D.rewrite agents' U).rewrite (.inl ∘ agents) T).symbol := by
    intro x hx
    cases x with
    | place i => trivial
    | port c k =>
      show Option.isSome _
      rw [symbol_exchange hx]
      exact hx
  refine ⟨symbol_exchange, fun {c} _ => exchange_exchange c, fun {x y} hxy => ?_⟩
  have hx := ((D.rewrite agents T).rewrite (.inl ∘ agents') U).live hxy
  have hy := ((D.rewrite agents T).rewrite (.inl ∘ agents') U).live
    (((D.rewrite agents T).rewrite (.inl ∘ agents') U).symm hxy)
  obtain ⟨hne, hchain⟩ := (joined_rewrite_rewrite_iff hdisjoint hx hy).1 hxy
  refine (joined_rewrite_rewrite_iff (fun side side' => (hdisjoint side' side).symm) (hlive hx)
    (hlive hy)).2 ⟨fun heq => hne ?_, hchain.lift _ fun _ _ => gluedTwice_exchange⟩
  have hback := congrArg (Point.map exchange) heq
  rwa [Point.map_map_of_isLive (fun {c} _ => exchange_exchange c) hx,
    Point.map_map_of_isLive (fun {c} _ => exchange_exchange c) hy] at hback

/-- **Redexes without common agents can be rewritten in either order.** -/
theorem rewrite_rewrite :
    ((D.rewrite agents T).rewrite (.inl ∘ agents') U).Isomorphic
      ((D.rewrite agents' U).rewrite (.inl ∘ agents) T) :=
  ⟨exchange, exchange, embeds_exchange hdisjoint,
    embeds_exchange fun side side' => (hdisjoint side' side).symm⟩

end Exchange

end Diagram

end InteractionNets
