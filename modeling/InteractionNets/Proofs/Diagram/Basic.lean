import Mathlib.Logic.Relation
import InteractionNets.Symbol

/-!
# Diagrams

A diagram is a net without ids for ports and connections: agents, a relation that tells which ports
of agents are joined, and places that ports may be joined to as well. The places of the diagram of a
net are those of its interface; the places of the diagram of a rule are the slots of its pattern.

Diagrams are compared by maps between their agents (`Diagram.Embeds`, `Diagram.Iso`).

A relation is **contracted** when some of its points are taken out and the others are related by the
chains through the points that are gone. Contracting in two steps is contracting once
(`contract_contract`), so the order of contractions does not matter.
-/

namespace InteractionNets

open Relation

/-! ### Contractions -/

section Contract

variable {P Q : Type}

/-- Different points that are left, related by a chain. -/
def Contract (edge : P → P → Prop) (gone : P → Prop) (x y : P) : Prop :=
  ¬ gone x ∧ ¬ gone y ∧ x ≠ y ∧ ReflTransGen edge x y

variable {edge : P → P → Prop} {gone : P → Prop}

/-- A point at the start of a contracted chain has an edge. -/
theorem Contract.exists_head {x y : P} (h : Contract edge gone x y) : ∃ z, edge x z := by
  obtain ⟨-, -, hne, hchain⟩ := h
  obtain rfl | ⟨z, hz, -⟩ := hchain.cases_head
  · exact absurd rfl hne
  · exact ⟨z, hz⟩

theorem Contract.symm (hedge : ∀ {x y}, edge x y → edge y x) {x y : P}
    (h : Contract edge gone x y) : Contract edge gone y x := by
  obtain ⟨hx, hy, hne, hchain⟩ := h
  have : Std.Symm edge := ⟨fun _ _ => hedge⟩
  exact ⟨hy, hx, hne.symm, ReflTransGen.stdSymm.symm _ _ hchain⟩

variable {f : P → Q} (hf : Function.Injective f) {more : Q → Q → Prop}

/-- An edge before an image, or an added one. -/
private abbrev Extend (edge : P → P → Prop) (f : P → Q) (more : Q → Q → Prop) (u v : Q) : Prop :=
  Relation.Map edge f f u v ∨ more u v

include hf

/-- A chain in an image has no links, or it is the image of a chain. -/
private theorem exists_chain {u v : Q} (h : ReflTransGen (Relation.Map edge f f) u v) :
    u = v ∨ ∃ x y, f x = u ∧ f y = v ∧ ReflTransGen edge x y := by
  induction h with
  | refl => exact .inl rfl
  | tail _ hlast ih =>
    obtain ⟨x, y, hxy, hx, rfl⟩ := hlast
    rcases ih with rfl | ⟨a, b, rfl, hb, hab⟩
    · exact .inr ⟨x, y, hx, rfl, .single hxy⟩
    · obtain rfl := hf (hx.trans hb.symm)
      exact .inr ⟨a, y, rfl, rfl, hab.tail hxy⟩

/-- Between points that are left, a chain in an image has no links or is contracted to one. -/
private theorem chain_of_chain_map {u v : Q} (hu : ∀ p, gone p → f p ≠ u)
    (hv : ∀ p, gone p → f p ≠ v) (h : ReflTransGen (Relation.Map edge f f) u v) :
    ReflTransGen (Extend (Contract edge gone) f more) u v := by
  rcases exists_chain hf h with rfl | ⟨x, y, rfl, rfl, hxy⟩
  · exact .refl
  · by_cases heq : x = y
    · rw [heq]
    · have hcontract : Contract edge gone x y :=
        ⟨fun hx => hu x hx rfl, fun hy => hv y hy rfl, heq, hxy⟩
      exact .single (.inl ⟨x, y, hcontract, rfl, rfl⟩)

/-- **Contracting in two steps.** Contracting some edges before others are added makes no difference
to the points that are left, if the added edges do not touch those that are gone. -/
theorem contract_contract (hmore : ∀ {p u}, gone p → ¬ more (f p) u ∧ ¬ more u (f p)) {u v : Q}
    (hu : ∀ p, gone p → f p ≠ u) (hv : ∀ p, gone p → f p ≠ v) :
    ReflTransGen (fun x y => Relation.Map (Contract edge gone) f f x y ∨ more x y) u v ↔
      ReflTransGen (fun x y => Relation.Map edge f f x y ∨ more x y) u v := by
  constructor
  · refine reflTransGen_closed (fun x y hxy => ?_) u v
    rcases hxy with ⟨a, b, ⟨-, -, -, hchain⟩, rfl, rfl⟩ | hmore
    · exact hchain.lift f (fun x y hxy => .inl ⟨x, y, hxy, rfl, rfl⟩)
    · exact .single (.inr hmore)
  · intro h
    -- a point of the chain is reached through edges of the image from one that is left
    have hreach : ∃ w, (∀ p, gone p → f p ≠ w) ∧
        ReflTransGen (Extend (Contract edge gone) f more) u w ∧
        ReflTransGen (Relation.Map edge f f) w v := by
      clear hv
      induction h with
      | refl => exact ⟨u, hu, .refl, .refl⟩
      | @tail x y _ hlast ih =>
        obtain ⟨w, hw, huw, hwx⟩ := ih
        rcases hlast with hedge | hlast
        · exact ⟨w, hw, huw, hwx.tail hedge⟩
        · have hx : ∀ p, gone p → f p ≠ x := by
            rintro p hp rfl
            exact (hmore hp).1 hlast
          have hy : ∀ p, gone p → f p ≠ y := by
            rintro p hp rfl
            exact (hmore hp).2 hlast
          exact ⟨y, hy, (huw.trans (chain_of_chain_map hf hw hx hwx)).tail (.inr hlast), .refl⟩
    obtain ⟨w, hw, huw, hwv⟩ := hreach
    exact huw.trans (chain_of_chain_map hf hw hv hwv)

end Contract

/-! ### Diagrams -/

variable {ι V W X : Type}

/-- A point of a diagram: the port at a position of an agent, or a place. -/
inductive Point (ι V : Type) where
  | port (agent : V) (position : Nat)
  | place (index : ι)
deriving DecidableEq

namespace Point

/-- The point on the agents that a map leads to. -/
def map (f : V → W) : Point ι V → Point ι W
  | port a k => port (f a) k
  | place i => place i

@[simp] theorem map_map (f : V → W) (g : W → X) (x : Point ι V) :
    (x.map f).map g = x.map (g ∘ f) := by
  cases x <;> rfl

/-- A place, or a port of an agent that is there. -/
def IsLive (symbol : V → Option Symbol) : Point ι V → Prop
  | port a _ => (symbol a).isSome
  | place _ => True

theorem map_map_of_isLive {symbol : V → Option Symbol} {f : V → W} {g : W → V}
    (hinverse : ∀ {a}, (symbol a).isSome → g (f a) = a) {x : Point ι V} (hx : x.IsLive symbol) :
    (x.map f).map g = x := by
  cases x with
  | port a k => exact congrArg (port · k) (hinverse hx)
  | place i => rfl

end Point

/-- Agents with their symbols, and which points are joined to each other. -/
@[ext]
structure Diagram (ι V : Type) where
  symbol : V → Option Symbol
  joined : Point ι V → Point ι V → Prop
  symm : ∀ {x y}, joined x y → joined y x
  live : ∀ {x y}, joined x y → x.IsLive symbol

namespace Diagram

/-- A map between the agents of two diagrams that keeps symbols and joined points, and that another
map undoes. -/
structure Embeds (D : Diagram ι V) (E : Diagram ι W) (f : V → W) (g : W → V) : Prop where
  symbol : ∀ {a}, (D.symbol a).isSome → E.symbol (f a) = D.symbol a
  inverse : ∀ {a}, (D.symbol a).isSome → g (f a) = a
  joined : ∀ {x y}, D.joined x y → E.joined (x.map f) (y.map f)

/-- Two maps that turn two diagrams into each other. -/
structure IsIso (D : Diagram ι V) (E : Diagram ι W) (f : V → W) (g : W → V) : Prop where
  forward : D.Embeds E f g
  backward : E.Embeds D g f

/-- Two diagrams are isomorphic when they differ in the names of their agents only. -/
def Isomorphic (D : Diagram ι V) (E : Diagram ι W) : Prop :=
  ∃ f g, D.IsIso E f g

variable {D : Diagram ι V} {E : Diagram ι W} {F : Diagram ι X} {f : V → W} {g : W → V}

theorem joined_comm {x y : Point ι V} : D.joined x y ↔ D.joined y x :=
  ⟨D.symm, D.symm⟩

theorem Embeds.refl (D : Diagram ι V) : D.Embeds D id id := by
  refine ⟨fun _ => rfl, fun _ => rfl, fun {x y} hxy => ?_⟩
  cases x <;> cases y <;> exact hxy

theorem Embeds.trans {p : W → X} {q : X → W} (h : D.Embeds E f g) (h' : E.Embeds F p q) :
    D.Embeds F (p ∘ f) (g ∘ q) := by
  have hlive : ∀ {a}, (D.symbol a).isSome → (E.symbol (f a)).isSome := by
    intro a ha
    rwa [h.symbol ha]
  refine ⟨fun ha => ?_, fun ha => ?_, fun hxy => ?_⟩
  · rw [Function.comp_apply, h'.symbol (hlive ha), h.symbol ha]
  · rw [Function.comp_apply, Function.comp_apply, h'.inverse (hlive ha), h.inverse ha]
  · simpa only [Point.map_map] using h'.joined (h.joined hxy)

theorem IsIso.symm (h : D.IsIso E f g) : E.IsIso D g f :=
  ⟨h.backward, h.forward⟩

theorem IsIso.trans {p : W → X} {q : X → W} (h : D.IsIso E f g) (h' : E.IsIso F p q) :
    D.IsIso F (p ∘ f) (g ∘ q) :=
  ⟨h.forward.trans h'.forward, h'.backward.trans h.backward⟩

theorem Isomorphic.refl (D : Diagram ι V) : D.Isomorphic D :=
  ⟨id, id, .refl D, .refl D⟩

theorem Isomorphic.symm (h : D.Isomorphic E) : E.Isomorphic D := by
  obtain ⟨f, g, hfg⟩ := h
  exact ⟨g, f, hfg.symm⟩

theorem Isomorphic.trans (h : D.Isomorphic E) (h' : E.Isomorphic F) : D.Isomorphic F := by
  obtain ⟨f, g, hfg⟩ := h
  obtain ⟨p, q, hpq⟩ := h'
  exact ⟨p ∘ f, g ∘ q, hfg.trans hpq⟩

namespace Embeds

variable (h : D.Embeds E f g)

include h

theorem isSome_symbol {a : V} (ha : (D.symbol a).isSome) : (E.symbol (f a)).isSome := by
  rwa [h.symbol ha]

/-- Different agents are mapped to different agents. -/
theorem injective {a b : V} (ha : (D.symbol a).isSome) (hb : (D.symbol b).isSome)
    (heq : f a = f b) : a = b := by
  rw [← h.inverse ha, heq, h.inverse hb]

theorem map_inverse {x : Point ι V} (hx : x.IsLive D.symbol) : (x.map f).map g = x := by
  cases x with
  | port a k => exact congrArg (Point.port · k) (h.inverse hx)
  | place i => rfl

end Embeds

theorem IsIso.joined_iff (h : D.IsIso E f g) {x y : Point ι V} (hx : x.IsLive D.symbol)
    (hy : y.IsLive D.symbol) : D.joined x y ↔ E.joined (x.map f) (y.map f) := by
  refine ⟨h.forward.joined, fun hxy => ?_⟩
  rw [← h.forward.map_inverse hx, ← h.forward.map_inverse hy]
  exact h.backward.joined hxy

/-- A map that keeps symbols and joined points, and that is injective and onto the agents of the
other diagram, is an isomorphism. -/
theorem exists_isIso (hsymbol : ∀ {a}, (D.symbol a).isSome → E.symbol (f a) = D.symbol a)
    (hinjective : ∀ {a b}, (D.symbol a).isSome → (D.symbol b).isSome → f a = f b → a = b)
    (hsurjective : ∀ {b}, (E.symbol b).isSome → ∃ a, (D.symbol a).isSome ∧ f a = b)
    (hjoined : ∀ {x y : Point ι V}, x.IsLive D.symbol → y.IsLive D.symbol →
      (D.joined x y ↔ E.joined (x.map f) (y.map f))) [Nonempty V] :
    ∃ g, D.IsIso E f g := by
  classical
  obtain ⟨a₀⟩ := ‹Nonempty V›
  let g : W → V := fun b =>
    if hb : ∃ a, (D.symbol a).isSome ∧ f a = b then hb.choose else a₀
  have hg : ∀ {b}, (E.symbol b).isSome → (D.symbol (g b)).isSome ∧ f (g b) = b := by
    intro b hb
    simp only [g, dif_pos (hsurjective hb)]
    exact (hsurjective hb).choose_spec
  have hgf : ∀ {a}, (D.symbol a).isSome → g (f a) = a := by
    intro a ha
    have hfa : (E.symbol (f a)).isSome := by rwa [hsymbol ha]
    obtain ⟨hlive, heq⟩ := hg hfa
    exact hinjective hlive ha heq
  have hpoint : ∀ {y : Point ι W}, y.IsLive E.symbol →
      (y.map g).IsLive D.symbol ∧ (y.map g).map f = y := by
    intro y hy
    cases y with
    | port b k => exact ⟨(hg hy).1, congrArg (Point.port · k) (hg hy).2⟩
    | place i => exact ⟨trivial, rfl⟩
  refine ⟨g, ⟨hsymbol, hgf, fun hxy => ?_⟩, ⟨fun hb => ?_, fun hb => (hg hb).2, fun hxy => ?_⟩⟩
  · exact (hjoined (D.live hxy) (D.live (D.symm hxy))).1 hxy
  · rw [← hsymbol (hg hb).1, (hg hb).2]
  · obtain ⟨hx, hfx⟩ := hpoint (E.live hxy)
    obtain ⟨hy, hfy⟩ := hpoint (E.live (E.symm hxy))
    rw [hjoined hx hy, hfx, hfy]
    exact hxy

/-! ### Clashes -/

/-- Two places are joined to each other, with no agent in between. -/
def HasClash (D : Diagram ι V) : Prop :=
  ∃ i j, i ≠ j ∧ D.joined (.place i) (.place j)

theorem Embeds.hasClash (h : D.Embeds E f g) (hclash : D.HasClash) : E.HasClash := by
  obtain ⟨i, j, hne, hij⟩ := hclash
  exact ⟨i, j, hne, h.joined hij⟩

theorem Isomorphic.hasClash_iff (h : D.Isomorphic E) : D.HasClash ↔ E.HasClash := by
  obtain ⟨f, g, hfg⟩ := h
  exact ⟨hfg.forward.hasClash, hfg.backward.hasClash⟩

end Diagram

end InteractionNets
