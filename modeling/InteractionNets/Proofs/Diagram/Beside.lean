import InteractionNets.Proofs.Diagram.Redex

/-!
# Diagrams side by side

Two diagrams side by side have the agents of both, and points are joined as they are in either of
them. A redex of one of them is a redex of both together, and rewriting it leaves the other one
alone (`Diagram.IsMatching.rewrite_beside`). Here it matters that every point is joined to one point
at most: a path through the redex must not go on in the other diagram, so they must have no places
in common.
-/

namespace InteractionNets

open Relation

variable {ι V V' W W' X : Type}

namespace Diagram

variable {D : Diagram ι V} {D' : Diagram ι V'} {E : Diagram ι W} {E' : Diagram ι W'}
  {T : Diagram Slot X} {agents : Side → V} {rule : Rule}

/-! ### Matchings -/

/-- Every point is joined to one point at most, and not to itself. -/
structure IsMatching (D : Diagram ι V) : Prop where
  unique : ∀ {x y z}, D.joined x y → D.joined x z → y = z
  ne : ∀ {x y}, D.joined x y → x ≠ y

/-- In a matching, chains have one link at most. -/
theorem IsMatching.joined_iff (hm : D.IsMatching) {x y : Point ι V} :
    D.joined x y ↔ x ≠ y ∧ ReflTransGen D.joined x y := by
  refine ⟨fun h => ⟨hm.ne h, .single h⟩, fun ⟨hne, hchain⟩ => ?_⟩
  have hlink : ∀ {z}, ReflTransGen D.joined x z → x = z ∨ D.joined x z := by
    intro z h
    induction h with
    | refl => exact .inl rfl
    | tail _ hlast ih =>
      rcases ih with rfl | hfirst
      · exact .inr hlast
      · exact .inl (hm.unique (D.symm hfirst) hlast)
  exact (hlink hchain).resolve_left hne

theorem Embeds.isMatching {f : V → V'} {g : V' → V} (h : D.Embeds D' f g) (hm : D'.IsMatching) :
    D.IsMatching := by
  refine ⟨fun {x y z} hxy hxz => ?_, fun {x y} hxy => ?_⟩
  · rw [← h.map_inverse (D.live (D.symm hxy)), ← h.map_inverse (D.live (D.symm hxz)),
      hm.unique (h.joined hxy) (h.joined hxz)]
  · rintro rfl
    exact hm.ne (h.joined hxy) rfl

/-! ### Side by side -/

/-- Two diagrams next to each other. -/
def beside (D : Diagram ι V) (E : Diagram ι W) : Diagram ι (V ⊕ W) where
  symbol := Sum.elim D.symbol E.symbol
  joined x y := Relation.Map D.joined (Point.map .inl) (Point.map .inl) x y ∨
    Relation.Map E.joined (Point.map .inr) (Point.map .inr) x y
  symm h := by
    obtain ⟨a, b, hab, rfl, rfl⟩ | ⟨a, b, hab, rfl, rfl⟩ := h
    · exact .inl ⟨b, a, D.symm hab, rfl, rfl⟩
    · exact .inr ⟨b, a, E.symm hab, rfl, rfl⟩
  live h := by
    obtain ⟨a, b, hab, rfl, -⟩ | ⟨a, b, hab, rfl, -⟩ := h
    · have hlive := D.live hab
      cases a <;> exact hlive
    · have hlive := E.live hab
      cases a <;> exact hlive

theorem embeds_beside (D : Diagram ι V) (E : Diagram ι W) (a : V) :
    D.Embeds (D.beside E) .inl (Sum.elim id fun _ => a) :=
  ⟨fun _ => rfl, fun _ => rfl, fun hxy => .inl ⟨_, _, hxy, rfl, rfl⟩⟩

/-- The two diagrams may trade places. -/
theorem isIso_beside_swap (D : Diagram ι V) (E : Diagram ι W) :
    (D.beside E).IsIso (E.beside D) Sum.swap Sum.swap := by
  have hembeds : ∀ {V W : Type} (D : Diagram ι V) (E : Diagram ι W),
      (D.beside E).Embeds (E.beside D) Sum.swap Sum.swap := by
    intro V W D E
    have hswap : Sum.swap ∘ .inl = (.inr : V → W ⊕ V) := rfl
    have hswap' : Sum.swap ∘ .inr = (.inl : W → W ⊕ V) := rfl
    refine ⟨fun {c} _ => ?_, fun {c} _ => Sum.swap_swap c, fun {x y} hxy => ?_⟩
    · cases c <;> rfl
    · obtain ⟨a, b, hab, rfl, rfl⟩ | ⟨a, b, hab, rfl, rfl⟩ := hxy
      · refine .inr ⟨a, b, hab, ?_, ?_⟩ <;> rw [Point.map_map, hswap]
      · refine .inl ⟨a, b, hab, ?_, ?_⟩ <;> rw [Point.map_map, hswap']
  exact ⟨hembeds D E, hembeds E D⟩

theorem Embeds.beside {f : V → V'} {g : V' → V} {p : W → W'} {q : W' → W} (h : D.Embeds D' f g)
    (h' : E.Embeds E' p q) : (D.beside E).Embeds (D'.beside E') (Sum.map f p) (Sum.map g q) := by
  refine ⟨fun {c} hc => ?_, fun {c} hc => ?_, fun {x y} hxy => ?_⟩
  · cases c with
    | inl a => exact h.symbol hc
    | inr b => exact h'.symbol hc
  · cases c with
    | inl a => exact congrArg Sum.inl (h.inverse hc)
    | inr b => exact congrArg Sum.inr (h'.inverse hc)
  · obtain ⟨a, b, hab, rfl, rfl⟩ | ⟨a, b, hab, rfl, rfl⟩ := hxy
    · refine .inl ⟨_, _, h.joined hab, ?_, ?_⟩ <;> simp only [Point.map_map] <;> rfl
    · refine .inr ⟨_, _, h'.joined hab, ?_, ?_⟩ <;> simp only [Point.map_map] <;> rfl

theorem Isomorphic.beside (h : D.Isomorphic D') (h' : E.Isomorphic E') :
    (D.beside E).Isomorphic (D'.beside E') := by
  obtain ⟨f, g, hfg⟩ := h
  obtain ⟨p, q, hpq⟩ := h'
  exact ⟨_, _, hfg.forward.beside hpq.forward, hfg.backward.beside hpq.backward⟩

theorem map_inr_injective : Function.Injective
    (Point.map .inr : Point ι W → Point ι (V ⊕ W)) := by
  rintro (⟨a, k⟩ | i) (⟨b, l⟩ | j) heq <;> cases heq <;> rfl

/-- Points of the left diagram are joined as they are there, if they are agents' ports. -/
theorem beside_joined_inl_iff {a b : V} {j k : Nat} :
    (D.beside E).joined (.port (.inl a) j) (.port (.inl b) k) ↔
      D.joined (.port a j) (.port b k) := by
  constructor
  · rintro (⟨x, y, hxy, hx, hy⟩ | ⟨x, y, -, hx, -⟩)
    · have hx' : x = .port a j := map_inl_injective hx
      have hy' : y = .port b k := map_inl_injective hy
      rwa [hx', hy'] at hxy
    · cases x <;> cases hx
  · exact fun h => .inl ⟨_, _, h, rfl, rfl⟩

/-- A clash of two diagrams that are side by side is a clash of one of them. -/
theorem HasClash.of_beside (h : (D.beside E).HasClash) : D.HasClash ∨ E.HasClash := by
  obtain ⟨i, j, hne, ⟨x, y, hxy, hx, hy⟩ | ⟨x, y, hxy, hx, hy⟩⟩ := h
  · obtain rfl : x = .place i := map_inl_injective hx
    obtain rfl : y = .place j := map_inl_injective hy
    exact .inl ⟨i, j, hne, hxy⟩
  · obtain rfl : x = .place i := map_inr_injective hx
    obtain rfl : y = .place j := map_inr_injective hy
    exact .inr ⟨i, j, hne, hxy⟩

/-- When agents meet side by side, agents meet in one of the diagrams. -/
theorem Meets.of_beside {agents : Side → V ⊕ W} (hm : (D.beside E).Meets agents) :
    (∃ agents, D.Meets agents) ∨ ∃ agents, E.Meets agents := by
  have hends : ∀ {U : Type} {C : Diagram ι U} {a b : U},
      C.joined (.port a 0) (.port b 0) → ∃ agents, C.Meets agents :=
    fun {U C a b} hab => ⟨fun side => if side = .left then a else b, hab⟩
  have hport : ∀ {U : Type} {f : U → V ⊕ W} {x : Point ι U} {c k}, x.map f = .port c k →
      ∃ a, x = .port a k := by
    rintro U f (⟨a, k⟩ | i) c k hx
    · exact ⟨a, congrArg _ (Point.port.inj hx).2⟩
    · cases hx
  obtain ⟨x, y, hxy, hx, hy⟩ | ⟨x, y, hxy, hx, hy⟩ := hm
  · obtain ⟨a, rfl⟩ := hport hx
    obtain ⟨b, rfl⟩ := hport hy
    exact .inl (hends hxy)
  · obtain ⟨a, rfl⟩ := hport hx
    obtain ⟨b, rfl⟩ := hport hy
    exact .inr (hends hxy)

/-- A redex of the left diagram is a redex of both. -/
theorem isRedex_beside_iff :
    (D.beside E).IsRedex rule (.inl ∘ agents) ↔ D.IsRedex rule agents :=
  ⟨fun hr => ⟨hr.symbol, beside_joined_inl_iff.1 hr.meets⟩,
    fun hr => ⟨hr.symbol, beside_joined_inl_iff.2 hr.meets⟩⟩

/-- Diagrams that join no place in common are matchings together. -/
theorem IsMatching.beside (hD : D.IsMatching) (hE : E.IsMatching)
    (hapart : ∀ {i x y}, D.joined (.place i) x → ¬ E.joined (.place i) y) :
    (D.beside E).IsMatching := by
  -- a point of both is a place
  have hcommon : ∀ {x : Point ι V} {y : Point ι W} {z w},
      x.map .inl = y.map (.inr : W → V ⊕ W) → D.joined x z → ¬ E.joined y w := by
    rintro (⟨a, k⟩ | i) (⟨b, l⟩ | j) z w heq hxz hyw
    · cases heq
    · cases heq
    · cases heq
    · obtain rfl := Point.place.inj heq
      exact hapart hxz hyw
  refine ⟨?_, ?_⟩
  · rintro x y z (⟨a, b, hab, rfl, rfl⟩ | ⟨a, b, hab, rfl, rfl⟩) (⟨a', c, hac, ha, rfl⟩ |
      ⟨a', c, hac, ha, rfl⟩)
    · obtain rfl := map_inl_injective ha
      rw [hD.unique hab hac]
    · exact absurd hac (hcommon ha.symm hab)
    · exact absurd hab (hcommon ha hac)
    · obtain rfl := map_inr_injective ha
      rw [hE.unique hab hac]
  · rintro x y (⟨a, b, hab, rfl, rfl⟩ | ⟨a, b, hab, rfl, rfl⟩)
    · exact fun heq => hD.ne hab (map_inl_injective heq)
    · exact fun heq => hE.ne hab (map_inr_injective heq)

/-! ### Rewriting one of two -/

/-- A place that is joined after a rewrite was joined before. -/
theorem exists_joined_place_of_rewrite {i : ι} {y : Point ι (V ⊕ X)}
    (h : (D.rewrite agents T).joined (.place i) y) : ∃ z, D.joined (.place i) z := by
  obtain ⟨z, ⟨x, w, hxw, hx, -⟩ | ⟨x, w, -, hx, -⟩⟩ := Contract.exists_head h
  · obtain rfl : x = .place i := map_inl_injective hx
    exact ⟨w, hxw⟩
  · cases x <;> cases hx

/-- The edges of two diagrams side by side and of a template that is glued into the left one. -/
private def GluedBeside (D : Diagram ι V) (agents : Side → V) (T : Diagram Slot X)
    (E : Diagram ι W) (x y : Point ι ((V ⊕ X) ⊕ W)) : Prop :=
  Relation.Map (D.Glued agents T) (Point.map .inl) (Point.map .inl) x y ∨
    Relation.Map E.joined (Point.map .inr) (Point.map .inr) x y

/-- It makes no difference whether the template is glued in before or after the right diagram is
put beside. -/
private theorem gluedBeside_exchange {x y : Point ι ((V ⊕ X) ⊕ W)}
    (h : D.GluedBeside agents T E x y) :
    (D.beside E).Glued (.inl ∘ agents) T (x.map exchange) (y.map exchange) := by
  obtain ⟨_, _, ⟨a, b, hab, rfl, rfl⟩ | ⟨a, b, hab, rfl, rfl⟩, rfl, rfl⟩ |
    ⟨a, b, hab, rfl, rfl⟩ := h
  · exact .inl ⟨_, _, .inl ⟨a, b, hab, rfl, rfl⟩, (map_exchange_outer a).symm,
      (map_exchange_outer b).symm⟩
  · exact .inr ⟨a, b, hab, (map_exchange_inner_first agents a).symm,
      (map_exchange_inner_first agents b).symm⟩
  · refine .inl ⟨_, _, .inr ⟨a, b, hab, rfl, rfl⟩, ?_, ?_⟩ <;> simp only [Point.map_map] <;> rfl

private theorem glued_exchange_beside {x y : Point ι ((V ⊕ W) ⊕ X)}
    (h : (D.beside E).Glued (.inl ∘ agents) T x y) :
    D.GluedBeside agents T E (x.map exchange) (y.map exchange) := by
  obtain ⟨_, _, ⟨a, b, hab, rfl, rfl⟩ | ⟨a, b, hab, rfl, rfl⟩, rfl, rfl⟩ |
    ⟨a, b, hab, rfl, rfl⟩ := h
  · exact .inl ⟨_, _, .inl ⟨a, b, hab, rfl, rfl⟩, (map_exchange_outer a).symm,
      (map_exchange_outer b).symm⟩
  · refine .inr ⟨a, b, hab, ?_, ?_⟩ <;> simp only [Point.map_map] <;> rfl
  · exact .inl ⟨_, _, .inr ⟨a, b, hab, rfl, rfl⟩, (map_exchange_inner_second agents a).symm,
      (map_exchange_inner_second agents b).symm⟩

private theorem symbol_exchange_beside (c : (V ⊕ X) ⊕ W) :
    ((D.beside E).rewrite (.inl ∘ agents) T).symbol (exchange c) =
      ((D.rewrite agents T).beside E).symbol c := by
  rcases c with (a | b) | c
  · by_cases ha : ∃ side, a = agents side
    · obtain ⟨side, rfl⟩ := ha
      have hgone : (D.rewrite agents T).symbol (.inl (agents side)) = none :=
        symbol_rewrite_agents side
      exact (symbol_rewrite_agents side).trans hgone.symm
    · have hne : ∀ side, a ≠ agents side := fun side heq => ha ⟨side, heq⟩
      have hne' : ∀ side, (.inl a : V ⊕ W) ≠ (Sum.inl ∘ agents) side :=
        fun side heq => hne side (Sum.inl.inj heq)
      have hkept : (D.rewrite agents T).symbol (.inl a) = D.symbol a := symbol_rewrite_inl hne
      exact (symbol_rewrite_inl hne').trans hkept.symm
  · rfl
  · have hne : ∀ side, (.inr c : V ⊕ W) ≠ (Sum.inl ∘ agents) side := by
      rintro side ⟨⟩
    exact symbol_rewrite_inl hne

/-- The points that are left of the left diagram and the points of the right one are joined by the
chains through the slots of the redex. -/
private theorem chain_beside_iff {x y : Point ι ((V ⊕ X) ⊕ W)}
    (hx : x.IsLive ((D.rewrite agents T).beside E).symbol)
    (hy : y.IsLive ((D.rewrite agents T).beside E).symbol) :
    ReflTransGen ((D.rewrite agents T).beside E).joined x y ↔
      ReflTransGen (D.GluedBeside agents T E) x y := by
  have hleft : ∀ {z : Point ι ((V ⊕ X) ⊕ W)},
      z.IsLive ((D.rewrite agents T).beside E).symbol →
        ∀ p : Point ι (V ⊕ X), p.IsGone agents → p.map .inl ≠ z := by
    rintro z hz (⟨a | b, k⟩ | i) hp rfl
    · obtain ⟨side, rfl⟩ := hp
      have hsome : ((D.rewrite agents T).symbol (.inl (agents side))).isSome := hz
      rw [symbol_rewrite_agents] at hsome
      cases hsome
    · exact hp
    · exact hp
  have hapart : ∀ {p : Point ι (V ⊕ X)} {q : Point ι W}, p.IsGone agents →
      q.map .inr ≠ p.map (.inl : V ⊕ X → (V ⊕ X) ⊕ W) := by
    rintro (⟨a | b, k⟩ | i) q hp heq
    · cases q <;> cases heq
    · exact hp
    · exact hp
  refine contract_contract map_inl_injective (fun {p z} hp => ⟨?_, ?_⟩) (hleft hx) (hleft hy)
  · rintro ⟨a, b, -, ha, -⟩
    exact hapart hp ha
  · rintro ⟨a, b, -, -, hb⟩
    exact hapart hp hb

/-- **Rewriting one of two diagrams** leaves the other one alone. -/
theorem IsMatching.rewrite_beside (hm : ((D.rewrite agents T).beside E).IsMatching) :
    ((D.rewrite agents T).beside E).Isomorphic ((D.beside E).rewrite (.inl ∘ agents) T) := by
  have hlive : ∀ {x : Point ι ((V ⊕ X) ⊕ W)}, x.IsLive ((D.rewrite agents T).beside E).symbol →
      (x.map exchange).IsLive ((D.beside E).rewrite (.inl ∘ agents) T).symbol := by
    intro x hx
    cases x with
    | place i => trivial
    | port c k =>
      show Option.isSome _
      rw [symbol_exchange_beside]
      exact hx
  have hback : ∀ {c : (V ⊕ W) ⊕ X}, ((D.rewrite agents T).beside E).symbol (exchange c) =
      ((D.beside E).rewrite (.inl ∘ agents) T).symbol c := by
    intro c
    rw [← symbol_exchange_beside, exchange_exchange]
  have hlive' : ∀ {x : Point ι ((V ⊕ W) ⊕ X)},
      x.IsLive ((D.beside E).rewrite (.inl ∘ agents) T).symbol →
        (x.map exchange).IsLive ((D.rewrite agents T).beside E).symbol := by
    intro x hx
    cases x with
    | place i => trivial
    | port c k =>
      show Option.isSome _
      rw [hback]
      exact hx
  refine ⟨exchange, exchange, ⟨fun {c} _ => symbol_exchange_beside c,
    fun {c} _ => exchange_exchange c, fun {x y} hxy => ?_⟩,
    ⟨fun _ => hback, fun {c} _ => exchange_exchange c, fun {x y} hxy => ?_⟩⟩
  · have hx := Diagram.live _ hxy
    have hy := Diagram.live _ (Diagram.symm _ hxy)
    obtain ⟨hne, hchain⟩ := hm.joined_iff.1 hxy
    refine ⟨not_isGone_of_isLive (hlive hx), not_isGone_of_isLive (hlive hy), fun heq => hne ?_,
      ((chain_beside_iff hx hy).1 hchain).lift _ fun _ _ => gluedBeside_exchange⟩
    rw [← map_exchange_exchange x, heq, map_exchange_exchange]
  · have hx := hlive' (Diagram.live _ hxy)
    have hy := hlive' (Diagram.live _ (Diagram.symm _ hxy))
    obtain ⟨-, -, hne, hchain⟩ := hxy
    refine hm.joined_iff.2 ⟨fun heq => hne ?_,
      (chain_beside_iff hx hy).2 (hchain.lift _ fun _ _ => glued_exchange_beside)⟩
    rw [← map_exchange_exchange x, heq, map_exchange_exchange]

end Diagram

end InteractionNets
