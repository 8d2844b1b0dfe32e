import InteractionNets.Proofs.Net.SideBySide
import InteractionNets.Proofs.Reduction.Strategies

/-!
# Reducing nets side by side

What happens in one of two nets that are side by side happens in both together, and leaves the other
one alone (`Net.Interacts.exists_beside`). Agents of one that meet are stuck on their own if they
are stuck in both (`Net.Meets.exists_beside`). So two nets side by side are as far away from their
normal form as they are one after the other (`RuleSet.IsAway.parallel`,
`RuleSet.IsAway.of_parallel`), and reducing them comes to the normal forms side by side
(`Reducer.reduce_parallel`).
-/

namespace InteractionNets

open Net RuleSet Combinators

namespace Net

variable {net other both after : Net} {rules : RuleSet} {agents : Side → AgentId}
  {labels labels' ls : List (PortId × Nat)}

/-! ### One of two nets -/

theorem not_diagram_hasClash : ¬ (net.diagram labels).HasClash := by
  rintro ⟨i, j, -, hij⟩
  exact not_diagram_joined_places i j hij

/-- The places that are labelled after an interaction were labelled before. -/
private theorem exists_label_of_rewrite {rule : Rule} {f : AgentId ⊕ AgentId → AgentId}
    {g : AgentId → AgentId ⊕ AgentId} (hafter : after.WellFormed) (hls : after.IsLabelling ls)
    (hfg : (net.rewritten rule agents labels).IsIso (after.diagram ls) f g) {p : PortId} {i : Nat}
    (hi : (p, i) ∈ ls) : ∃ q, (q, i) ∈ labels := by
  obtain ⟨a, k, hp⟩ :=
    hafter.port?_isSome_iff.1 (hafter.isSome_of_mem_interface (hls.mem_interface hi))
  have hjoined : (after.diagram ls).joined (.place i) (.port a k) := .exposed hi hp
  obtain ⟨z, hz⟩ := Diagram.exists_joined_place_of_rewrite (hfg.backward.joined hjoined)
  exact exists_label_of_joined hz

section Beside

variable (h : net.WellFormed) (hboth : both.WellFormed) (hrules : rules.Lawful)
  (hl : net.IsLabelling labels) (hls : both.IsLabelling ls) {f : AgentId ⊕ AgentId → AgentId}
  {g : AgentId → AgentId ⊕ AgentId}
  (hfg : ((net.diagram labels).beside (other.diagram labels')).IsIso (both.diagram ls) f g)

include h hboth hrules hl hls hfg

/-- **What interacts in one of two nets interacts in both**, and the other net stays as it is. -/
theorem Interacts.exists_beside (hother : other.WellFormed) (hl' : other.IsLabelling labels')
    (hapart : ∀ {p q i}, (p, i) ∈ labels → (q, i) ∉ labels')
    (hi : net.Interacts rules agents after) :
    ∃ l l' agents' next, after.IsLabelling l ∧ (∀ {p i}, (p, i) ∈ l → ∃ q, (q, i) ∈ labels) ∧
      both.Interacts rules agents' next ∧ next.IsLabelling l' ∧
      ((after.diagram l).beside (other.diagram labels')).Isomorphic (next.diagram l') := by
  obtain ⟨rule, roles, hrule, hsame, hr⟩ := hi.exists_rule
  have hd : (net.diagram labels).IsRedex rule roles := diagram_isRedex_iff.2 hr
  obtain ⟨-, l, p, q, hlabels, hpq, -⟩ := hi.exists_isIso h hrules hrule hsame hr hl
  have hsub : ∀ {p i}, (p, i) ∈ l → ∃ q, (q, i) ∈ labels :=
    exists_label_of_rewrite hi.wellFormed hlabels hpq
  have hmatching : ((after.diagram l).beside (other.diagram labels')).IsMatching := by
    refine .beside (hi.wellFormed.isMatching_diagram hlabels) (hother.isMatching_diagram hl') ?_
    intro i x y hx hy
    obtain ⟨_, hi'⟩ := exists_label_of_joined hx
    obtain ⟨_, hi₁⟩ := hsub hi'
    obtain ⟨_, hi₂⟩ := exists_label_of_joined hy
    exact hapart hi₁ hi₂
  -- rewriting one of the two diagrams is rewriting both
  have hafter := hpq.forward.beside (Diagram.Embeds.refl (other.diagram labels'))
  have hone := (hafter.isMatching hmatching).rewrite_beside
  have hd' := Diagram.isRedex_beside_iff (E := other.diagram labels').2 hd
  have hr' : both.IsRedex rule (f ∘ .inl ∘ roles) :=
    diagram_isRedex_iff.1 (hfg.forward.isRedex hd')
  have hiso : ((after.diagram l).beside (other.diagram labels')).Isomorphic
      (both.rewritten rule (f ∘ .inl ∘ roles) ls) :=
    (Diagram.Isomorphic.beside ⟨_, _, hpq.symm⟩ (.refl _)).trans (hone.trans
      ⟨_, _, hfg.rewrite ⟨.refl _, .refl _⟩ hd'.meets.isSome_symbol fun _ => rfl⟩)
  have hclash : ¬ (both.rewritten rule (f ∘ .inl ∘ roles) ls).HasClash := by
    rw [← hiso.hasClash_iff]
    exact fun hclash => hclash.of_beside.elim not_diagram_hasClash not_diagram_hasClash
  obtain ⟨next, hi'⟩ := exists_interacts hboth hrules hrule (.refl _) hr' hls hclash
  obtain ⟨-, l', p', q', hl', hpq', -⟩ :=
    hi'.exists_isIso hboth hrules hrule (.refl _) hr' hls
  exact ⟨l, l', _, next, hlabels, hsub, hi', hl', hiso.trans ⟨_, _, hpq'⟩⟩

/-- Agents of one net that meet do so in both, and if they can interact there, they can on their
own. -/
theorem Meets.exists_beside (hm : net.Meets agents) : ∃ agents', both.Meets agents' ∧
    ∀ next, both.Interacts rules agents' next → ∃ after, net.Interacts rules agents after := by
  have hmeets : both.Meets (f ∘ .inl ∘ agents) := by
    have hd := (Diagram.embeds_beside (net.diagram labels) (other.diagram labels')
      (agents .left)).meets (diagram_meets_iff.2 hm)
    exact diagram_meets_iff.1 (hfg.forward.meets hd)
  refine ⟨_, hmeets, fun next hi => ?_⟩
  obtain ⟨rule, roles, hrule, hsame, hr⟩ := hi.exists_rule
  obtain ⟨roles, hroles, rfl⟩ : ∃ roles₀, SamePair agents roles₀ ∧ roles = f ∘ .inl ∘ roles₀ := by
    rcases hsame with rfl | rfl
    · exact ⟨agents, .refl _, rfl⟩
    · exact ⟨agents ∘ Side.flip, .inr rfl, rfl⟩
  have hm' : (net.diagram labels).Meets roles := diagram_meets_iff.2 (hm.samePair hroles)
  have hembeds := Diagram.embeds_beside (net.diagram labels) (other.diagram labels') (agents .left)
  have hd : (net.diagram labels).IsRedex rule roles := by
    rw [← Diagram.isRedex_beside_iff, hfg.isRedex_iff (hembeds.meets hm')]
    exact diagram_isRedex_iff.2 hr
  refine exists_interacts h hrules hrule hroles (diagram_isRedex_iff.1 hd) hl fun hclash => ?_
  have hone := hembeds.rewrite (.refl rule.template) hm'.isSome_symbol fun _ => rfl
  have htwo := hfg.forward.rewrite (.refl rule.template) (hembeds.meets hm').isSome_symbol
    fun _ => rfl
  exact (hi.exists_isIso hboth hrules hrule hsame hr hls).1 (htwo.hasClash (hone.hasClash hclash))

end Beside

/-! ### Nets side by side -/

section Parallel

variable (h : net.WellFormed) (hother : other.WellFormed)

include h hother

/-- Two nets side by side are in normal form when both of them are. -/
theorem isNormal_parallel (hnormal : net.isNormal) (hnormal' : other.isNormal) :
    (net.parallel other).isNormal := by
  have hnone : ∀ {net : Net} {labels : List (PortId × Nat)}, net.WellFormed → net.isNormal →
      ¬ ∃ agents, (net.diagram labels).Meets agents := by
    rintro net labels h hnormal ⟨agents, hm⟩
    obtain ⟨pair, hpair, -⟩ := exists_pair_of_meets h (diagram_meets_iff.1 hm)
    exact isNormal_iff.1 hnormal pair hpair
  obtain ⟨both, f, g, -, hfg⟩ := exists_isIso_parallel_zipIdx h hother rfl
  refine isNormal_iff.2 fun pair hpair => ?_
  have hm := meets_of_mem_activePairs (h.parallel hother) hpair
  have hmeets := hfg.backward.meets (diagram_meets_iff.2 hm)
  exact hmeets.of_beside.elim (hnone h hnormal) (hnone hother hnormal')

variable (hrules : rules.Lawful)

include hrules

theorem Interacts.parallel_left (hi : net.Interacts rules agents after) :
    ∃ agents' next, (net.parallel other).Interacts rules agents' next ∧
      (after.parallel other).Isomorphic next := by
  have hl := net.isLabelling_zipIdx
  have hl' := other.isLabelling_zipIdx_add net.interface.length
  obtain ⟨both, f, g, hboth, hfg⟩ := exists_isIso_parallel_zipIdx h hother rfl
  obtain ⟨l, l', agents', next, hlabels, hsub, hi', hlabels', hiso⟩ :=
    hi.exists_beside h (h.parallel hother) hrules hl hboth hfg hother hl'
      fun hi hj => (lt_of_mem_zipIdx rfl hi hj).false
  obtain ⟨both', p, q, hboth', hpq⟩ := exists_isIso_parallel hi.wellFormed hother hlabels hl'
    fun hi hj => (hsub hi).elim fun _ hi' => lt_of_mem_zipIdx rfl hi' hj
  exact ⟨agents', next, hi', (hi.wellFormed.parallel hother).isomorphic_of_diagram hi'.wellFormed
    hboth' hlabels' (Diagram.Isomorphic.trans ⟨_, _, hpq.symm⟩ hiso)⟩

theorem Interacts.parallel_right (hi : other.Interacts rules agents after) :
    ∃ agents' next, (net.parallel other).Interacts rules agents' next ∧
      (net.parallel after).Isomorphic next := by
  have hl := net.isLabelling_zipIdx
  have hl' := other.isLabelling_zipIdx_add net.interface.length
  obtain ⟨both, f, g, hboth, hfg⟩ := exists_isIso_parallel_zipIdx h hother rfl
  obtain ⟨l, l', agents', next, hlabels, hsub, hi', hlabels', hiso⟩ :=
    hi.exists_beside hother (h.parallel hother) hrules hl' hboth
      ((Diagram.isIso_beside_swap _ _).trans hfg) h hl
      fun hj hi => (lt_of_mem_zipIdx rfl hi hj).false
  obtain ⟨both', p, q, hboth', hpq⟩ := exists_isIso_parallel h hi.wellFormed hl hlabels
    fun hi hj => (hsub hj).elim fun _ hj' => lt_of_mem_zipIdx rfl hi hj'
  have hswap := (Diagram.isIso_beside_swap (net.diagram net.interface.zipIdx) (after.diagram l))
  exact ⟨agents', next, hi', (h.parallel hi.wellFormed).isomorphic_of_diagram hi'.wellFormed
    hboth' hlabels' (Diagram.Isomorphic.trans ⟨_, _, hpq.symm.trans hswap⟩ hiso)⟩

theorem Meets.parallel_left (hm : net.Meets agents) :
    ∃ agents', (net.parallel other).Meets agents' ∧
      ∀ next, (net.parallel other).Interacts rules agents' next →
        ∃ after, net.Interacts rules agents after := by
  obtain ⟨both, f, g, hboth, hfg⟩ := exists_isIso_parallel_zipIdx h hother rfl
  exact hm.exists_beside h (h.parallel hother) hrules net.isLabelling_zipIdx hboth hfg

theorem Meets.parallel_right (hm : other.Meets agents) :
    ∃ agents', (net.parallel other).Meets agents' ∧
      ∀ next, (net.parallel other).Interacts rules agents' next →
        ∃ after, other.Interacts rules agents after := by
  obtain ⟨both, f, g, hboth, hfg⟩ := exists_isIso_parallel_zipIdx h hother rfl
  exact hm.exists_beside hother (h.parallel hother) hrules (other.isLabelling_zipIdx_add _) hboth
    ((Diagram.isIso_beside_swap _ _).trans hfg)

end Parallel

end Net

/-! ### Ways to the normal forms -/

namespace RuleSet.IsAway

variable {rules : RuleSet} {net other normal normal' : Net} {m n : Nat} (hrules : rules.Lawful)

include hrules

/-- **Two nets side by side are as far away** from their normal forms as both of them together. -/
theorem parallel (haway : rules.IsAway normal m net) (haway' : rules.IsAway normal' n other) :
    rules.IsAway (normal.parallel normal') (m + n) (net.parallel other) := by
  have h := haway.wellFormed
  have hother := haway'.wellFormed
  induction m generalizing net with
  | succ m ih =>
    obtain ⟨agents, after, hi, hleft⟩ := haway.exists_interacts_of_succ
    obtain ⟨agents', next, hnext, hiso⟩ := hi.parallel_left h hother hrules
    rw [Nat.add_right_comm]
    exact of_interacts (h.parallel hother) hnext
      ((ih hleft hleft.wellFormed).of_isomorphic hrules hnext.wellFormed hiso)
  | zero =>
    induction n generalizing other with
    | succ n ih =>
      obtain ⟨agents, after, hi, hleft⟩ := haway'.exists_interacts_of_succ
      obtain ⟨agents', next, hnext, hiso⟩ := hi.parallel_right h hother hrules
      exact of_interacts (h.parallel hother) hnext
        ((ih hleft hleft.wellFormed).of_isomorphic hrules hnext.wellFormed hiso)
    | zero =>
      obtain ⟨-, hnormal, hdone, -⟩ := id haway
      obtain ⟨-, hnormal', hdone', -⟩ := id haway'
      exact (self (hnormal.parallel hnormal') (isNormal_parallel hnormal hnormal' hdone hdone'))
        |>.of_isomorphic hrules (h.parallel hother)
          (haway.isomorphic.parallel hnormal hnormal' h hother haway'.isomorphic)

/-- Agents that meet in one of two nets interact there on their own, when what interacts in both
nets comes from the one, and goes back to both. -/
theorem exists_of_both {one both last : Net} {agents agents' : Side → AgentId} {join : Net → Net}
    (haway : rules.IsAway last n both) (hm : both.Meets agents')
    (hback : ∀ next, both.Interacts rules agents' next → ∃ after, one.Interacts rules agents after)
    (hforth : ∀ {after}, one.Interacts rules agents after →
      ∃ roles next, both.Interacts rules roles next ∧ (join after).Isomorphic next)
    (hjoin : ∀ {after}, after.WellFormed → (join after).WellFormed) :
    ∃ m after, n = m + 1 ∧ one.Interacts rules agents after ∧
      rules.IsAway last m (join after) := by
  obtain ⟨_, next, -, hnext, -⟩ := haway.exists_interacts hrules hm
  obtain ⟨after, hi⟩ := hback next hnext
  obtain ⟨_, next', hnext', hiso⟩ := hforth hi
  obtain ⟨m, rfl, hleft⟩ := haway.of_interacts_left hrules hnext'
  have hafter := hjoin hi.wellFormed
  exact ⟨m, after, rfl, hi, hleft.of_isomorphic hrules hafter
    (hafter.isomorphic_symm hnext'.wellFormed hiso)⟩

section Converse

variable {last : Net} {agents : Side → AgentId} (h : net.WellFormed) (hother : other.WellFormed)
  (haway : rules.IsAway last n (net.parallel other))

include h hother haway

/-- Agents of the left net that meet interact also on their own. -/
theorem exists_parallel_left (hm : net.Meets agents) :
    ∃ m after, n = m + 1 ∧ net.Interacts rules agents after ∧
      rules.IsAway last m (after.parallel other) := by
  obtain ⟨agents', hm', hback⟩ := hm.parallel_left h hother hrules
  exact exists_of_both hrules haway hm' hback (fun hi => hi.parallel_left h hother hrules)
    fun hafter => hafter.parallel hother

/-- Agents of the right net that meet interact also on their own. -/
theorem exists_parallel_right (hm : other.Meets agents) :
    ∃ m after, n = m + 1 ∧ other.Interacts rules agents after ∧
      rules.IsAway last m (net.parallel after) := by
  obtain ⟨agents', hm', hback⟩ := hm.parallel_right h hother hrules
  exact exists_of_both hrules haway hm' hback (fun hi => hi.parallel_right h hother hrules)
    fun hafter => h.parallel hafter

/-- **When two nets side by side have a normal form**, both of them have one. -/
theorem of_parallel : ∃ k m normal normal', k + m = n ∧ rules.IsAway normal k net ∧
    rules.IsAway normal' m other := by
  induction n generalizing net other with
  | zero =>
    have hnone : ∀ {agents}, ¬ (net.Meets agents ∨ other.Meets agents) := by
      rintro agents (hm | hm)
      · obtain ⟨m, -, hlength, -⟩ := exists_parallel_left hrules h hother haway hm
        exact Nat.succ_ne_zero m hlength.symm
      · obtain ⟨m, -, hlength, -⟩ := exists_parallel_right hrules h hother haway hm
        exact Nat.succ_ne_zero m hlength.symm
    have hnormal := (rewriting_isNormal_iff rules h).1 fun agents hm => hnone (.inl hm)
    have hnormal' := (rewriting_isNormal_iff rules hother).1 fun agents hm => hnone (.inr hm)
    exact ⟨0, 0, net, other, rfl, self h hnormal, self hother hnormal'⟩
  | succ n ih =>
    -- as the nets side by side are not done, one of them is not
    have hsome : ¬ (net.isNormal ∧ other.isNormal) := by
      rintro ⟨hnormal, hnormal'⟩
      exact Nat.succ_ne_zero n
        ((haway.isNormal_iff hrules).1 (isNormal_parallel h hother hnormal hnormal'))
    rw [← rewriting_isNormal_iff rules h, ← rewriting_isNormal_iff rules hother] at hsome
    by_cases hleft : ∃ agents, net.Meets agents
    · obtain ⟨agents, hm⟩ := hleft
      obtain ⟨n, after, hlength, hi, hrest⟩ := exists_parallel_left hrules h hother haway hm
      obtain rfl := Nat.succ.inj hlength
      obtain ⟨k, m, normal, normal', rfl, hk, hm⟩ := ih hi.wellFormed hother hrest
      exact ⟨k + 1, m, normal, normal', Nat.add_right_comm k 1 m, of_interacts h hi hk, hm⟩
    · have hright : ∃ agents, other.Meets agents := by
        by_contra hnone
        exact hsome ⟨fun agents hm => hleft ⟨agents, hm⟩, fun agents hm => hnone ⟨agents, hm⟩⟩
      obtain ⟨agents, hm⟩ := hright
      obtain ⟨n, after, hlength, hi, hrest⟩ := exists_parallel_right hrules h hother haway hm
      obtain rfl := Nat.succ.inj hlength
      obtain ⟨k, m, normal, normal', rfl, hk, hm⟩ := ih h hi.wellFormed hrest
      exact ⟨k, m + 1, normal, normal', rfl, hk, of_interacts hother hi hm⟩

end Converse

end RuleSet.IsAway

/-! ### Reducing nets side by side -/

namespace Reducer

/-- **Reduction is compositional.** When two nets reduce to normal forms, the two nets side by side
reduce to the normal forms side by side, in as many interactions as both take, with whatever fuel
there is for that many. And when the two nets side by side reduce to a normal form, both of them
do, with the same fuel. -/
theorem reduce_parallel {rules : RuleSet} (haccepted : ∀ rule ∈ rules.rules, rule.Accepted)
    (hconfluent : rules.isConfluent) {left right : Net} (h : left.WellFormed)
    (hother : right.WellFormed) (watch watch' watch'' : Stopwatch) :
    (∀ fuel fuel' m n left' right',
      ((Reducer.mk rules watch).reduce fuel).run left = (.ok (some ⟨.normalForm, m⟩), left') →
      ((Reducer.mk rules watch').reduce fuel').run right =
        (.ok (some ⟨.normalForm, n⟩), right') →
      ∀ fuel'', m + n ≤ fuel'' → ∃ both,
        ((Reducer.mk rules watch'').reduce fuel'').run (left.parallel right) =
          (.ok (some ⟨.normalForm, m + n⟩), both) ∧ (left'.parallel right').Isomorphic both) ∧
    ∀ fuel k both,
      ((Reducer.mk rules watch'').reduce fuel).run (left.parallel right) =
        (.ok (some ⟨.normalForm, k⟩), both) →
      ∃ m n left' right', m + n = k ∧
        ((Reducer.mk rules watch).reduce fuel).run left = (.ok (some ⟨.normalForm, m⟩), left') ∧
        ((Reducer.mk rules watch').reduce fuel).run right =
          (.ok (some ⟨.normalForm, n⟩), right') := by
  have hrules := lawful_of_isConfluent haccepted hconfluent
  constructor
  · intro fuel fuel' m n left' right' hleft hright fuel'' hfuel
    obtain ⟨-, haway⟩ := isAway_of_reduce hrules h hleft
    obtain ⟨-, haway'⟩ := isAway_of_reduce hrules hother hright
    obtain ⟨both, hrun, hleft⟩ :=
      exists_reduce (r := ⟨rules, watch''⟩) hrules (haway.parallel hrules haway') fuel''
    rw [Nat.sub_eq_zero_of_le hfuel] at hleft
    rw [if_pos hfuel] at hrun
    exact ⟨both, hrun, hleft.isomorphic⟩
  · intro fuel k both hboth
    obtain ⟨hfuel, haway⟩ := isAway_of_reduce hrules (h.parallel hother) hboth
    obtain ⟨m, n, _, _, rfl, hm, hn⟩ := IsAway.of_parallel hrules h hother haway
    obtain ⟨left', hleft, -⟩ := exists_reduce (r := ⟨rules, watch⟩) hrules hm fuel
    obtain ⟨right', hright, -⟩ := exists_reduce (r := ⟨rules, watch'⟩) hrules hn fuel
    rw [if_pos (Nat.le_trans (Nat.le_add_right m n) hfuel)] at hleft
    rw [if_pos (Nat.le_trans (Nat.le_add_left n m) hfuel)] at hright
    exact ⟨m, n, left', right', rfl, hleft, hright⟩

/-- Two erasers that face each other, beside two others, are gone after two interactions, and so
each two of them are on their own. -/
theorem reduce_parallel_facing_epsilon :
    (∃ both, ((Reducer.mk annihilation .stopped).reduce 2).run
        ((facing epsilon epsilon).parallel (facing epsilon epsilon)) =
          (.ok (some ⟨.normalForm, 2⟩), both) ∧
      ((((Reducer.mk annihilation .stopped).reduce 1).run (facing epsilon epsilon)).2.parallel
        (((Reducer.mk annihilation .stopped).reduce 1).run
          (facing epsilon epsilon)).2).Isomorphic both) ∧
    ∃ m n left right, m + n = 2 ∧
      ((Reducer.mk annihilation .stopped).reduce 2).run (facing epsilon epsilon) =
        (.ok (some ⟨.normalForm, m⟩), left) ∧
      ((Reducer.mk annihilation .stopped).reduce 2).run (facing epsilon epsilon) =
        (.ok (some ⟨.normalForm, n⟩), right) := by
  have h := wellFormed_facing epsilon epsilon
  have hconfluent : annihilation.isConfluent := by decide +kernel
  have hall := reduce_parallel accepted_annihilation hconfluent h h .stopped .stopped .stopped
  have hboth := hall.1 1 1 1 1 _ _ rfl rfl 2 (Nat.le_refl 2)
  obtain ⟨both, hrun, -⟩ := id hboth
  exact ⟨hboth, hall.2 2 2 both hrun⟩

end Reducer

end InteractionNets
