import InteractionNets.Proofs.Redex.Exchange
import InteractionNets.Proofs.Rewriting

/-!
# Confluence

Reduction by the rules of a set that passes the check for confluence does not depend on the order in
which active pairs interact. Interactions of different pairs can be exchanged, so the nets with
their pairs of agents that meet commute up to isomorphism (`RuleSet.Lawful.commutes`). Hence one way
to a normal form settles all the others: no interaction on them fails, they are equally long, and
they lead to isomorphic nets. How many interactions a net is away from its normal form
(`RuleSet.IsAway`) is a property of the net that every interaction decreases by one.
-/

namespace InteractionNets

open Net Combinators

/-- The interactions by the rules of a set, as a rewriting of well-formed nets. Any two agents that
meet are a redex, also without a rule. -/
def RuleSet.rewriting (rules : RuleSet) :
    Rewriting {net : Net // net.WellFormed} (Side → AgentId) where
  IsRedex net agents := net.1.Meets agents
  Fires net agents after := net.1.Interacts rules agents after.1

/-- A number of interactions one after another, each of an active pair of the net as it is then, by
the rule that the set has for the pair. -/
inductive RuleSet.Reduces (rules : RuleSet) : Nat → Net → Net → Prop
  | refl (net : Net) : Reduces rules 0 net net
  | step {n : Nat} {net next last : Net} {pair : ActivePair} {rule : Rule} {watch : Stopwatch} :
      pair ∈ net.activePairs → rules.ruleFor pair = some rule →
      net.interact watch rule pair = (.ok (), next) → Reduces rules n next last →
      Reduces rules (n + 1) net last

/-- Reductions are made one after another. -/
theorem RuleSet.Reduces.trans {rules : RuleSet} {m n : Nat} {net mid last : Net}
    (h : rules.Reduces m net mid) (h' : rules.Reduces n mid last) :
    rules.Reduces (m + n) net last := by
  induction h with
  | refl => rwa [Nat.zero_add]
  | step hpair hfor hnext _ ih =>
    rw [Nat.add_right_comm]
    exact .step hpair hfor hnext (ih h')

variable {net other after : Net} {rules : RuleSet} {agents : Side → AgentId}

namespace Net

/-- What two agents become is determined up to isomorphism. -/
theorem Interacts.isomorphic (h : net.WellFormed) (hrules : rules.Lawful)
    (hi : net.Interacts rules agents after) {after' : Net}
    (hi' : net.Interacts rules agents after') : after.Isomorphic after' := by
  obtain ⟨rule, roles, hrule, hsame, hr⟩ := hi.exists_rule
  have hl := net.isLabelling_zipIdx
  obtain ⟨-, ls, f, g, hls, hfg, -⟩ := hi.exists_isIso h hrules hrule hsame hr hl
  obtain ⟨-, ls', f', g', hls', hfg', -⟩ := hi'.exists_isIso h hrules hrule hsame hr hl
  exact hi.wellFormed.isomorphic_of_diagram hi'.wellFormed hls hls' ⟨_, _, hfg.symm.trans hfg'⟩

/-- Agents that can interact do so as an active pair. -/
theorem Interacts.exists_reduces (h : net.WellFormed) (hrules : rules.Lawful)
    (hi : net.Interacts rules agents after) :
    ∃ next, rules.Reduces 1 net next ∧ net.Interacts rules agents next := by
  obtain ⟨pair, hpair, hsame⟩ := exists_pair_of_meets h hi.meets
  obtain ⟨rule, hfor, hok⟩ := exists_interact h hrules hpair (hi.samePair hsame)
  obtain ⟨next, hnext⟩ := hok .stopped
  exact ⟨next, .step hpair hfor hnext (.refl next),
    (interacts_of_interact h hrules hpair hfor hnext).samePair hsame.symm⟩

end Net

namespace RuleSet

/-- A net is in normal form when no agents meet. -/
theorem rewriting_isNormal_iff (rules : RuleSet) (h : net.WellFormed) :
    rules.rewriting.IsNormal ⟨net, h⟩ ↔ net.isNormal := by
  rw [isNormal_iff]
  constructor
  · exact fun hnormal pair hpair => hnormal pair.ends (meets_of_mem_activePairs h hpair)
  · intro hnormal agents hm
    obtain ⟨pair, hpair, -⟩ := exists_pair_of_meets h hm
    exact hnormal pair hpair

namespace Lawful

variable (hrules : rules.Lawful)

include hrules

/-- **Interactions commute up to isomorphism.** -/
theorem commutes : rules.rewriting.Commutes fun net other => net.1.Isomorphic other.1 where
  isEquivalence :=
    { refl := fun net => net.2.isomorphic_refl
      symm := fun {net other} hiso => net.2.isomorphic_symm other.2 hiso
      trans := fun {net other last} hiso hiso' => net.2.isomorphic_trans other.2 last.2 hiso hiso' }
  isRedex := Interacts.meets
  fires_unique := fun {net _ _ _} hi hi' => hi.isomorphic net.2 hrules hi'
  exists_redex := by
    rintro ⟨net, h⟩ ⟨other, hother⟩ agents hiso hm
    obtain ⟨f, g, hfg⟩ := (h.isomorphic_iff hother).1 hiso
    have hd : (net.diagram net.interface.zipIdx).Meets agents := diagram_meets_iff.2 hm
    have hl := net.isLabelling_zipIdx
    have hl' := other.isLabelling_zipIdx
    have hback : g ∘ (f ∘ agents) = agents :=
      funext fun side => hfg.forward.inverse (hd.isSome_symbol side)
    refine ⟨f ∘ agents, diagram_meets_iff.1 (hfg.forward.meets hd), ?_, ?_⟩
    · rintro ⟨after, hafter⟩ hi
      obtain ⟨after', hi', hiso'⟩ := Interacts.exists_of_isIso h hrules hother hl hl' hfg hi
      exact ⟨⟨after', hi'.wellFormed⟩, hi', hiso'⟩
    · rintro ⟨after', hafter'⟩ hi'
      obtain ⟨after, hi, hiso'⟩ :=
        Interacts.exists_of_isIso hother hrules h hl' hl hfg.symm hi'
      rw [hback] at hi
      exact ⟨⟨after, hi.wellFormed⟩, hi, hafter'.isomorphic_symm hi.wellFormed hiso'⟩
  diamond := by
    rintro ⟨net, h⟩ ⟨after, hafter⟩ agents agents' hi hm
    by_cases hcommon : ∃ side side', agents side = agents' side'
    · -- agents with one in common are the same pair
      obtain ⟨side, side', heq⟩ := hcommon
      have hsame := hi.meets.samePair_of_eq h hm heq
      exact .inl ⟨⟨after, hafter⟩, hi.samePair hsame, hafter.isomorphic_refl⟩
    · have hdisjoint : ∀ side side', agents side ≠ agents' side' :=
        fun side side' heq => hcommon ⟨side, side', heq⟩
      refine .inr ⟨agents', (hi.meets_and_isRedex_iff h hrules hdisjoint hm).1, ?_⟩
      rintro ⟨last, hlast⟩ hi'
      obtain ⟨after', last', hfirst, hsecond, hiso⟩ := hi.exchange h hrules hdisjoint hm hi'
      exact ⟨⟨after', hfirst.wellFormed⟩, agents, ⟨last', hsecond.wellFormed⟩, hfirst, hsecond,
        hiso⟩

/-- Interactions one after another are steps of the rewriting. -/
theorem steps_of_reduces (h : net.WellFormed) {n : Nat} {last : Net}
    (hreduces : rules.Reduces n net last) :
    ∃ hlast : last.WellFormed, rules.rewriting.Steps n ⟨net, h⟩ ⟨last, hlast⟩ := by
  induction hreduces with
  | refl net => exact ⟨h, .refl _⟩
  | @step n net next last pair rule watch hpair hfor hok _ ih =>
    have hi := interacts_of_interact h hrules hpair hfor hok
    have hfires : rules.rewriting.Fires ⟨net, h⟩ pair.ends ⟨next, hi.wellFormed⟩ := hi
    obtain ⟨hlast, hsteps⟩ := ih hi.wellFormed
    exact ⟨hlast, .cons hfires hsteps⟩

end Lawful

/-! ### Ways to a normal form -/

/-- A well-formed net is a number of interactions away from a normal form, up to isomorphism. -/
def IsAway (rules : RuleSet) (normal : Net) (n : Nat) (net : Net) : Prop :=
  ∃ (h : net.WellFormed) (hnormal : normal.WellFormed), normal.isNormal ∧
    rules.rewriting.Leads (fun net other => net.1.Isomorphic other.1) n ⟨net, h⟩ ⟨normal, hnormal⟩

namespace IsAway

variable {n k : Nat} {normal last : Net}

theorem wellFormed (haway : rules.IsAway normal n net) : net.WellFormed := by
  obtain ⟨h, -⟩ := haway
  exact h

/-- A net in normal form is no interactions away from it. -/
theorem self (h : net.WellFormed) (hnormal : net.isNormal) : rules.IsAway net 0 net :=
  ⟨h, h, hnormal, _, .refl _, h.isomorphic_refl⟩

theorem isomorphic (haway : rules.IsAway normal 0 net) : normal.Isomorphic net := by
  obtain ⟨h, hnormal, -, final, hsteps, hiso⟩ := haway
  obtain _ | _ := hsteps
  exact hiso

/-- An interaction leads to what the rest of the way leads to. -/
theorem of_interacts (h : net.WellFormed) (hi : net.Interacts rules agents after)
    (haway : rules.IsAway normal n after) : rules.IsAway normal (n + 1) net := by
  obtain ⟨hafter, hnormal, hdone, final, hsteps, hiso⟩ := haway
  have hfires : rules.rewriting.Fires ⟨net, h⟩ agents ⟨after, hafter⟩ := hi
  exact ⟨h, hnormal, hdone, final, .cons hfires hsteps, hiso⟩

/-- A way that is not done starts with an interaction. -/
theorem exists_interacts_of_succ (haway : rules.IsAway normal (n + 1) net) :
    ∃ agents next, net.Interacts rules agents next ∧ rules.IsAway normal n next := by
  obtain ⟨h, hnormal, hdone, final, hsteps, hiso⟩ := haway
  cases hsteps with
  | @cons _ agents _ next _ hfires hrest =>
    exact ⟨agents, next.1, hfires, next.2, hnormal, hdone, final, hrest, hiso⟩

variable (hrules : rules.Lawful)

include hrules

theorem of_isomorphic (hother : other.WellFormed) (haway : rules.IsAway normal n net)
    (hiso : net.Isomorphic other) : rules.IsAway normal n other := by
  obtain ⟨h, hnormal, hdone, hlead⟩ := haway
  have hequiv : (⟨net, h⟩ : {net : Net // net.WellFormed}).1.Isomorphic
      (⟨other, hother⟩ : {net : Net // net.WellFormed}).1 := hiso
  exact ⟨hother, hnormal, hdone, hrules.commutes.leads_of_equiv hlead hequiv⟩

/-- Tallies do not matter. -/
theorem withTally_iff (h : net.WellFormed) (tally : Tally) :
    rules.IsAway normal n { net with tally := tally } ↔ rules.IsAway normal n net := by
  have hiso := h.isomorphic_withTally tally
  have htally := h.withTally tally
  constructor
  · exact fun haway => haway.of_isomorphic hrules h (h.isomorphic_symm htally hiso)
  · exact fun haway => haway.of_isomorphic hrules htally hiso

omit hrules in
/-- The tally of the normal form does not matter either. -/
theorem to_withTally (haway : rules.IsAway normal n net) (tally : Tally) :
    rules.IsAway { normal with tally := tally } n net := by
  obtain ⟨h, hnormal, hdone, final, hsteps, hiso⟩ := haway
  have htally := hnormal.withTally tally
  have hsame : { normal with tally := tally }.Isomorphic final.1 :=
    htally.isomorphic_trans hnormal final.2
      (hnormal.isomorphic_symm htally (hnormal.isomorphic_withTally tally)) hiso
  exact ⟨h, htally, hdone, final, hsteps, hsame⟩

theorem of_reduces (h : net.WellFormed) (hreduces : rules.Reduces n net normal)
    (hdone : normal.isNormal) : rules.IsAway normal n net := by
  obtain ⟨hnormal, hsteps⟩ := hrules.steps_of_reduces h hreduces
  exact ⟨h, hnormal, hdone, _, hsteps, hnormal.isomorphic_refl⟩

/-- Interactions use up the way to the normal form. -/
theorem reduces (haway : rules.IsAway normal n net) (hway : rules.Reduces k net last) :
    ∃ m, k + m = n ∧ rules.IsAway normal m last := by
  obtain ⟨h, hnormal, hdone, hlead⟩ := haway
  obtain ⟨hlast, hsteps⟩ := hrules.steps_of_reduces h hway
  obtain ⟨m, hlength, hlead'⟩ := hrules.commutes.leads_of_steps hlead
    ((rewriting_isNormal_iff rules hnormal).2 hdone) hsteps
  exact ⟨m, hlength, hlast, hnormal, hdone, hlead'⟩

theorem isNormal_iff (haway : rules.IsAway normal n net) : net.isNormal ↔ n = 0 := by
  obtain ⟨h, hnormal, hdone, hlead⟩ := haway
  rw [← rewriting_isNormal_iff rules h]
  exact hrules.commutes.isNormal_iff_of_leads hlead
    ((rewriting_isNormal_iff rules hnormal).2 hdone)

/-- On the way to a normal form, any agents that meet can interact, and are then one interaction
closer. -/
theorem exists_interacts (haway : rules.IsAway normal n net) (hm : net.Meets agents) :
    ∃ m next, n = m + 1 ∧ net.Interacts rules agents next ∧ rules.IsAway normal m next := by
  obtain ⟨h, hnormal, hdone, hlead⟩ := haway
  have hm' : rules.rewriting.IsRedex ⟨net, h⟩ agents := hm
  obtain ⟨m, next, hlength, hi, hlead'⟩ := hrules.commutes.exists_fires hlead
    ((rewriting_isNormal_iff rules hnormal).2 hdone) hm'
  exact ⟨m, next.1, hlength, hi, next.2, hnormal, hdone, hlead'⟩

theorem of_interacts_left (haway : rules.IsAway normal n net)
    (hi : net.Interacts rules agents after) : ∃ m, n = m + 1 ∧ rules.IsAway normal m after := by
  obtain ⟨m, next, rfl, hnext, haway'⟩ := haway.exists_interacts hrules hi.meets
  exact ⟨m, rfl, haway'.of_isomorphic hrules hi.wellFormed
    (hnext.isomorphic haway.wellFormed hrules hi)⟩

/-- **Nothing fails on the way to a normal form.** Every active pair has a rule and interacts. -/
theorem exists_interact (haway : rules.IsAway normal n net) {pair : ActivePair}
    (hpair : pair ∈ net.activePairs) : ∃ rule, rules.ruleFor pair = some rule ∧
      ∀ watch, ∃ next, net.interact watch rule pair = (.ok (), next) := by
  have h := haway.wellFormed
  obtain ⟨-, next, -, hi, -⟩ := haway.exists_interacts hrules (meets_of_mem_activePairs h hpair)
  exact Net.exists_interact h hrules hpair hi

end IsAway

/-- **Confluence with equal lengths.** When some interactions from a net reach a normal form, then
whatever pairs interact in an isomorphic net, none of the interactions is refused, there are no more
of them than on the first way, and a normal form is reached after exactly as many and is
isomorphic. -/
theorem confluent_of_isConfluent (haccepted : ∀ rule ∈ rules.rules, rule.Accepted)
    (hconfluent : rules.isConfluent) (h : net.WellFormed) (hother : other.WellFormed)
    (hiso : net.Isomorphic other) {n : Nat} {normal : Net} (hreduces : rules.Reduces n net normal)
    (hnormal : normal.isNormal) {k : Nat} {last : Net} (hway : rules.Reduces k other last) :
    k ≤ n ∧
      (∀ pair ∈ last.activePairs, ∃ rule, rules.ruleFor pair = some rule ∧
        ∀ watch, ∃ next, last.interact watch rule pair = (.ok (), next)) ∧
      (last.isNormal → k = n ∧ normal.Isomorphic last) := by
  have hrules := lawful_of_isConfluent haccepted hconfluent
  have haway := (IsAway.of_reduces hrules h hreduces hnormal).of_isomorphic hrules hother hiso
  obtain ⟨m, rfl, hleft⟩ := haway.reduces hrules hway
  refine ⟨Nat.le_add_right k m, fun pair hpair => hleft.exists_interact hrules hpair,
    fun hdone => ?_⟩
  obtain rfl := (hleft.isNormal_iff hrules).1 hdone
  exact ⟨rfl, hleft.isomorphic⟩

/-- The rules by which two constructors and two erasers annihilate. -/
def annihilation : RuleSet :=
  ⟨⟨[(.of gamma gamma, crossing), (.of epsilon epsilon, ⟨epsilon, epsilon, .empty⟩)], by decide⟩⟩

theorem accepted_annihilation : ∀ rule ∈ annihilation.rules, rule.Accepted := by
  intro rule hrule
  rcases List.mem_cons.1 hrule with rfl | hrule
  · exact accepted_crossing
  · obtain rfl := List.mem_singleton.1 hrule
    exact ⟨epsilon, epsilon, .empty, wellFormed_empty, rfl⟩

/-- Two pairs of constructors that are tied to each other, and an eraser at the second one; one port
is exposed. -/
def woven : Net :=
  ((connectPairs [(0, 3), (6, 9), (1, 7), (2, 8), (4, 10), (11, 12)]).run
    (((((single gamma).newAgent gamma).2.newAgent gamma).2.newAgent gamma).2.newAgent epsilon).2).2

theorem wellFormed_woven : woven.WellFormed :=
  (((((wellFormed_single gamma).newAgent gamma).newAgent gamma).newAgent gamma).newAgent
    epsilon).run_connectPairs _

/-- The first pair. -/
def wovenOuter : ActivePair :=
  ⟨0, 0, 1, 0, 3, gamma, gamma⟩

/-- The pair at the eraser. -/
def wovenInner : ActivePair :=
  ⟨1, 2, 3, 6, 9, gamma, gamma⟩

/-- The same net when the eraser is made first and the pair next to it is connected first. -/
def rewoven : Net :=
  ((connectPairs [(7, 10), (1, 4), (2, 8), (3, 9), (5, 11), (12, 0)]).run
    (((((single epsilon).newAgent gamma).2.newAgent gamma).2.newAgent gamma).2.newAgent gamma).2).2

theorem wellFormed_rewoven : rewoven.WellFormed :=
  (((((wellFormed_single epsilon).newAgent gamma).newAgent gamma).newAgent gamma).newAgent
    gamma).run_connectPairs _

/-- The pair at the eraser, which is the first one here. -/
def rewovenInner : ActivePair :=
  ⟨0, 3, 4, 7, 10, gamma, gamma⟩

/-- The other pair. -/
def rewovenOuter : ActivePair :=
  ⟨1, 1, 2, 1, 4, gamma, gamma⟩

/-- A net after the interaction of two constructors. -/
def crossed (pair : ActivePair) (net : Net) : Net :=
  (net.interact .stopped crossing pair).2

theorem reduces_crossed {pair : ActivePair} (hpair : pair ∈ net.activePairs)
    (hfor : annihilation.ruleFor pair = some crossing)
    (hok : (net.interact .stopped crossing pair).1 = .ok ()) :
    annihilation.Reduces 1 net (crossed pair net) :=
  .step hpair hfor (Prod.fst_eq_iff.1 hok) (.refl _)

theorem reduces_woven :
    annihilation.Reduces 2 woven (crossed wovenInner (crossed wovenOuter woven)) := by
  have hpairs : wovenOuter ∈ woven.activePairs ∧
      wovenInner ∈ (crossed wovenOuter woven).activePairs := by
    decide +kernel
  exact (reduces_crossed hpairs.1 rfl (by decide +kernel)).trans
    (reduces_crossed hpairs.2 rfl (by decide +kernel))

/-- The pair at the eraser interacts last in one of the nets and first in the other. Both ways are
two interactions long and lead to isomorphic nets, and half way none is refused. -/
theorem confluent_woven :
    woven.activePairs = [wovenOuter, wovenInner] ∧
      rewoven.activePairs = [rewovenInner, rewovenOuter] ∧ woven.Isomorphic rewoven ∧
      (∀ pair ∈ (crossed rewovenInner rewoven).activePairs, ∃ rule,
        annihilation.ruleFor pair = some rule ∧
          ∀ watch, ∃ next,
            (crossed rewovenInner rewoven).interact watch rule pair = (.ok (), next)) ∧
      (crossed wovenInner (crossed wovenOuter woven)).Isomorphic
        (crossed rewovenOuter (crossed rewovenInner rewoven)) := by
  have hpairs : woven.activePairs = [wovenOuter, wovenInner] ∧
      rewoven.activePairs = [rewovenInner, rewovenOuter] ∧
      (crossed rewovenInner rewoven).activePairs = [rewovenOuter] := by
    decide +kernel
  have hnormal : (crossed wovenInner (crossed wovenOuter woven)).isNormal ∧
      (crossed rewovenOuter (crossed rewovenInner rewoven)).isNormal := by
    decide +kernel
  have hhalf : annihilation.Reduces 1 rewoven (crossed rewovenInner rewoven) :=
    reduces_crossed (hpairs.2.1 ▸ List.mem_cons_self) rfl (by decide +kernel)
  have hwhole := hhalf.trans
    (reduces_crossed (hpairs.2.2 ▸ List.mem_cons_self) rfl (by decide +kernel))
  have hiso := (wellFormed_woven.isomorphic_eq_true wellFormed_rewoven).1 (by decide +kernel)
  have hall := fun {k last} => @confluent_of_isConfluent _ _ _ accepted_annihilation
    (by decide +kernel) wellFormed_woven wellFormed_rewoven hiso _ _ reduces_woven hnormal.1 k last
  exact ⟨hpairs.1, hpairs.2.1, hiso, (hall hhalf).2.1, ((hall hwhole).2.2 hnormal.2).2⟩

end RuleSet

end InteractionNets
