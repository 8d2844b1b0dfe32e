import InteractionNets.Proofs.Redex.Independence
import InteractionNets.Rule.Confluence
import InteractionNets.Systems.Combinators

/-!
# Independent interactions commute

Two active pairs of a net can interact in either order, whatever the rules for them are: the rules
may belong to no set, and those between agents of one symbol need not be symmetric, because each
pair keeps its record and with it the sides that its agents play. After both interactions the
diagram of the net is the one that is rewritten at both redexes (`Net.interactBoth_spec`), and the
order of these rewrites does not matter.
-/

namespace InteractionNets

namespace Net

/-- Let a pair interact by a rule, and then another pair by another rule. -/
def interactBoth (watch : Stopwatch) (rule other : Rule) (pair next : ActivePair) : Edit Unit := do
  interact watch rule pair
  interact watch other next

variable {net : Net} {rule rule' : Rule} {pair pair' : ActivePair} {sides sides' : Side × Side}
  {labels : List (PortId × Nat)}

/-- The diagram of a net, rewritten at one pair of agents and then at another. -/
noncomputable abbrev rewrittenTwice (net : Net) (rule rule' : Rule)
    (agents agents' : Side → AgentId) (labels : List (PortId × Nat)) :
    Diagram Nat ((AgentId ⊕ AgentId) ⊕ AgentId) :=
  (net.rewritten rule agents labels).rewrite (.inl ∘ agents') rule'.template

/-- **Two interactions rewrite the diagram twice.** They are refused exactly when places clash after
both rewrites, even if the first of them clashes already. -/
theorem interactBoth_spec (h : net.WellFormed) (hv : rule.Valid) (hv' : rule'.Valid)
    (hpair : pair ∈ net.activePairs) (hpair' : pair' ∈ net.activePairs) (hne : pair ≠ pair')
    (hsides : rule.orient pair.symbol₁ pair.symbol₂ = some sides)
    (hsides' : rule'.orient pair'.symbol₁ pair'.symbol₂ = some sides')
    (hl : net.IsLabelling labels) (watch : Stopwatch) :
    ((net.rewrittenTwice rule rule' (pair.agentOn sides) (pair'.agentOn sides') labels).HasClash ∧
      ∃ fault last, (interactBoth watch rule rule' pair pair').run net = (.error fault, last)) ∨
    (¬ (net.rewrittenTwice rule rule' (pair.agentOn sides) (pair'.agentOn sides') labels).HasClash ∧
      ∃ last labels', (interactBoth watch rule rule' pair pair').run net = (.ok (), last) ∧
        last.WellFormed ∧ last.IsLabelling labels' ∧
        (net.rewrittenTwice rule rule' (pair.agentOn sides) (pair'.agentOn sides')
          labels).Isomorphic (last.diagram labels')) := by
  obtain ⟨hredex, hfirst⟩ := interact_of_mem_activePairs h hv hpair hsides watch
  have hr := hredex.isRedex
  rw [interactBoth, Edit.run_bind]
  rcases hfirst with ⟨hfree, herror⟩ | ⟨hfree, after, copy, port, hok, hw⟩
  · have hclash := (hr.hasClash_rewrite_iff h hl hv).2 hfree
    have hrun : (interact watch rule pair).run net = (.error (.freeWire rule.key), net) := herror
    rw [hrun]
    exact .inl ⟨hclash.rewrite _ _, _, _, rfl⟩
  · -- the second pair has its record still, so it is a redex of the net after the first interaction
    have hapart : ∀ side side', pair.agentOn sides side ≠ pair'.ends side' :=
      (pair.samePair_agentOn hredex.sides_eq).apart (.refl _) (h.ends_ne_of_ne hpair hpair' hne)
    have hpair'' := hw.mem_activePairs h hpair' hapart
    obtain ⟨hredex', hsecond⟩ :=
      interact_of_mem_activePairs hw.wellFormed hv' hpair'' hsides' watch
    have hr' := hredex'.isRedex
    obtain ⟨labels', g, hl', hg⟩ := hw.exists_isIso hr h hv hl hfree
    have hsame := pair'.samePair_agentOn hredex'.sides_eq
    have hm : net.Meets (pair'.agentOn sides') :=
      (meets_of_mem_activePairs h hpair').samePair hsame
    have hd : (net.diagram labels).Meets (pair'.agentOn sides') := diagram_meets_iff.2 hm
    have hmeets := hd.rewrite ((SamePair.refl _).apart hsame hapart) (hm.ne h) rule.template
    have hiso : (net.rewrittenTwice rule rule' (pair.agentOn sides) (pair'.agentOn sides')
        labels).Isomorphic (after.rewritten rule' (pair'.agentOn sides') labels') :=
      ⟨_, _, hg.rewrite ⟨.refl _, .refl _⟩ hmeets.isSome_symbol fun _ => rfl⟩
    have hrun : (interact watch rule pair).run net = (.ok (), after) := hok
    rw [hrun, hiso.hasClash_iff, hr'.hasClash_rewrite_iff hw.wellFormed hl' hv']
    rcases hsecond with ⟨hfree', herror'⟩ | ⟨hfree', last, copy', port', hok', hw'⟩
    · exact .inl ⟨hfree', _, _, herror'⟩
    · obtain ⟨labels'', g', hl'', hg'⟩ := hw'.exists_isIso hr' hw.wellFormed hv' hl' hfree'
      exact .inr ⟨hfree', last, labels'', hok', hw'.wellFormed, hl'', hiso.trans ⟨_, _, hg'⟩⟩

/-- **Independent interactions commute, by any rules.** Two active pairs interact in one order
exactly when they do in the other, and then the nets they come to are isomorphic. -/
theorem interactBoth_comm (h : net.WellFormed) (hrule : rule.Accepted) (hrule' : rule'.Accepted)
    (hpair : pair ∈ net.activePairs) (hpair' : pair' ∈ net.activePairs) (hne : pair ≠ pair')
    (hfor : rule.isFor pair) (hfor' : rule'.isFor pair') (watch watch' : Stopwatch) :
    ((∃ last, (interactBoth watch rule rule' pair pair').run net = (.ok (), last)) ↔
      ∃ last, (interactBoth watch' rule' rule pair' pair).run net = (.ok (), last)) ∧
    ∀ last last', (interactBoth watch rule rule' pair pair').run net = (.ok (), last) →
      (interactBoth watch' rule' rule pair' pair).run net = (.ok (), last') →
        last.Isomorphic last' := by
  obtain ⟨sides, hsides⟩ := Option.isSome_iff_exists.1 hfor
  obtain ⟨sides', hsides'⟩ := Option.isSome_iff_exists.1 hfor'
  have hl := net.isLabelling_zipIdx
  have hroles : ∀ side side', pair.agentOn sides side ≠ pair'.agentOn sides' side' :=
    (pair.samePair_agentOn (Rule.snd_eq_flip_of_orient hsides)).apart
      (pair'.samePair_agentOn (Rule.snd_eq_flip_of_orient hsides'))
      (h.ends_ne_of_ne hpair hpair' hne)
  have hexchange := Diagram.rewrite_rewrite (D := net.diagram net.interface.zipIdx)
    (T := rule.template) (U := rule'.template) hroles
  rcases interactBoth_spec h hrule.valid hrule'.valid hpair hpair' hne hsides hsides' hl watch with
    ⟨hclash, fault, last, herror⟩ | ⟨hclash, last, labels, hok, hwf, hlabels, hiso⟩ <;>
  rcases interactBoth_spec h hrule'.valid hrule.valid hpair' hpair hne.symm hsides' hsides hl watch'
    with ⟨hclash', fault', last', herror'⟩ | ⟨hclash', last', labels', hok', hwf', hlabels', hiso'⟩
  · rw [herror, herror']
    simp
  · exact absurd (hexchange.hasClash_iff.1 hclash) hclash'
  · exact absurd (hexchange.hasClash_iff.2 hclash') hclash
  · refine ⟨⟨fun _ => ⟨_, hok'⟩, fun _ => ⟨_, hok⟩⟩, fun u v hu hv => ?_⟩
    obtain rfl := congrArg Prod.snd (hok.symm.trans hu)
    obtain rfl := congrArg Prod.snd (hok'.symm.trans hv)
    exact hwf.isomorphic_of_diagram hwf' hlabels hlabels' (hiso.symm.trans (hexchange.trans hiso'))

/-! ### A rule that tells its sides apart -/

/-- What two passages leave: an eraser at the left slot, and a passage that hides its second port at
the right one. -/
def lopsidedNet : Net :=
  ((restrictInterface [2]).run ((single Combinators.epsilon).newAgent passage).2).2

/-- A rule between two agents of one symbol that is not symmetric. -/
def lopsided : Rule :=
  ⟨passage, passage, ((Replacement.ofNet lopsidedNet).bind (.left 0) 0).bind (.right 0) 1⟩

theorem accepted_lopsided : lopsided.Accepted := by
  have hwf : lopsidedNet.WellFormed :=
    ((wellFormed_single Combinators.epsilon).newAgent passage).run_restrictInterface [2]
  exact ⟨passage, passage, ((Replacement.ofNet lopsidedNet).bind (.left 0) 0).bind (.right 0) 1,
    hwf, by decide +kernel⟩

/-- One of the pairs. -/
def firstPassages : ActivePair :=
  ⟨0, 0, 1, 0, 2, passage, passage⟩

/-- The other pair. -/
def secondPassages : ActivePair :=
  ⟨1, 2, 3, 4, 6, passage, passage⟩

/-- The pairs of passages interact in both orders, and the nets they come to are isomorphic. -/
theorem interactBoth_comm_passages :
    lopsided.isSymmetric = false ∧
      ((interactBoth .stopped lopsided lopsided firstPassages secondPassages).run
        passages).2.Isomorphic
      ((interactBoth .stopped lopsided lopsided secondPassages firstPassages).run passages).2 := by
  have hfirst : firstPassages ∈ passages.activePairs := by decide +kernel
  have hsecond : secondPassages ∈ passages.activePairs := by decide +kernel
  have hcomm := interactBoth_comm wellFormed_passages accepted_lopsided accepted_lopsided
    hfirst hsecond (by decide) rfl rfl .stopped .stopped
  exact ⟨by decide +kernel, hcomm.2 _ _ (Prod.fst_eq_iff.1 (by decide +kernel))
    (Prod.fst_eq_iff.1 (by decide +kernel))⟩

end Net

end InteractionNets
