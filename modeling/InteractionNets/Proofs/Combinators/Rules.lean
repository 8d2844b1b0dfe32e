import InteractionNets.Proofs.Reduction.Unstuck
import InteractionNets.Proofs.Rule.Assembly
import InteractionNets.Systems.Combinators

/-!
# The rules of the combinators

The rules of the combinators are made from well-formed nets of combinators
(`Combinators.accepted_of_rules`, `Combinators.isOver_of_rules`), and there is one for any two
combinators (`Combinators.exists_lookup`).
-/

namespace InteractionNets.Combinators

open Assembly Net

variable {rs : RuleSet} {rule : Rule}

/-- How the rules are made, in order of entry. -/
def makers : List (Except Fault Rule) :=
  [gammaGamma, deltaDelta, epsilonEpsilon, gammaDelta, erase gamma, erase delta]

theorem rules_eq : rules = makers.mapM id >>= RuleSet.ofList := by
  simp [rules, makers]

/-- The rules are made from well-formed nets. -/
theorem accepted_of_mem_makers {made : Except Fault Rule} (hmade : made ∈ makers)
    (hrule : made = .ok rule) : rule.Accepted := by
  simp only [makers, List.mem_cons, List.not_mem_nil, or_false] at hmade
  rcases hmade with rfl | rfl | rfl | rfl | rfl | rfl
  case inl => exact ⟨gamma, gamma, _, wellFormed_empty, hrule⟩
  case inr.inl => exact ⟨delta, delta, _, wellFormed_empty, hrule⟩
  case inr.inr.inl => exact ⟨epsilon, epsilon, .empty, wellFormed_empty, hrule⟩
  all_goals
    simp only [gammaDelta, erase] at hrule
    refine accepted_of_replacement ?_ hrule
    repeat' first
      | with_reducible exact keeps_agent _
      | with_reducible exact keeps_portAt _ _
      | with_reducible exact keeps_wire _ _ _ _
      | with_reducible exact Edit.Keeps.pure _
      | refine Edit.Keeps.bind ?_ fun _ => ?_

theorem exists_rules : ∃ rs, rules = .ok rs := by
  have hmade : (rules.map fun _ => ()) = .ok () := by decide +kernel
  cases hrules : rules with
  | error fault =>
    rw [hrules] at hmade
    cases hmade
  | ok rs => exact ⟨rs, rfl⟩

theorem accepted_of_rules (hrs : rules = .ok rs) : ∀ rule ∈ rs.rules, rule.Accepted := by
  intro rule hrule
  rw [rules_eq] at hrs
  exact accepted_of_mem_makers ((RuleSet.of_mapM hrs).2 rule hrule) rfl

/-- The rules put in nothing but combinators. -/
theorem isOver_of_rules (hrs : rules = .ok rs) :
    ∀ rule ∈ rs.rules, rule.replacement.net.IsOver symbols := by
  intro rule hrule
  have hover : ∀ made ∈ makers,
      made.map (fun rule => decide (rule.replacement.net.IsOver symbols)) = .ok true := by
    decide +kernel
  rw [rules_eq] at hrs
  have hrule' := hover _ ((RuleSet.of_mapM hrs).2 rule hrule)
  exact of_decide_eq_true (Except.ok.inj hrule')

/-- Any two combinators have a rule, in either order. -/
theorem exists_lookup (hrs : rules = .ok rs) {a b : Symbol} (ha : a ∈ symbols)
    (hb : b ∈ symbols) : ∃ rule, rs.lookup a b = some rule := by
  have hall : (rules.map fun rs => symbols.all fun a => symbols.all fun b =>
      (rs.lookup a b).isSome) = .ok true := by
    decide +kernel
  rw [hrs] at hall
  have hlookup := List.all_eq_true.1 (List.all_eq_true.1 (Except.ok.inj hall) a ha) b hb
  exact Option.isSome_iff_exists.1 hlookup

/-- Any two combinators that face each other have a rule. -/
theorem exists_ruleFor (hrs : rules = .ok rs) {net : Net} (h : net.WellFormed)
    (hover : net.IsOver symbols) {pair : ActivePair} (hpair : pair ∈ net.activePairs) :
    ∃ rule, rs.ruleFor pair = some rule := by
  obtain ⟨-, agent₁, agent₂, -, -, -, h₁, h₂, -, -, hsymbol₁, hsymbol₂⟩ :=
    Surroundings.activePair_spec h hpair
  have ha := isOver_iff.1 hover h₁
  have hb := isOver_iff.1 hover h₂
  rw [hsymbol₁] at ha
  rw [hsymbol₂] at hb
  exact exists_lookup hrs ha hb

end InteractionNets.Combinators
