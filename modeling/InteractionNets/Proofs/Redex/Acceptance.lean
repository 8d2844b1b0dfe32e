import InteractionNets.Proofs.Redex.Interaction

/-!
# What is accepted

Rules are made of the replacements that conserve, and of no others (`Rule.accepts_conserving`); and
once a rule was made, a path through a redex never finds a slot without splice or outside, so that
planning can be refused for a free wire only.

Records of active pairs may be kept while the net changes, or be made up. An interaction accepts
exactly those that are **current** (`Net.interact_accepts_current`): there is an active pair now
with the recorded connection, agents and ports, and the rule is for its agents' symbols as well as
for those of the record. All other records are refused, with one of two faults.
-/

namespace InteractionNets

open Net

variable {net : Net} {rule : Rule} {pair : ActivePair}

/-! ### Rules -/

/-- The record of a pair is **current** for a rule: the rule is for the recorded symbols, and for
those of an active pair that the net has now with the recorded ends. -/
def Rule.IsCurrent (rule : Rule) (net : Net) (pair : ActivePair) : Prop :=
  rule.isFor pair ∧ ∃ actual ∈ net.activePairs, actual.SameEnds pair ∧ rule.isFor actual

namespace Surroundings

/-- What can be read names the ends of an active pair that the rule is for. -/
theorem exists_read_iff (h : net.WellFormed) (hv : rule.Valid) :
    (∃ s, read net pair rule = .ok s) ↔
      ∃ actual ∈ net.activePairs, actual.SameEnds pair ∧ rule.isFor actual := by
  constructor
  · rintro ⟨s, hread⟩
    obtain ⟨sides, hs⟩ := describes_of_read h hv hread
    obtain ⟨agent₁, agent₂, h₁, h₂, horient⟩ := hs.isRedexOf.orient
    obtain ⟨data, hdata, hports⟩ := hs.isRedexOf.connection
    refine ⟨{ pair with symbol₁ := agent₁.symbol, symbol₂ := agent₂.symbol }, ?_,
      ⟨rfl, rfl, rfl, rfl, rfl⟩, by simp [Rule.isFor, horient]⟩
    exact mem_activePairs_of_principal h hdata hports h₁ h₂ hs.isRedexOf.port₁ hs.isRedexOf.port₂
      rfl rfl
  · rintro ⟨actual, hactual, hends, hfor⟩
    exact exists_read_of_sameEnds h hactual hends hfor

/-- The agents at the ends of a connection are live, so that reading is refused for two reasons
only. -/
theorem read_eq_error (h : net.WellFormed) {fault : Fault}
    (hread : read net pair rule = .error fault) :
    fault = .noApplicableRule pair ∨ fault = .notActive pair.connection := by
  have hlive : ∀ {data : Connection} {p a}, net.connection? pair.connection = some data →
      data.HasEnd p a → ∃ agent, net.agent? a = some agent := by
    intro data p a hdata hend
    obtain ⟨port, hport, -, rfl⟩ := h.port_of_end hdata hend
    exact Option.isSome_iff_exists.1 (isSome_agent?_of_getElem? (h.agent_of_port hport))
  unfold read at hread
  split at hread
  · exact .inr (Except.error.inj hread).symm
  · rename_i data hdata
    split at hread
    · exact .inr (Except.error.inj hread).symm
    · rename_i hends
      obtain ⟨-, hagents⟩ := not_or.1 hends
      have hagents := not_not.1 hagents
      obtain ⟨agent₁, h₁⟩ := hlive hdata (.inl ⟨rfl, by rw [hagents]⟩)
      obtain ⟨agent₂, h₂⟩ := hlive hdata (.inr ⟨rfl, by rw [hagents]⟩)
      simp only [h₁, h₂] at hread
      split at hread
      · exact .inr (Except.error.inj hread).symm
      · split at hread
        · exact .inl (Except.error.inj hread).symm
        · cases hread

end Surroundings

namespace Net

/-- **An interaction accepts exactly the current redexes of its rule.** In a well-formed net, the
record of a pair, be it of a pair that is there, of one that was there once, or made up, is carried
out or refused for a free wire if and only if it is current. Every other record is refused, for no
rule being for it or for naming no active pair. -/
theorem interact_accepts_current (h : net.WellFormed) (hrule : rule.Accepted) (watch : Stopwatch)
    (pair : ActivePair) :
    (((net.interact watch rule pair).1 = .ok () ∨
        ∃ key, (net.interact watch rule pair).1 = .error (.freeWire key)) ↔
      rule.IsCurrent net pair) ∧
    (¬ rule.IsCurrent net pair →
      (net.interact watch rule pair).1 = .error (.noApplicableRule pair) ∨
        (net.interact watch rule pair).1 = .error (.notActive pair.connection)) := by
  have haccepted : rule.IsCurrent net pair → (net.interact watch rule pair).1 = .ok () ∨
      ∃ key, (net.interact watch rule pair).1 = .error (.freeWire key) := by
    rintro ⟨hfor, hactual⟩
    obtain ⟨s, hread⟩ := (Surroundings.exists_read_iff h hrule.valid).2 hactual
    obtain ⟨sides, hs⟩ := Surroundings.describes_of_read h hrule.valid hread
    rcases Plan.make_of_describes h hrule.valid hs with ⟨-, herror⟩ | ⟨-, links, hok, -⟩
    · exact .inr ⟨rule.key, by simp only [interact, planFor, hfor, hread, herror, if_true]⟩
    · exact .inl (by simp only [interact, planFor, hfor, hread, hok, if_true])
  have hrefused : ¬ rule.IsCurrent net pair →
      (net.interact watch rule pair).1 = .error (.noApplicableRule pair) ∨
        (net.interact watch rule pair).1 = .error (.notActive pair.connection) := by
    intro hnot
    by_cases hfor : rule.isFor pair
    · cases hread : Surroundings.read net pair rule with
      | ok s => exact absurd ⟨hfor, (Surroundings.exists_read_iff h hrule.valid).1 ⟨s, hread⟩⟩ hnot
      | error fault =>
        simp only [interact, planFor, hfor, hread, if_true]
        exact (Surroundings.read_eq_error h hread).imp (congrArg _) (congrArg _)
    · exact .inl (by simp only [interact, planFor, hfor, Bool.false_eq_true, if_false])
  refine ⟨⟨fun hresult => ?_, haccepted⟩, hrefused⟩
  by_contra hnot
  rcases hrefused hnot with herror | herror <;> simp [herror] at hresult

/-- The record of two constructors that face each other is current; read from the other end of its
connection, it is not. -/
theorem isCurrent_facing_gamma :
    crossing.IsCurrent (facing Combinators.gamma Combinators.gamma)
        ⟨0, 0, 1, 0, 3, Combinators.gamma, Combinators.gamma⟩ ∧
      ¬ crossing.IsCurrent (facing Combinators.gamma Combinators.gamma)
        ⟨0, 1, 0, 3, 0, Combinators.gamma, Combinators.gamma⟩ := by
  have haccepts := interact_accepts_current
    (wellFormed_facing Combinators.gamma Combinators.gamma) accepted_crossing .stopped
  refine ⟨(haccepts _).1.1 (.inr ⟨_, rfl⟩), fun hcurrent => ?_⟩
  rcases (haccepts _).1.2 hcurrent with hok | ⟨key, hfree⟩
  · cases hok
  · cases hfree

end Net

end InteractionNets
