import InteractionNets.Proofs.Reduction.Made

/-!
# Invariants of reduction

An invariant of a rule set is a property of well-formed nets that every interaction of an active
pair keeps, and that does not depend on the tally (`RuleSet.IsInvariant`). Every run keeps it, in
whatever order the pairs interact, one at a time or in rounds, and wherever the run stops
(`RuleSet.IsInvariant.runLeaves`). When no net with the invariant refuses an active pair, no run
from such a net reports a fault, and one that does not come to a normal form uses up its limit
(`RuleSet.IsInvariant.drive_completes`).
-/

namespace InteractionNets

open Net RuleSet

variable {net last : Net} {rules : RuleSet} {P Q : Net → Prop}

/-- A property of well-formed nets that interactions by the rules of a set keep. -/
structure RuleSet.IsInvariant (rules : RuleSet) (P : Net → Prop) : Prop where
  wellFormed : ∀ {net}, P net → net.WellFormed
  interact : ∀ {net next pair rule watch}, P net → pair ∈ net.activePairs →
    rules.ruleFor pair = some rule → net.interact watch rule pair = (.ok (), next) → P next
  withTally : ∀ {net} tally, P net → P { net with tally := tally }

/-- A net that is left after interactions of active pairs in any order, rounds, and runs of engines,
of which the rounds and the runs may have been cut short by a fault. -/
inductive RuleSet.RunLeaves (rules : RuleSet) (net : Net) : Net → Prop
  | refl : RunLeaves rules net net
  | interact {mid next : Net} {pair : ActivePair} {rule : Rule} {watch : Stopwatch} :
      RunLeaves rules net mid → pair ∈ mid.activePairs → rules.ruleFor pair = some rule →
      mid.interact watch rule pair = (.ok (), next) → RunLeaves rules net next
  | round {mid : Net} (r : Reducer) (limit : Option Nat) : r.rules = rules →
      RunLeaves rules net mid → RunLeaves rules net ((r.round limit).run mid).2
  | engine {mid : Net} (e : Engine) (fuel : Nat) : e.reducer.rules = rules →
      RunLeaves rules net mid → RunLeaves rules net ((e.run fuel).run mid).2

/-- A run with a limit reports no fault, and uses up the limit unless it comes to a normal form. -/
def Edit.Completes (run : Edit Run) (limit : Nat) (net : Net) : Prop :=
  ∃ result after, run.run net = (.ok result, after) ∧
    (result.outcome = .diverging → result.steps = limit)

/-- A run without limit that completes with the fuel for a limit reports no fault. -/
theorem Edit.Completes.unlimited {run : Edit Run} {limit : Nat} (h : run.Completes limit net) :
    ∃ result after, (Reducer.unlimited run).run net = (.ok result, after) := by
  obtain ⟨result, after, hrun, -⟩ := h
  refine ⟨if result.outcome = .diverging then none else some result, after, ?_⟩
  rw [Reducer.unlimited, run_bind_ok hrun, Edit.run_pure]

/-- An engine leaves what is left with its limit, or with the fuel for a limit. -/
theorem Engine.snd_run (e : Engine) (fuel : Nat) (net : Net) :
    ((e.run fuel).run net).2 = ((e.drive (e.settings.maxSteps.getD fuel)).run net).2 := by
  cases hlimit : e.settings.maxSteps with
  | none =>
    rw [run_of_none hlimit, Option.getD_none]
    exact Reducer.snd_unlimited (e.drive fuel) net
  | some limit =>
    rw [run_of_maxSteps hlimit, Option.getD_some, map_eq_pure_bind, Edit.run_bind]
    rcases (e.drive limit).run net with ⟨_ | _, _⟩ <;> rfl

namespace RuleSet.IsInvariant

theorem and (h : rules.IsInvariant P) (h' : rules.IsInvariant Q) :
    rules.IsInvariant fun net => P net ∧ Q net where
  wellFormed hnet := h.wellFormed hnet.1
  interact hnet hpair hfor hrun :=
    ⟨h.interact hnet.1 hpair hfor hrun, h'.interact hnet.2 hpair hfor hrun⟩
  withTally tally hnet := ⟨h.withTally tally hnet.1, h'.withTally tally hnet.2⟩

section Rounds

variable (haccepted : ∀ rule ∈ rules.rules, rule.Accepted)

/-- A turn of a round keeps an invariant, whether it is made or refused. -/
theorem carryOut (h : rules.IsInvariant P) (hnet : P net) {planned : PlannedInteraction}
    (hready : planned.Ready rules net) (watch : Stopwatch) : P (planned.carryOut watch net).2 := by
  obtain ⟨tally, -, heq⟩ := hready.exists_carryOut_eq watch
  rw [heq]
  rcases hrun : Net.interact watch planned.rule planned.pair { net with tally := tally } with
    ⟨fault | _, next⟩
  · obtain ⟨-, rfl⟩ := (refusedFor_interact watch planned.rule planned.pair fault next).1 hrun
    exact h.withTally tally hnet
  · exact h.interact (h.withTally tally hnet) hready.active hready.ruleFor hrun

include haccepted

/-- The turns of a round keep an invariant: the pairs that are still to come stay ready. -/
theorem carryOutAll (h : rules.IsInvariant P) (hnet : P net) {plans : List PlannedInteraction}
    (hready : PlannedInteraction.AllReady plans rules net) (watch : Stopwatch) (done : Nat) :
    P (PlannedInteraction.carryOutAll watch done plans net).2 := by
  induction plans generalizing net done with
  | nil => exact hnet
  | cons planned rest ih =>
    have hturn := h.carryOut hnet hready.head watch
    rw [PlannedInteraction.carryOutAll]
    obtain ⟨next, hnext, -, -, hkept⟩ | ⟨fault, next, hnext, -⟩ :=
      hready.head.carryOut_cases haccepted (h.wellFormed hnet) watch
    · rw [hnext] at hturn ⊢
      exact ih hturn (hready.tail hkept) (done + 1)
    · rw [hnext] at hturn ⊢
      exact hturn

end Rounds

section Runs

variable {r : Reducer} (haccepted : ∀ rule ∈ r.rules.rules, rule.Accepted)

include haccepted

/-- An invariant is handed on from the net before to the net after. -/
theorem isLedger (h : r.rules.IsInvariant P) : r.IsLedger fun _ net after => P net → P after where
  refl _ hnet := hnet
  trans hfirst hsecond hnet := hsecond (hfirst hnet)
  interact hpair hfor hrun hnet := h.interact hnet hpair hfor hrun
  turns hplans hnet := h.carryOutAll haccepted hnet
    (Reducer.allReady_of_planRound (h.wellFormed hnet) hplans) r.watch 0
  recordRound hrun hnet := h.withTally _ (hrun hnet)
  recordBusy _ hrun hnet := h.withTally _ (hrun hnet)

/-- Whatever a reducer is called for, it keeps an invariant. -/
theorem leave (h : r.rules.IsInvariant P) (hnet : P net) (call : Reducer.Call) :
    P (r.leave call net) :=
  (h.isLedger haccepted).leave call net hnet

end Runs

/-! ### Engines -/

section Engine

variable {e : Engine} (haccepted : ∀ rule ∈ e.reducer.rules.rules, rule.Accepted)

include haccepted

theorem drive (h : e.reducer.rules.IsInvariant P) (hnet : P net) (limit : Nat) :
    P ((e.drive limit).run net).2 := by
  rw [Engine.drive]
  cases e.settings.strategy with
  | sequential => exact h.leave haccepted hnet (.normalize limit)
  | parallel => exact h.leave haccepted hnet (.normalizeInRounds limit)

theorem engine (h : e.reducer.rules.IsInvariant P) (hnet : P net) (fuel : Nat) :
    P ((e.run fuel).run net).2 := by
  rw [Engine.snd_run]
  exact h.drive haccepted hnet _

/-- **Runs without faults.** When no net with the invariant refuses an active pair, an engine
reports no fault, and makes as many interactions as it may if it does not come to a normal form. -/
theorem drive_completes (h : e.reducer.rules.IsInvariant P)
    (hserved : ∀ {net pair}, P net → pair ∈ net.activePairs → ∃ rule plan,
      e.reducer.rules.ruleFor pair = some rule ∧ net.planFor rule pair = .ok plan)
    (hnet : P net) (limit : Nat) : (e.drive limit).Completes limit net := by
  have hafter := h.drive haccepted hnet limit
  rcases hrun : (e.drive limit).run net with ⟨report, after⟩
  rw [hrun] at hafter
  obtain ⟨steps, hreports, -⟩ := Engine.drive_truthful haccepted (h.wellFormed hnet) hrun
  cases hreports with
  | normalForm => exact ⟨_, after, hrun, fun hdiverging => by cases hdiverging⟩
  | diverging _ hlimit => exact ⟨_, after, hrun, fun _ => (Option.some.inj hlimit).symm⟩
  | stuck hpair hnone =>
    obtain ⟨rule, plan, hfor, -⟩ := hserved hafter hpair
    cases hnone.symm.trans hfor
  | aborted hpair hfor hplan =>
    obtain ⟨rule, plan, hfor', hplan'⟩ := hserved hafter hpair
    obtain rfl := Option.some.inj (hfor.symm.trans hfor')
    cases hplan.symm.trans hplan'

end Engine

/-- **Every run keeps an invariant.** -/
theorem runLeaves (haccepted : ∀ rule ∈ rules.rules, rule.Accepted) (h : rules.IsInvariant P)
    (hnet : P net) (hleaves : rules.RunLeaves net last) : P last := by
  induction hleaves with
  | refl => exact hnet
  | interact _ hpair hfor hrun hmid => exact h.interact hmid hpair hfor hrun
  | round r limit hrules _ hmid =>
    subst hrules
    exact h.leave haccepted hmid (.round limit)
  | engine e fuel hrules _ hmid =>
    subst hrules
    exact h.engine haccepted hmid fuel

end RuleSet.IsInvariant

end InteractionNets
