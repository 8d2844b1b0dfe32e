import InteractionNets.Proofs.Reduction.Sequence
import InteractionNets.Proofs.Reduction.Strategies

/-!
# Reports are truthful

What a run reports is what happened. A normal form is reported exactly when no active pair is left;
a run that diverges has used up its limit; and a fault is about an active pair that is still there
and is refused (`Engine.run_truthful`). The number that is reported is the number of interactions
that were made, however the run ended. No other faults can occur, because active pairs can always be
read and the rules have a slot for every port.
-/

namespace InteractionNets

open Net RuleSet

variable {net after : Net} {rules : RuleSet} {limit : Option Nat} {steps : Nat} {fault : Fault}

/-- What can be reported after some steps, with at most as many as the limit says, for the net that
is left. -/
inductive RuleSet.Reports (rules : RuleSet) (limit : Option Nat) (after : Net) (steps : Nat) :
    Except Fault Run → Prop
  /-- No active pair is left. -/
  | normalForm : after.isNormal → Reports rules limit after steps (.ok ⟨.normalForm, steps⟩)
  /-- The limit is used up, with active pairs left. -/
  | diverging : ¬ after.isNormal → limit = some steps →
      Reports rules limit after steps (.ok ⟨.diverging, steps⟩)
  /-- An active pair has no rule. -/
  | stuck {pair : ActivePair} : pair ∈ after.activePairs → rules.ruleFor pair = none →
      Reports rules limit after steps (.error (.stuck pair steps))
  /-- A path through an active pair joins two places on the interface. -/
  | aborted {pair : ActivePair} {rule : Rule} : pair ∈ after.activePairs →
      rules.ruleFor pair = some rule → after.planFor rule pair = .error (.freeWire rule.key) →
      Reports rules limit after steps (.error (.aborted steps (.freeWire rule.key)))

/-- A report is **truthful** when it tells how a net came to what is left of it: the steps are the
interactions that were made, at most as many as the limit says. -/
def RuleSet.Truthful (rules : RuleSet) (limit : Option Nat) (net : Net)
    (report : Except Fault Run) (after : Net) : Prop :=
  ∃ steps, rules.Reports limit after steps report ∧
    after.tally.interactions = net.tally.interactions + steps ∧ ∀ bound ∈ limit, steps ≤ bound

namespace RuleSet

/-- A run without limit reports what one with a limit does that did not come to the limit. -/
theorem Reports.without_limit {report : Except Fault Run}
    (h : rules.Reports limit after steps report)
    (hlimit : ∀ run, report = .ok run → run.outcome ≠ .diverging) :
    rules.Reports none after steps report := by
  cases h with
  | normalForm hnormal => exact .normalForm hnormal
  | diverging _ _ => exact absurd rfl (hlimit _ rfl)
  | stuck hpair hnone => exact .stuck hpair hnone
  | aborted hpair hfor hplan => exact .aborted hpair hfor hplan

/-- The tally does not matter for what can be reported. -/
theorem Reports.withTally {report : Except Fault Run} (h : rules.Reports limit after steps report)
    (tally : Tally) : rules.Reports limit { after with tally := tally } steps report := by
  cases h with
  | normalForm hnormal => exact .normalForm hnormal
  | diverging hactive hlimit => exact .diverging hactive hlimit
  | stuck hpair hnone => exact .stuck hpair hnone
  | aborted hpair hfor hplan =>
    refine .aborted hpair hfor ?_
    rwa [(SameStructure.withTally after tally).planFor_eq]

theorem Refuses.withTally {pair : ActivePair} (h : rules.Refuses net pair fault) (tally : Tally) :
    rules.Refuses { net with tally := tally } pair fault := by
  obtain hnone | ⟨rule, hfor, hplan⟩ := h
  · exact .inl hnone
  · exact .inr ⟨rule, hfor, by rwa [(SameStructure.withTally net tally).planFor_eq]⟩

theorem reports_runAtLimit (net : Net) (steps : Nat) :
    rules.Reports (some steps) net steps (.ok (net.runAtLimit steps)) := by
  rw [runAtLimit]
  split
  · exact .normalForm ‹_›
  · exact .diverging ‹_› rfl

section Accepted

variable (haccepted : ∀ rule ∈ rules.rules, rule.Accepted)

include haccepted

/-- A run ends with what an active pair is refused for. -/
theorem Refuses.reports (h : net.WellFormed) {pair : ActivePair} (hpair : pair ∈ net.activePairs)
    (hrefuses : rules.Refuses net pair fault) (limit : Option Nat) (steps : Nat) :
    rules.Reports limit net steps (.error (fault.endingRun steps)) := by
  obtain ⟨hnone, rfl⟩ | ⟨rule, hfor, hplan, rfl⟩ := hrefuses.cases haccepted h hpair
  · exact .stuck hpair hnone
  · exact .aborted hpair hfor hplan

/-- An interaction replaces a redex. -/
theorem isRewrite_of_interact (h : net.WellFormed) {pair : ActivePair} {rule : Rule}
    {watch : Stopwatch} (hfor : rules.ruleFor pair = some rule)
    (hrun : net.interact watch rule pair = (.ok (), after)) :
    ∃ agents copy port, net.IsRewrite rule agents after copy port := by
  have hv := (haccepted _ (mem_rules_of_ruleFor hfor)).valid
  obtain ⟨fault, herror⟩ | ⟨last, sides, copy, port, hok, -, -, hw, -⟩ :=
    interact_cases h hv watch pair
  · cases herror.symm.trans hrun
  · obtain rfl := (Prod.mk.inj (hok.symm.trans hrun)).2
    exact ⟨_, copy, port, hw⟩

/-- An interaction leaves a well-formed net, and is counted. -/
theorem counted_of_interact (h : net.WellFormed) {pair : ActivePair} {rule : Rule}
    {watch : Stopwatch} (hfor : rules.ruleFor pair = some rule)
    (hrun : net.interact watch rule pair = (.ok (), after)) :
    after.WellFormed ∧ after.tally.interactions = net.tally.interactions + 1 := by
  have hrule := haccepted _ (mem_rules_of_ruleFor hfor)
  obtain ⟨-, took, -, -, -, htally, -⟩ :=
    (SameStructure.refl net).interact_ok hrule.tally_eq_empty hrun watch
  obtain ⟨agents, copy, port, hw⟩ := isRewrite_of_interact haccepted h hfor hrun
  exact ⟨hw.wellFormed, congrArg Tally.interactions htally⟩

end Accepted

end RuleSet

/-! ### One pair at a time -/

namespace Reducer

variable {r : Reducer} {report : Except Fault Run}
  (haccepted : ∀ rule ∈ r.rules.rules, rule.Accepted)

include haccepted

/-- A step finds nothing to do, makes one interaction, or is refused. -/
theorem step_spec (h : net.WellFormed) :
    (r.step net = (.ok none, net) ∧ net.isNormal) ∨
      (∃ entry next, r.step net = (.ok (some entry), next) ∧ next.WellFormed ∧
        next.tally.interactions = net.tally.interactions + 1) ∨
      ∃ fault, r.step net = (.error fault, net) ∧
        ∃ pair ∈ net.activePairs, r.rules.Refuses net pair fault := by
  rcases hstep : r.step net with ⟨fault | entry, next⟩
  · obtain ⟨⟨pair, hpair, hrefuses⟩, rfl⟩ := (r.refusedFor_step fault next).1 hstep
    exact .inr (.inr ⟨fault, rfl, pair, List.mem_of_head? hpair, hrefuses⟩)
  · obtain ⟨rfl, rfl, hnormal⟩ | ⟨pair, rule, rfl, -, hfor, hrun⟩ := step_cases hstep
    · exact .inl ⟨rfl, hnormal⟩
    · exact .inr (.inl ⟨_, next, rfl, counted_of_interact haccepted h hfor hrun⟩)

/-- **One pair at a time**, a run says what it did. -/
theorem runFrom_reports (h : net.WellFormed) {remaining : Nat}
    (hrun : r.runFrom steps remaining net = (report, after)) :
    ∃ made ≤ remaining, r.rules.Reports (some (steps + remaining)) after (steps + made) report ∧
      after.tally.interactions = net.tally.interactions + made := by
  induction remaining generalizing net steps with
  | zero =>
    obtain ⟨rfl, rfl⟩ := Prod.mk.inj hrun
    exact ⟨0, Nat.le_refl 0, reports_runAtLimit net steps, rfl⟩
  | succ remaining ih =>
    simp only [runFrom] at hrun
    obtain ⟨hstep, hnormal⟩ | ⟨entry, next, hstep, hwell, hcount⟩ |
      ⟨fault, hstep, pair, hpair, hrefuses⟩ := step_spec haccepted h
    · rw [hstep] at hrun
      obtain ⟨rfl, rfl⟩ := Prod.mk.inj hrun
      exact ⟨0, Nat.zero_le _, .normalForm hnormal, rfl⟩
    · rw [hstep] at hrun
      obtain ⟨made, hle, hreports, hcount'⟩ := ih hwell hrun
      rw [Nat.add_right_comm steps 1 remaining, Nat.add_right_comm steps 1 made] at hreports
      exact ⟨made + 1, by omega, hreports, by omega⟩
    · rw [hstep] at hrun
      obtain ⟨rfl, rfl⟩ := Prod.mk.inj hrun
      exact ⟨0, Nat.zero_le _, hrefuses.reports haccepted h hpair _ _, rfl⟩

end Reducer

/-! ### Rounds -/

namespace PlannedInteraction

variable {planned : PlannedInteraction} {plans : List PlannedInteraction} {watch : Stopwatch}
  (haccepted : ∀ rule ∈ rules.rules, rule.Accepted)

include haccepted

/-- A turn of a round makes one interaction, and the pairs independent of it stay ready; or its pair
is refused and stays. -/
theorem Ready.carryOut_cases (h : net.WellFormed) (hready : planned.Ready rules net)
    (watch : Stopwatch) :
    (∃ next, planned.carryOut watch net = (.ok (), next) ∧ next.WellFormed ∧
        next.tally.interactions = net.tally.interactions + 1 ∧
        planned.KeepsReady rules net next) ∨
      ∃ fault next, planned.carryOut watch net = (.error fault, next) ∧ next.WellFormed ∧
        next.tally.interactions = net.tally.interactions ∧ planned.pair ∈ next.activePairs ∧
        rules.Refuses next planned.pair fault := by
  obtain ⟨tally, hcount, heq⟩ := hready.exists_carryOut_eq watch
  rw [heq]
  obtain herror | ⟨next, hok, hwell, hkept⟩ :=
    (hready.withTally tally).interact_cases haccepted (h.withTally tally) watch
  · have hplan := ((refusedFor_interact watch planned.rule planned.pair _ _).1 herror).1
    exact .inr ⟨_, _, herror, h.withTally tally, hcount, hready.active,
      .inr ⟨planned.rule, hready.ruleFor, hplan⟩⟩
  · obtain ⟨-, hcount'⟩ :=
      counted_of_interact haccepted (h.withTally tally) hready.ruleFor hok
    refine .inl ⟨next, hok, hwell, by rw [hcount', hcount], fun other hapart hother => ?_⟩
    exact hkept other hapart (hother.withTally tally)

/-- The turns of a round make all their interactions, or stop at a pair that is refused. -/
theorem carryOutAll_reports (h : net.WellFormed) (hready : AllReady plans rules net)
    {done total : Nat} {stop : Option Fault}
    (hrun : carryOutAll watch done plans net = ((total, stop), after)) :
    ∃ made ≤ plans.length, total = done + made ∧ after.WellFormed ∧
      after.tally.interactions = net.tally.interactions + made ∧
      (stop = none → made = plans.length) ∧
      ∀ fault, stop = some fault → ∃ pair ∈ after.activePairs, rules.Refuses after pair fault := by
  induction plans generalizing net done with
  | nil =>
    obtain ⟨hresult, rfl⟩ := Prod.mk.inj hrun
    obtain ⟨rfl, rfl⟩ := Prod.mk.inj hresult
    exact ⟨0, Nat.le_refl 0, rfl, h, rfl, fun _ => rfl, fun fault hfault => (by cases hfault)⟩
  | cons planned rest ih =>
    rw [carryOutAll] at hrun
    obtain ⟨next, hnext, hwell, hcount, hkept⟩ |
      ⟨fault, next, hnext, hwell, hcount, hpair, hrefuses⟩ :=
      hready.head.carryOut_cases haccepted h watch
    · rw [hnext] at hrun
      obtain ⟨made, hle, htotal, hafter, hcount', hall, hstop⟩ := ih hwell (hready.tail hkept) hrun
      refine ⟨made + 1, ?_, by omega, hafter, by omega, fun hnone => ?_, hstop⟩
      · rw [List.length_cons]
        omega
      · rw [List.length_cons, hall hnone]
    · rw [hnext] at hrun
      obtain ⟨hresult, rfl⟩ := Prod.mk.inj hrun
      obtain ⟨rfl, rfl⟩ := Prod.mk.inj hresult
      refine ⟨0, Nat.zero_le _, rfl, hwell, hcount, fun hnone => (by cases hnone), ?_⟩
      rintro fault' hfault
      obtain rfl := Option.some.inj hfault
      exact ⟨planned.pair, hpair, hrefuses⟩

end PlannedInteraction

namespace Reducer

variable {r : Reducer} {report : Except Fault Run}
  (haccepted : ∀ rule ∈ r.rules.rules, rule.Accepted)

include haccepted

/-- A round counts the interactions it makes, and stops only at a pair that is refused. It makes
none only if there are no active pairs. -/
theorem runRound_reports (h : net.WellFormed) {limit done : Nat} {stop : Option Fault}
    (hrun : r.runRound (some (limit + 1)) net = ((done, stop), after)) :
    done ≤ limit + 1 ∧ after.WellFormed ∧
      after.tally.interactions = net.tally.interactions + done ∧
      (stop = none → done = 0 → after.isNormal) ∧
      ∀ fault, stop = some fault →
        ∃ pair ∈ after.activePairs, r.rules.Refuses after pair fault := by
  rw [runRound] at hrun
  cases hplans : r.planRound net (some (limit + 1)) with
  | error fault =>
    rw [hplans] at hrun
    obtain ⟨hresult, rfl⟩ := Prod.mk.inj hrun
    obtain ⟨rfl, rfl⟩ := Prod.mk.inj hresult
    obtain ⟨pair, hpair, hrefuses⟩ := refuses_of_planRound hplans
    refine ⟨Nat.zero_le _, h, rfl, fun hnone => (by cases hnone), ?_⟩
    rintro fault' hfault
    obtain rfl := Option.some.inj hfault
    exact ⟨pair, (batch_sublist _ _).subset hpair, hrefuses⟩
  | ok plans =>
    obtain ⟨hbatch, -⟩ := planRound_spec hplans
    have hlength : plans.length = (batch net (some (limit + 1))).length := by
      rw [← hbatch, List.length_map]
    have hlimit : (batch net (some (limit + 1))).length ≤ limit + 1 := List.length_take_le _ _
    rcases hall : PlannedInteraction.carryOutAll r.watch 0 plans net with ⟨⟨made, stop'⟩, next⟩
    simp only [hplans, hall] at hrun
    obtain ⟨hresult, hafter⟩ := Prod.mk.inj hrun
    obtain ⟨rfl, rfl⟩ := Prod.mk.inj hresult
    obtain ⟨made', hle, htotal, hwell, hcount, hend, hstop⟩ :=
      PlannedInteraction.carryOutAll_reports haccepted h (allReady_of_planRound h hplans) hall
    obtain rfl : made = made' := by omega
    -- whether the round is counted does not matter
    obtain ⟨tally, hsame, rfl⟩ : ∃ tally, tally.interactions = next.tally.interactions ∧
        after = { next with tally := tally } := by
      rw [← hafter]
      split
      · exact ⟨next.tally, rfl, rfl⟩
      · exact ⟨next.tally.recordRound, rfl, rfl⟩
    refine ⟨by omega, hwell.withTally tally, hsame.trans hcount, fun hnone hzero => ?_,
      fun fault hfault => ?_⟩
    · have hempty : plans = [] := List.length_eq_zero_iff.1 (by rw [← hend hnone, hzero])
      subst hempty
      obtain ⟨-, rfl⟩ := Prod.mk.inj hall
      exact isNormal_of_batch hlength.symm
    · obtain ⟨pair, hpair, hrefuses⟩ := hstop fault hfault
      exact ⟨pair, hpair, hrefuses.withTally tally⟩

/-- **In rounds**, a run says what it did. -/
theorem roundsFrom_reports (h : net.WellFormed) {rounds remaining : Nat}
    (hrounds : remaining ≤ rounds)
    (hrun : r.roundsFrom rounds steps remaining net = (report, after)) :
    ∃ made ≤ remaining, r.rules.Reports (some (steps + remaining)) after (steps + made) report ∧
      after.tally.interactions = net.tally.interactions + made := by
  have hatLimit : ∀ {net : Net} {steps : Nat},
      ((.ok (net.runAtLimit steps), net) : Except Fault Run × Net) = (report, after) →
      ∃ made ≤ 0, r.rules.Reports (some (steps + 0)) after (steps + made) report ∧
        after.tally.interactions = net.tally.interactions + made := by
    intro net steps hrun
    obtain ⟨rfl, rfl⟩ := Prod.mk.inj hrun
    exact ⟨0, Nat.le_refl 0, reports_runAtLimit net steps, rfl⟩
  induction rounds generalizing net steps remaining with
  | zero =>
    obtain rfl := Nat.le_zero.1 hrounds
    exact hatLimit hrun
  | succ rounds ih =>
    cases remaining with
    | zero => exact hatLimit hrun
    | succ remaining =>
      simp only [roundsFrom, Nat.add_one_ne_zero, if_false] at hrun
      rcases hround : r.runRound (some (remaining + 1)) net with ⟨⟨done, stop⟩, next⟩
      obtain ⟨hle, hwell, hcount, hnormal, hstop⟩ := runRound_reports haccepted h hround
      rw [hround] at hrun
      cases stop with
      | some fault =>
        obtain ⟨rfl, rfl⟩ := Prod.mk.inj hrun
        obtain ⟨pair, hpair, hrefuses⟩ := hstop fault rfl
        exact ⟨done, hle, hrefuses.reports haccepted hwell hpair _ _, hcount⟩
      | none =>
        cases done with
        | zero =>
          obtain ⟨rfl, rfl⟩ := Prod.mk.inj hrun
          exact ⟨0, Nat.zero_le _, .normalForm (hnormal rfl rfl), hcount⟩
        | succ done =>
          obtain ⟨made, hmade, hreports, hcount'⟩ := ih hwell (by omega) hrun
          have hlimit : steps + (done + 1) + (remaining + 1 - (done + 1)) =
              steps + (remaining + 1) := by omega
          rw [hlimit, Nat.add_assoc] at hreports
          exact ⟨done + 1 + made, by omega, hreports, by omega⟩

end Reducer

/-! ### Engines -/

namespace Engine

variable {e : Engine} {report : Except Fault Run}

/-- A run with a limit is reported truthfully. -/
theorem drive_truthful (haccepted : ∀ rule ∈ e.reducer.rules.rules, rule.Accepted)
    (h : net.WellFormed) {limit : Nat} (hrun : (e.drive limit).run net = (report, after)) :
    e.reducer.rules.Truthful (some limit) net report after := by
  have htimed : ∀ {run : Edit Run}, (∀ {report last}, run net = (report, last) →
        ∃ made ≤ limit, e.reducer.rules.Reports (some (0 + limit)) last (0 + made) report ∧
          last.tally.interactions = net.tally.interactions + made) →
      e.reducer.timed run net = (report, after) →
        e.reducer.rules.Truthful (some limit) net report after := by
    intro run hall hrun
    rcases hresult : run net with ⟨result, last⟩
    obtain ⟨made, hle, hreports, hcount⟩ := hall hresult
    have htally : e.reducer.timed run net = (result,
        { last with tally := last.tally.recordBusy (e.reducer.watch.run net last) }) := by
      simp only [Reducer.timed, hresult]
    obtain ⟨rfl, rfl⟩ := Prod.mk.inj (htally.symm.trans hrun)
    rw [Nat.zero_add, Nat.zero_add] at hreports
    refine ⟨made, hreports.withTally _, hcount, fun bound hbound => ?_⟩
    obtain rfl := Option.some.inj hbound
    exact hle
  rw [drive] at hrun
  cases hstrategy : e.settings.strategy with
  | sequential =>
    rw [hstrategy] at hrun
    exact htimed (Reducer.runFrom_reports haccepted h) hrun
  | parallel =>
    rw [hstrategy] at hrun
    exact htimed (Reducer.roundsFrom_reports haccepted h (Nat.le_refl limit)) hrun

/-- **Reports are truthful.** Whatever an engine reports about a well-formed net, with rules that
were accepted, one pair at a time or in rounds, with a limit or without: a normal form means that no
active pair is left, and is reported whenever a run that is not refused leaves none; a run that
diverges has made as many interactions as it may; and it is refused only for an active pair that is
still there and has no rule, or that would leave a wire between two places on the interface. In all
cases the steps reported are the interactions made, and no more than the limit. -/
theorem run_truthful (haccepted : ∀ rule ∈ e.reducer.rules.rules, rule.Accepted)
    (h : net.WellFormed) (fuel : Nat)
    (hrun : (e.run fuel).run net = (report.map some, after)) :
    e.reducer.rules.Truthful e.settings.maxSteps net report after := by
  obtain ⟨hdrive, hended⟩ := run_eq_map_some_iff.1 hrun
  have htruthful := drive_truthful haccepted h hdrive
  cases hlimit : e.settings.maxSteps with
  | some limit => rwa [hlimit, Option.getD_some] at htruthful
  | none =>
    obtain ⟨steps, hreports, hcount, -⟩ := htruthful
    exact ⟨steps, hreports.without_limit (hended hlimit), hcount, fun _ hbound => (by cases hbound)⟩

/-- Of two pairs of passages that are joined, the second one is refused when the first one is gone.
One interaction is reported, and one was made. -/
theorem run_truthful_passages :
    Reducer.straight.Truthful (some 2) passages
      (.error (.aborted 1 (.freeWire (.of passage passage))))
      (((Engine.mk ⟨some 2, .parallel⟩ ⟨Reducer.straight, .stopped⟩).run 0).run passages).2 := by
  exact @run_truthful passages _ ⟨⟨some 2, .parallel⟩, ⟨Reducer.straight, .stopped⟩⟩ _
    Reducer.accepted_straight wellFormed_passages 0 (Prod.fst_eq_iff.1 (by decide +kernel))

end Engine

end InteractionNets
