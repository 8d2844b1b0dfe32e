import InteractionNets.Proofs.Reduction.Sequence
import InteractionNets.Proofs.Reduction.Strategies

/-!
# Budgets

A budget for a run can be split anywhere: a run for some interactions and then a run for some more
do what one run for all of them does (`Reducer.normalize_split`). The loop looks at the budget
before it looks for a pair, so a run that comes to its limit in front of a pair that is refused ends
well, and only the next run fails there.

Clocks differ from run to run, but they decide nothing. A run without its times is the run by a
stopped stopwatch (`Reducer.untimed_normalize`), and what is left to compare are runs of one loop.
-/

namespace InteractionNets

/-! ### Times aside -/

/-- A net without the times in its tally. -/
def Net.untimed (net : Net) : Net :=
  { net with tally := net.tally.untimed }

/-- What an edit gives, and the net that it leaves without the times in its tally. -/
def Edit.untimed {α : Type} (edit : Edit α) (net : Net) : Except Fault α × Net :=
  Prod.map id Net.untimed (edit.run net)

theorem Edit.untimed_eq {α : Type} {edit : Edit α} {net after : Net} {result : Except Fault α}
    (h : edit.run net = (result, after)) : edit.untimed net = (result, after.untimed) := by
  rw [untimed, h]
  rfl

/-- An interaction is made as by a stopped stopwatch. -/
theorem Net.untimed_interact {rule : Rule} (hempty : rule.replacement.net.tally = .empty)
    (watch : Stopwatch) (pair : ActivePair) (net : Net) :
    (interact watch rule pair).untimed net = (interact .stopped rule pair).run net.untimed := by
  have hplan : net.untimed.planFor rule pair = net.planFor rule pair :=
    (SameStructure.withTally net net.tally.untimed).planFor_eq rule pair
  rw [Edit.untimed, Edit.run, Edit.run, interact, interact, hplan]
  cases net.planFor rule pair with
  | error fault => rfl
  | ok plan =>
    refine Prod.ext rfl ?_
    show (plan.commit rule _ net).untimed = plan.commit rule .zero net.untimed
    rw [untimed, Plan.tally_commit net hempty, Tally.untimed_record]
    exact (Plan.commit_withTally net net.tally.untimed hempty plan .zero).symm

namespace Reducer

/-- The time of a run is in the tally only. -/
theorem untimed_timed {α : Type} (r : Reducer) (run : Edit α) (net : Net) :
    (r.timed run).untimed net = run.untimed net := by
  show Prod.map id Net.untimed (r.timed run net) = Prod.map id Net.untimed (run net)
  rw [timed]
  rcases run net with ⟨result, after⟩
  simp only [Prod.map, Net.untimed, Tally.untimed_recordBusy]

variable {rules : RuleSet} (haccepted : ∀ rule ∈ rules.rules, rule.Accepted)

include haccepted

theorem untimed_step (watch : Stopwatch) (net : Net) :
    (Reducer.mk rules watch).step.untimed net =
      (Reducer.mk rules .stopped).step.run net.untimed := by
  have hpairs : net.untimed.activePairs = net.activePairs := rfl
  rw [Edit.untimed, Edit.run, Edit.run, step, step, hpairs]
  cases net.activePairs.head? with
  | none => rfl
  | some pair =>
    cases hfor : rules.ruleFor pair with
    | none => simp only [hfor]; rfl
    | some rule =>
      have hempty := (haccepted rule (RuleSet.mem_rules_of_ruleFor hfor)).tally_eq_empty
      have hinteract := Net.untimed_interact hempty watch pair net
      simp only [hfor]
      rw [Edit.untimed, Edit.run, Edit.run] at hinteract
      rw [← hinteract]
      rcases Net.interact watch rule pair net with ⟨fault | _, next⟩ <;> rfl

theorem untimed_runFrom (watch : Stopwatch) (steps limit : Nat) (net : Net) :
    ((Reducer.mk rules watch).runFrom steps limit).untimed net =
      ((Reducer.mk rules .stopped).runFrom steps limit).run net.untimed := by
  induction limit generalizing steps net with
  | zero => rfl
  | succ limit ih =>
    have hstep := untimed_step haccepted watch net
    simp only [Edit.untimed, Edit.run] at hstep ih ⊢
    simp only [runFrom, ← hstep]
    rcases (Reducer.mk rules watch).step net with ⟨fault | _ | entry, next⟩
    · rfl
    · rfl
    · exact ih (steps + 1) next

/-- A run without its times is the run by a stopped stopwatch. -/
theorem untimed_normalize (watch : Stopwatch) (limit : Nat) (net : Net) :
    ((Reducer.mk rules watch).normalize limit).untimed net =
      ((Reducer.mk rules .stopped).runFrom 0 limit).run net.untimed :=
  (untimed_timed _ _ net).trans (untimed_runFrom haccepted watch 0 limit net)

end Reducer

/-! ### Later runs -/

/-- A run that was counted from a number of interactions made before. -/
def Run.delayed (made : Nat) (run : Run) : Run :=
  { run with steps := made + run.steps }

/-- A fault that ended a run which was counted from a number of interactions made before. -/
def Fault.delayed (made : Nat) : Fault → Fault
  | stuck pair steps => stuck pair (made + steps)
  | aborted steps cause => aborted (made + steps) cause
  | fault => fault

theorem Fault.delayed_endingRun (made steps : Nat) (cause : Fault) :
    (cause.endingRun steps).delayed made = cause.endingRun (made + steps) := by
  cases cause <;> rfl

/-- The report of a run that was counted from a number of interactions made before. -/
def delayedReport (made : Nat) : Except Fault Run → Except Fault Run
  | .ok run => .ok (run.delayed made)
  | .error fault => .error (fault.delayed made)

namespace Reducer

variable {r : Reducer} {net after : Net} {steps limit total : Nat} {fault : Fault}

/-- Where a run starts to count shows in its report only. -/
theorem runFrom_delayed (made steps limit : Nat) (net : Net) :
    (r.runFrom (made + steps) limit).run net =
      Prod.map (delayedReport made) id ((r.runFrom steps limit).run net) := by
  induction limit generalizing steps net with
  | zero => rfl
  | succ limit ih =>
    simp only [Edit.run] at ih ⊢
    simp only [runFrom]
    rcases r.step net with ⟨fault | _ | entry, next⟩
    · exact Prod.ext (congrArg Except.error (Fault.delayed_endingRun made steps fault).symm) rfl
    · rfl
    · exact ih (steps + 1) next

theorem runFrom_of_isNormal (hnormal : net.isNormal) (steps limit : Nat) :
    (r.runFrom steps limit).run net = (.ok ⟨.normalForm, steps⟩, net) := by
  cases limit with
  | zero => simp only [Edit.run, runFrom, Net.runAtLimit, hnormal, if_true]
  | succ limit => simp only [Edit.run, runFrom, step_of_isNormal hnormal]

/-- **A run goes on where another one stopped.** A run that is not refused may go on. -/
theorem runFrom_add (steps m n : Nat) :
    r.runFrom steps (m + n) = (r.runFrom steps m >>= fun run => r.runFrom run.steps n) := by
  funext net
  show (r.runFrom steps (m + n)).run net = (r.runFrom steps m >>= _).run net
  induction m generalizing steps net with
  | zero => rw [Nat.zero_add]; rfl
  | succ m ih =>
    rw [Nat.succ_add, Edit.run_bind]
    rcases hstep : r.step net with ⟨fault | _ | entry, next⟩
    · simp only [Edit.run, runFrom, hstep]
    · -- nothing was left to do, and nothing is left when the run goes on
      obtain ⟨-, rfl, hnormal⟩ | ⟨_, _, hsome, -⟩ := step_cases hstep
      · rw [runFrom_of_isNormal hnormal, runFrom_of_isNormal hnormal]
        exact (runFrom_of_isNormal hnormal steps n).symm
      · cases hsome
    · have hrest := ih (steps + 1) next
      rw [Edit.run_bind] at hrest
      simp only [Edit.run, runFrom, hstep] at hrest ⊢
      exact hrest

/-! ### Where a run ends -/

/-- A run that comes to a normal form ends there with every budget that is enough. -/
theorem runFrom_of_normalForm
    (hrun : (r.runFrom steps limit).run net = (.ok ⟨.normalForm, total⟩, after)) :
    steps ≤ total ∧ ∀ budget, total ≤ steps + budget →
      (r.runFrom steps budget).run net = (.ok ⟨.normalForm, total⟩, after) := by
  induction limit generalizing net steps with
  | zero =>
    obtain ⟨hreport, rfl⟩ := Prod.mk.inj hrun
    obtain ⟨houtcome, rfl⟩ := Run.mk.inj (Except.ok.inj hreport)
    have hnormal : net.isNormal := by
      by_contra hactive
      rw [if_neg hactive] at houtcome
      cases houtcome
    exact ⟨Nat.le_refl _, fun budget _ => runFrom_of_isNormal hnormal _ budget⟩
  | succ limit ih =>
    simp only [Edit.run, runFrom] at hrun
    rcases hstep : r.step net with ⟨fault | _ | entry, next⟩ <;> rw [hstep] at hrun
    · cases congrArg Prod.fst hrun
    · obtain ⟨hreport, rfl⟩ := Prod.mk.inj hrun
      obtain rfl : steps = total := congrArg Run.steps (Except.ok.inj hreport)
      obtain ⟨-, rfl, hnormal⟩ | ⟨_, _, hsome, -⟩ := step_cases hstep
      · exact ⟨Nat.le_refl _, fun budget _ => runFrom_of_isNormal hnormal _ budget⟩
      · cases hsome
    · obtain ⟨hle, hall⟩ := ih hrun
      refine ⟨by omega, fun budget hbudget => ?_⟩
      obtain ⟨budget, rfl⟩ : ∃ rest, budget = rest + 1 := ⟨budget - 1, by omega⟩
      simp only [Edit.run, runFrom, hstep]
      exact hall budget (by omega)

/-- A run that is refused is refused there with every greater budget. With a budget for no more than
the interactions that were made, it ends in front of the pair that is refused. -/
theorem runFrom_of_error (hrun : (r.runFrom steps limit).run net = (.error fault, after)) :
    ∃ (cause : Fault) (made : Nat), fault = cause.endingRun (steps + made) ∧
      (∀ budget, made < budget → (r.runFrom steps budget).run net = (.error fault, after)) ∧
      (r.runFrom steps made).run net = (.ok ⟨.diverging, steps + made⟩, after) := by
  induction limit generalizing net steps with
  | zero => cases congrArg Prod.fst hrun
  | succ limit ih =>
    simp only [Edit.run, runFrom] at hrun
    rcases hstep : r.step net with ⟨cause | _ | entry, next⟩ <;> rw [hstep] at hrun
    · -- a step that is refused leaves the net, and a run without budget ends in the same net
      obtain ⟨hfault, rfl⟩ := Prod.mk.inj hrun
      obtain rfl := Except.error.inj hfault
      obtain ⟨⟨pair, hpair, -⟩, rfl⟩ := (r.refusedFor_step cause _).1 hstep
      have hactive : ¬ next.isNormal := fun hnormal => by
        rw [List.isEmpty_iff.1 hnormal] at hpair
        cases hpair
      refine ⟨cause, 0, rfl, fun budget hbudget => ?_, ?_⟩
      · obtain ⟨budget, rfl⟩ : ∃ rest, budget = rest + 1 := ⟨budget - 1, by omega⟩
        simp only [Edit.run, runFrom, hstep]
      · simp only [Edit.run, runFrom, Net.runAtLimit, if_neg hactive, Nat.add_zero]
    · cases congrArg Prod.fst hrun
    · obtain ⟨cause, made, rfl, hall, hlimit⟩ := ih hrun
      refine ⟨cause, made + 1, by rw [Nat.add_assoc, Nat.add_comm 1 made],
        fun budget hbudget => ?_, ?_⟩
      · obtain ⟨budget, rfl⟩ : ∃ rest, budget = rest + 1 := ⟨budget - 1, by omega⟩
        simp only [Edit.run, runFrom, hstep]
        exact hall budget (by omega)
      · simp only [Edit.run, runFrom, hstep]
        rw [← Nat.add_assoc, Nat.add_right_comm]
        exact hlimit

/-- A reduction is a run with some budget that does not come to its limit. -/
theorem run_reduce_iff {fuel : Nat} {report : Except Fault Run} :
    (r.reduce fuel).run net = (report.map some, after) ↔
      (r.normalize fuel).run net = (report, after) ∧
        ∀ run, report = .ok run → run.outcome ≠ .diverging := by
  have hiff : ((Engine.mk ⟨none, .sequential⟩ r).run fuel).run net = (report.map some, after) ↔ _ :=
    Engine.run_eq_map_some_iff
  exact hiff.trans (and_congr_right fun _ => imp_iff_right rfl)

/-! ### Split budgets -/

/-- **A budget can be split anywhere.** A run for `m` interactions that is not refused, and a run
for `n` more on the net it leaves, give the net that one run for `m + n` gives, times aside; the one
run reports what the second one does, with the steps of the first one added. A run that is refused
is refused in the same way with every greater budget. A reduction that comes to a normal form is the
run with any budget that is enough for it. One that is refused is the run with any budget for more
than the interactions it made; with a budget for just these, the run says that it diverges. -/
theorem normalize_split {rules : RuleSet} (haccepted : ∀ rule ∈ rules.rules, rule.Accepted)
    (net : Net) (first second whole : Stopwatch) :
    (∀ m n run mid, ((Reducer.mk rules first).normalize m).run net = (.ok run, mid) →
      ((Reducer.mk rules whole).normalize (m + n)).untimed net =
        Prod.map (delayedReport run.steps) id
          (((Reducer.mk rules second).normalize n).untimed mid)) ∧
    (∀ m n fault mid, ((Reducer.mk rules first).normalize m).run net = (.error fault, mid) →
      ((Reducer.mk rules whole).normalize (m + n)).untimed net = (.error fault, mid.untimed)) ∧
    (∀ fuel run after, ((Reducer.mk rules first).reduce fuel).run net = (.ok (some run), after) →
      ∀ budget, run.steps ≤ budget →
        ((Reducer.mk rules whole).normalize budget).untimed net = (.ok run, after.untimed)) ∧
    ∀ fuel fault after, ((Reducer.mk rules first).reduce fuel).run net = (.error fault, after) →
      ∃ (cause : Fault) (made : Nat), fault = cause.endingRun made ∧
        (∀ budget, made < budget → ((Reducer.mk rules whole).normalize budget).untimed net =
          (.error fault, after.untimed)) ∧
        ((Reducer.mk rules whole).normalize made).untimed net =
          (.ok ⟨.diverging, made⟩, after.untimed) := by
  have hstopped : ∀ {limit report after},
      ((Reducer.mk rules first).normalize limit).run net = (report, after) →
      ((Reducer.mk rules .stopped).runFrom 0 limit).run net.untimed = (report, after.untimed) :=
    fun hrun => (untimed_normalize haccepted first _ net).symm.trans (Edit.untimed_eq hrun)
  refine ⟨fun m n run mid hrun => ?_, fun m n fault mid hrun => ?_,
    fun fuel run after hrun budget hbudget => ?_, fun fuel fault after hrun => ?_⟩
  · calc ((Reducer.mk rules whole).normalize (m + n)).untimed net
        = ((Reducer.mk rules .stopped).runFrom 0 (m + n)).run net.untimed :=
          untimed_normalize haccepted whole _ net
      _ = ((Reducer.mk rules .stopped).runFrom (run.steps + 0) n).run mid.untimed := by
          rw [runFrom_add, Edit.run_bind, hstopped hrun, Nat.add_zero]
      _ = Prod.map (delayedReport run.steps) id
            (((Reducer.mk rules second).normalize n).untimed mid) := by
          rw [runFrom_delayed, untimed_normalize haccepted second]
  · rw [untimed_normalize haccepted, runFrom_add, Edit.run_bind, hstopped hrun]
  · have hmap : _ = (Except.map some (.ok run), after) := hrun
    obtain ⟨hnormalize, hended⟩ := run_reduce_iff.1 hmap
    obtain ⟨outcome, steps⟩ := run
    obtain rfl : outcome = .normalForm := by
      cases outcome with
      | normalForm => rfl
      | diverging => exact absurd rfl (hended _ rfl)
    rw [untimed_normalize haccepted]
    exact (runFrom_of_normalForm (hstopped hnormalize)).2 budget (by rwa [Nat.zero_add])
  · have hmap : _ = (Except.map some (.error fault), after) := hrun
    obtain ⟨hnormalize, -⟩ := run_reduce_iff.1 hmap
    obtain ⟨cause, made, hfault, hall, hlimit⟩ := runFrom_of_error (hstopped hnormalize)
    rw [Nat.zero_add] at hfault hlimit
    refine ⟨cause, made, hfault, fun budget hbudget => ?_, ?_⟩
    · rw [untimed_normalize haccepted]
      exact hall budget hbudget
    · rw [untimed_normalize haccepted]
      exact hlimit

open Net in
/-- Of two pairs of passages that are joined, the second one is refused when the first one is gone.
That is the second run, when the first one was for one interaction. -/
theorem normalize_split_passages :
    ((Reducer.mk straight .stopped).normalize (1 + 1)).untimed passages =
      Prod.map (delayedReport 1) id (((Reducer.mk straight .stopped).normalize 1).untimed
        (((Reducer.mk straight .stopped).normalize 1).run passages).2) := by
  obtain ⟨hsplit, -⟩ :=
    normalize_split accepted_straight passages .stopped .stopped .stopped
  exact hsplit 1 1 ⟨.diverging, 1⟩ (((Reducer.mk straight .stopped).normalize 1).run passages).2
    (Prod.fst_eq_iff.1 (by decide +kernel))

open Net in
/-- The reduction of the passages is refused after one interaction, but a run for one interaction is
not refused. -/
theorem normalize_ne_reduce_passages :
    ∃ fault after, ((Reducer.mk straight .stopped).reduce 2).run passages = (.error fault, after) ∧
      fault = .aborted 1 (.freeWire (.of passage passage)) ∧
      after.tally.interactions = passages.tally.interactions + 1 ∧
      ¬ ∀ budget, 1 ≤ budget → ((Reducer.mk straight .stopped).normalize budget).untimed passages =
        (.error fault, after.untimed) := by
  have hreduce : (((Reducer.mk straight .stopped).reduce 2).run passages).1 =
      .error (.aborted 1 (.freeWire (.of passage passage))) := by decide +kernel
  have hcount : (((Reducer.mk straight .stopped).reduce 2).run passages).2.tally.interactions =
      passages.tally.interactions + 1 := by decide +kernel
  have hlimit : (((Reducer.mk straight .stopped).normalize 1).untimed passages).1 =
      .ok ⟨.diverging, 1⟩ := by decide +kernel
  refine ⟨.aborted 1 (.freeWire (.of passage passage)),
    (((Reducer.mk straight .stopped).reduce 2).run passages).2, Prod.fst_eq_iff.1 hreduce, rfl,
    hcount, fun hall => ?_⟩
  have hone := congrArg Prod.fst (hall 1 (Nat.le_refl 1))
  rw [hlimit] at hone
  cases hone

end Reducer

end InteractionNets
