import InteractionNets.Proofs.Redex.Guarded
import InteractionNets.Proofs.Rule.Sets
import InteractionNets.Reduction.Round

/-!
# Guarded reduction

The drivers let pairs interact, one at a time or in rounds, and count. With valid rules none of
them stops on a well-formed net before it has counted beyond the range: a plan that is carried out
is fresh or made again, so every interaction of a run starts from a well-formed net.
-/

namespace InteractionNets

open Net GuardedEdit

variable {net : Net}

namespace Reducer

variable {r : Reducer}

/-! ### One pair at a time -/

/-- Carry out a run and count its time. -/
def timed? {α : Type} (r : Reducer) (run : GuardedEdit α) : GuardedEdit α := fun net =>
  (run net).bind fun (result, after) =>
    checkTally (result, { after with tally := after.tally.recordBusy (r.watch.run net after) })

theorem safe_timed? {α : Type} {guarded : GuardedEdit α} {edit : Edit α}
    (h : guarded.Safe edit) : (r.timed? guarded).Safe (r.timed edit) := by
  intro net hnet
  have hrun := h net hnet
  exact hrun.bind (.of_checkTally (hrun.wellFormed.withTally _) (Tally.growsTo_recordBusy _ _))

/-- Let the first active pair interact. -/
def step? (r : Reducer) : GuardedEdit (Option (ActivePair × RuleKey)) := fun net =>
  match net.activePairs.head? with
  | none => some (.ok none, net)
  | some pair =>
    match r.rules.ruleFor pair with
    | none => some (.error (.noApplicableRule pair), net)
    | some rule =>
      (Net.interact? r.watch rule pair net).map
        (Prod.map (Except.map fun _ => some (pair, rule.key)) id)

theorem safe_step? (hr : r.rules.Valid) : r.step?.Safe r.step := by
  intro net h
  simp only [GuardedEdit.run, Edit.run, step?, step]
  cases net.activePairs.head? with
  | none => exact .of_tally_eq h rfl
  | some pair =>
    cases hrule : r.rules.ruleFor pair with
    | none =>
      simp only [hrule]
      exact .of_tally_eq h rfl
    | some rule =>
      have hmade := (safe_interact? (hr.of_ruleFor hrule) r.watch pair net h).map
        (Except.map fun _ => some (pair, rule.key))
      simp only [hrule]
      simp only [GuardedEdit.run, Edit.run] at hmade
      generalize Net.interact r.watch rule pair net = out at hmade ⊢
      obtain ⟨_ | _, _⟩ := out <;> exact hmade

/-- Go on with a run after some interactions. -/
def runFrom? (r : Reducer) (steps : Nat) : Nat → GuardedEdit Run
  | 0 => fun net => some (.ok (net.runAtLimit steps), net)
  | remaining + 1 => fun net =>
    (r.step? net).bind fun
      | (.ok none, net) => some (.ok ⟨.normalForm, steps⟩, net)
      | (.ok (some _), net) => r.runFrom? (steps + 1) remaining net
      | (.error fault, net) => some (.error (fault.endingRun steps), net)

theorem safe_runFrom? (hr : r.rules.Valid) (steps remaining : Nat) :
    (r.runFrom? steps remaining).Safe (r.runFrom steps remaining) := by
  induction remaining generalizing steps with
  | zero => exact fun net h => .of_tally_eq h rfl
  | succ remaining ih =>
    intro net h
    have hstep := safe_step? hr net h
    have hwf := hstep.wellFormed
    simp only [GuardedEdit.run, Edit.run, runFrom?, runFrom] at hstep hwf ⊢
    refine hstep.bind ?_
    generalize r.step net = out at hwf ⊢
    obtain ⟨fault | _ | made, after⟩ := out
    · exact .of_tally_eq hwf rfl
    · exact .of_tally_eq hwf rfl
    · exact ih (steps + 1) after hwf

/-- Reduce for at most the given number of interactions. -/
def normalize? (r : Reducer) (limit : Nat) : GuardedEdit Run :=
  r.timed? (r.runFrom? 0 limit)

theorem safe_normalize? (hr : r.rules.Valid) (limit : Nat) :
    (r.normalize? limit).Safe (r.normalize limit) :=
  safe_timed? (safe_runFrom? hr 0 limit)

/-- Take a run as one without limit. -/
def unlimited? (run : GuardedEdit Run) : GuardedEdit (Option Run) := do
  let run ← run
  return if run.outcome = .diverging then none else some run

theorem safe_unlimited? {guarded : GuardedEdit Run} {edit : Edit Run} (h : guarded.Safe edit) :
    (unlimited? guarded).Safe (unlimited edit) :=
  h.bind fun _ => safe_pure _

/-- Reduce to normal form. -/
def reduce? (r : Reducer) (fuel : Nat) : GuardedEdit (Option Run) :=
  unlimited? (r.normalize? fuel)

theorem safe_reduce? (hr : r.rules.Valid) (fuel : Nat) : (r.reduce? fuel).Safe (r.reduce fuel) :=
  safe_unlimited? (safe_normalize? hr fuel)

end Reducer

/-! ### Rounds -/

namespace Plan

theorem isFresh_iff {plan : Plan} {rule : Rule} : plan.isFresh net rule ↔
    Surroundings.read net plan.surroundings.pair rule = .ok plan.surroundings := by
  unfold isFresh
  cases Surroundings.read net plan.surroundings.pair rule with
  | error fault => simp
  | ok s => simp

end Plan

namespace PlannedInteraction

/-- A planned interaction by a valid rule whose plan was made from the surroundings it records. -/
def Sound (planned : PlannedInteraction) : Prop :=
  planned.rule.Valid ∧ Plan.make planned.plan.surroundings planned.rule = .ok planned.plan

theorem sound_of_planAll {found : List (Surroundings × Rule)} {plans : List PlannedInteraction}
    (hrules : ∀ entry ∈ found, entry.2.Valid) (hplans : planAll found = .ok plans) :
    ∀ planned ∈ plans, planned.Sound := by
  induction found generalizing plans with
  | nil =>
    obtain rfl := Except.ok.inj hplans
    simp
  | cons entry rest ih =>
    obtain ⟨s, rule⟩ := entry
    rw [planAll] at hplans
    split at hplans
    · cases hplans
    · rename_i plan hmake
      split at hplans
      · cases hplans
      · rename_i others hothers
        obtain rfl := Except.ok.inj hplans
        refine List.forall_mem_cons.2 ⟨⟨hrules _ List.mem_cons_self, ?_⟩,
          ih (fun e he => hrules e (List.mem_cons_of_mem _ he)) hothers⟩
        rw [Plan.surroundings_of_make hmake]
        exact hmake

/-- Carry out a planned interaction. -/
def carryOut? (watch : Stopwatch) (planned : PlannedInteraction) : GuardedEdit Unit := fun net =>
  let pair := planned.plan.surroundings.pair
  if planned.plan.isFresh net planned.rule then
    planned.plan.commit? planned.rule (watch.interaction net pair) net
  else
    (checkTally ((), { net with tally := net.tally.recordReplan planned.rule.label })).bind
      fun counted => Net.interact? watch planned.rule pair counted.2

theorem safe_carryOut? {planned : PlannedInteraction} (hp : planned.Sound) (watch : Stopwatch) :
    (planned.carryOut? watch).Safe (planned.carryOut watch) := by
  intro net h
  obtain ⟨hv, hmake⟩ := hp
  by_cases hfresh : planned.plan.isFresh net planned.rule
  · simp only [GuardedEdit.run, Edit.run, carryOut?, carryOut, hfresh, if_true]
    exact Plan.safe_commit? h hv (Plan.isFresh_iff.1 hfresh) hmake _
  · simp only [GuardedEdit.run, Edit.run, carryOut?, carryOut, hfresh, if_false,
      Bool.false_eq_true]
    have hcounted : SafeOutcome net
        (checkTally ((), { net with tally := net.tally.recordReplan planned.rule.label }))
        ((), { net with tally := net.tally.recordReplan planned.rule.label }) :=
      .of_checkTally (h.withTally _) (Tally.growsTo_recordReplan _ _)
    exact hcounted.bind (safe_interact? hv watch _ _ hcounted.wellFormed)

/-- Carry out planned interactions until one fails. -/
def carryOutAll? (watch : Stopwatch) (done : Nat) :
    List PlannedInteraction → Net → Option ((Nat × Option Fault) × Net)
  | [], net => some ((done, none), net)
  | planned :: rest, net =>
    (planned.carryOut? watch net).bind fun
      | (.ok (), net) => carryOutAll? watch (done + 1) rest net
      | (.error fault, net) => some ((done, some fault), net)

theorem safe_carryOutAll? {plans : List PlannedInteraction}
    (hplans : ∀ planned ∈ plans, planned.Sound) (watch : Stopwatch) (done : Nat)
    (h : net.WellFormed) :
    SafeOutcome net (carryOutAll? watch done plans net) (carryOutAll watch done plans net) := by
  induction plans generalizing net done with
  | nil => exact .of_tally_eq h rfl
  | cons planned rest ih =>
    obtain ⟨hplanned, hrest⟩ := List.forall_mem_cons.1 hplans
    have hturn := safe_carryOut? hplanned watch net h
    have hwf := hturn.wellFormed
    simp only [GuardedEdit.run, Edit.run] at hturn hwf
    rw [carryOutAll?, carryOutAll]
    refine hturn.bind ?_
    generalize planned.carryOut watch net = out at hwf ⊢
    obtain ⟨fault | _, after⟩ := out
    · exact .of_tally_eq hwf rfl
    · exact ih hrest (done + 1) hwf

end PlannedInteraction

namespace Net

/-- A survey finds rules of the rule set only. -/
theorem mem_rules_of_survey {rules : RuleSet} {pairs : List ActivePair}
    {found : List (Surroundings × Rule)} (hfound : net.survey rules pairs = .ok found) :
    ∀ entry ∈ found, entry.2 ∈ rules.rules := by
  induction pairs generalizing found with
  | nil =>
    obtain rfl := Except.ok.inj hfound
    simp
  | cons pair rest ih =>
    rw [survey] at hfound
    split at hfound
    · cases hfound
    · rename_i rule hrule
      split at hfound
      · cases hfound
      · split at hfound
        · cases hfound
        · rename_i others hothers
          obtain rfl := Except.ok.inj hfound
          exact List.forall_mem_cons.2 ⟨RuleSet.mem_rules_of_ruleFor hrule, ih hothers⟩

end Net

namespace Reducer

open PlannedInteraction

variable {r : Reducer}

theorem sound_of_planRound (hr : r.rules.Valid) {limit : Option Nat}
    {plans : List PlannedInteraction} (hplans : r.planRound net limit = .ok plans) :
    ∀ planned ∈ plans, planned.Sound := by
  rw [planRound] at hplans
  split at hplans
  · cases hplans
  · rename_i found hfound
    exact sound_of_planAll (fun entry hentry => hr _ (mem_rules_of_survey hfound entry hentry))
      hplans

/-- Make a round. -/
def runRound? (r : Reducer) (limit : Option Nat) (net : Net) :
    Option ((Nat × Option Fault) × Net) :=
  match r.planRound net limit with
  | .error fault => some ((0, some fault), net)
  | .ok plans =>
    (carryOutAll? r.watch 0 plans net).bind fun (result, net) =>
      if result.1 = 0 then some (result, net)
      else checkTally (result, { net with tally := net.tally.recordRound })

theorem safe_runRound? (hr : r.rules.Valid) (limit : Option Nat) (h : net.WellFormed) :
    SafeOutcome net (r.runRound? limit net) (r.runRound limit net) := by
  rw [runRound?, runRound]
  cases hplans : r.planRound net limit with
  | error fault => exact .of_tally_eq h rfl
  | ok plans =>
    have hturns := safe_carryOutAll? (sound_of_planRound hr hplans) r.watch 0 h
    dsimp only
    generalize carryOutAll r.watch 0 plans net = out at hturns ⊢
    obtain ⟨result, after⟩ := out
    refine hturns.bind ?_
    by_cases hnone : result.1 = 0
    · simp only [hnone, if_true]
      exact .of_tally_eq hturns.wellFormed rfl
    · simp only [hnone, if_false]
      exact .of_checkTally (hturns.wellFormed.withTally _) (Tally.growsTo_recordRound after.tally)

/-- What a round answers: how many interactions it made, or the fault that ended it. -/
def answer : Nat × Option Fault → Except Fault Nat
  | (done, none) => .ok done
  | (0, some fault) => .error fault
  | (done + 1, some fault) => .error (.aborted (done + 1) fault)

/-- Let the first active pairs of a net interact in one round. -/
def round? (r : Reducer) (limit : Option Nat) : GuardedEdit Nat := fun net =>
  (r.runRound? limit net).map (Prod.map answer id)

theorem safe_round? (hr : r.rules.Valid) (limit : Option Nat) :
    (r.round? limit).Safe (r.round limit) := by
  intro net h
  have hround := (safe_runRound? hr limit h).map answer
  simp only [GuardedEdit.run, Edit.run, round?, round]
  generalize r.runRound limit net = out at hround ⊢
  obtain ⟨⟨_ | _, _ | _⟩, _⟩ := out <;> exact hround

/-- Go on with a run in rounds after some interactions. -/
def roundsFrom? (r : Reducer) : Nat → Nat → Nat → GuardedEdit Run
  | 0, steps, _ => fun net => some (.ok (net.runAtLimit steps), net)
  | rounds + 1, steps, remaining => fun net =>
    if remaining = 0 then some (.ok (net.runAtLimit steps), net)
    else
      (r.runRound? (some remaining) net).bind fun
        | ((done, some fault), net) => some (.error (fault.endingRun (steps + done)), net)
        | ((0, none), net) => some (.ok ⟨.normalForm, steps⟩, net)
        | ((done + 1, none), net) =>
          r.roundsFrom? rounds (steps + (done + 1)) (remaining - (done + 1)) net

theorem safe_roundsFrom? (hr : r.rules.Valid) (rounds steps remaining : Nat) :
    (r.roundsFrom? rounds steps remaining).Safe (r.roundsFrom rounds steps remaining) := by
  induction rounds generalizing steps remaining with
  | zero => exact fun net h => .of_tally_eq h rfl
  | succ rounds ih =>
    intro net h
    by_cases hremaining : remaining = 0
    · simp only [GuardedEdit.run, Edit.run, roundsFrom?, roundsFrom, hremaining, if_true]
      exact .of_tally_eq h rfl
    · have hround := safe_runRound? hr (some remaining) h
      have hwf := hround.wellFormed
      simp only [GuardedEdit.run, Edit.run, roundsFrom?, roundsFrom, hremaining, if_false]
      refine hround.bind ?_
      generalize r.runRound (some remaining) net = out at hwf ⊢
      obtain ⟨⟨_ | done, _ | fault⟩, after⟩ := out
      · exact .of_tally_eq hwf rfl
      · exact .of_tally_eq hwf rfl
      · exact ih (steps + (done + 1)) (remaining - (done + 1)) after hwf
      · exact .of_tally_eq hwf rfl

/-- Reduce in rounds for at most the given number of interactions. -/
def normalizeInRounds? (r : Reducer) (limit : Nat) : GuardedEdit Run :=
  r.timed? (r.roundsFrom? limit 0 limit)

theorem safe_normalizeInRounds? (hr : r.rules.Valid) (limit : Nat) :
    (r.normalizeInRounds? limit).Safe (r.normalizeInRounds limit) :=
  safe_timed? (safe_roundsFrom? hr limit 0 limit)

/-- Reduce in rounds to normal form. -/
def reduceInRounds? (r : Reducer) (fuel : Nat) : GuardedEdit (Option Run) :=
  unlimited? (r.normalizeInRounds? fuel)

theorem safe_reduceInRounds? (hr : r.rules.Valid) (fuel : Nat) :
    (r.reduceInRounds? fuel).Safe (r.reduceInRounds fuel) :=
  safe_unlimited? (safe_normalizeInRounds? hr fuel)

end Reducer

end InteractionNets
