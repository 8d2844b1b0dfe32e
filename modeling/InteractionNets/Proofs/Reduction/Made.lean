import InteractionNets.Proofs.Reachable
import InteractionNets.Proofs.Reduction.Reports

/-!
# What reducers make

A reducer is called for a step, a round or a whole run. The interactions that its calls make can be
listed, pair by pair with the rules (`Reducer.madeAll`), whether the calls end well or not. What can
be said of the list and of the nets before and after it, as soon as it can be said of every
interaction and every round, can be said of all calls (`Reducer.IsLedger.leaveAll`). So they are all
made by the rules that are looked up for the pairs (`Reducer.ruleFor_of_mem_madeAll`), and one after
another they leave what the calls leave, but for the tally (`Reducer.isLeftBy_madeAll`).
-/

namespace InteractionNets

open Net RuleSet

variable {net next seq : Net} {jobs jobs' : List (ActivePair × Rule)} {rule : Rule} {r : Reducer}

/-! ### What is made -/

namespace PlannedInteraction

/-- The planned interactions that are made when they are carried out one after another until one
fails. -/
def made (watch : Stopwatch) : List PlannedInteraction → Net → List (ActivePair × Rule)
  | [], _ => []
  | planned :: rest, net =>
    match planned.carryOut watch net with
    | (.ok (), next) => planned.job :: made watch rest next
    | (.error _, _) => []

/-- The interactions that are made are the first ones of those that were planned. -/
theorem made_eq_take (watch : Stopwatch) (plans : List PlannedInteraction) (net : Net)
    (done : Nat) : ∃ n, (carryOutAll watch done plans net).1.1 = done + n ∧
      made watch plans net = (plans.map job).take n := by
  induction plans generalizing net done with
  | nil => exact ⟨0, rfl, rfl⟩
  | cons planned rest ih =>
    rcases hrun : planned.carryOut watch net with ⟨fault | _, next⟩ <;>
      simp only [carryOutAll, made, hrun]
    · exact ⟨0, rfl, rfl⟩
    · obtain ⟨n, hdone, hmade⟩ := ih next (done + 1)
      refine ⟨n + 1, by rw [hdone]; omega, ?_⟩
      rw [hmade, List.map_cons, List.take_succ_cons]

end PlannedInteraction

namespace Reducer

/-- What a reducer can be asked for. -/
inductive Call where
  | step
  | normalize (limit : Nat)
  | reduce (fuel : Nat)
  | round (limit : Option Nat)
  | normalizeInRounds (limit : Nat)
  | reduceInRounds (fuel : Nat)

/-- What a call does to a net. -/
def Call.operation (r : Reducer) : Call → Operation
  | step => .step r
  | normalize limit => .normalize r limit
  | reduce fuel => .reduce r fuel
  | round limit => .round r limit
  | normalizeInRounds limit => .normalizeInRounds r limit
  | reduceInRounds fuel => .reduceInRounds r fuel

/-- The net that is left after a call, which may have ended with a fault. -/
def leave (r : Reducer) (call : Call) (net : Net) : Net :=
  (call.operation r).perform net

/-- The net that is left after some calls. -/
def leaveAll (r : Reducer) (calls : List Call) (net : Net) : Net :=
  calls.foldl (fun net call => r.leave call net) net

/-- The interaction of a step, if there is one. -/
def madeByStep (r : Reducer) (net : Net) : List (ActivePair × Rule) :=
  match r.step net with
  | (.ok (some (pair, _)), _) => (r.rules.ruleFor pair).toList.map (Prod.mk pair)
  | _ => []

/-- The interactions of some steps. -/
def madeByRun (r : Reducer) : Nat → Net → List (ActivePair × Rule)
  | 0, _ => []
  | remaining + 1, net =>
    r.madeByStep net ++
      match r.step net with
      | (.ok (some _), next) => r.madeByRun remaining next
      | _ => []

/-- The interactions of a round. -/
def madeByRound (r : Reducer) (limit : Option Nat) (net : Net) : List (ActivePair × Rule) :=
  match r.planRound net limit with
  | .error _ => []
  | .ok plans => PlannedInteraction.made r.watch plans net

/-- The interactions of some rounds. -/
def madeByRounds (r : Reducer) : Nat → Nat → Net → List (ActivePair × Rule)
  | 0, _, _ => []
  | rounds + 1, remaining, net =>
    if remaining = 0 then []
    else
      r.madeByRound (some remaining) net ++
        match r.runRound (some remaining) net with
        | ((done + 1, none), next) => r.madeByRounds rounds (remaining - (done + 1)) next
        | _ => []

/-- The interactions of a call. -/
def made (r : Reducer) : Call → Net → List (ActivePair × Rule)
  | .step, net => r.madeByStep net
  | .normalize limit, net => r.madeByRun limit net
  | .reduce fuel, net => r.madeByRun fuel net
  | .round limit, net => r.madeByRound limit net
  | .normalizeInRounds limit, net => r.madeByRounds limit limit net
  | .reduceInRounds fuel, net => r.madeByRounds fuel fuel net

/-- The interactions of some calls. -/
def madeAll (r : Reducer) : List Call → Net → List (ActivePair × Rule)
  | [], _ => []
  | call :: rest, net => r.made call net ++ r.madeAll rest (r.leave call net)

/-- A step finds a normal form, makes an interaction, or is refused. -/
theorem madeByStep_cases (r : Reducer) (net : Net) :
    (r.step net = (.ok none, net) ∧ r.madeByStep net = []) ∨
      (∃ pair rule next, pair ∈ net.activePairs ∧ r.rules.ruleFor pair = some rule ∧
        net.interact r.watch rule pair = (.ok (), next) ∧
        r.step net = (.ok (some (pair, rule.key)), next) ∧
        r.madeByStep net = [(pair, rule)]) ∨
      ∃ fault, r.step net = (.error fault, net) ∧ r.madeByStep net = [] := by
  rcases hstep : r.step net with ⟨fault | entry, next⟩
  · obtain ⟨-, rfl⟩ := (r.refusedFor_step fault next).1 hstep
    exact .inr (.inr ⟨fault, rfl, by simp only [madeByStep, hstep]⟩)
  · obtain ⟨rfl, rfl, -⟩ | ⟨pair, rule, rfl, hpair, hfor, hrun⟩ := step_cases hstep
    · exact .inl ⟨rfl, by simp only [madeByStep, hstep]⟩
    · refine .inr (.inl ⟨pair, rule, next, hpair, hfor, hrun, rfl, ?_⟩)
      simp only [madeByStep, hstep, hfor]
      rfl

/-- A run without limit leaves what the run leaves. -/
theorem snd_unlimited (run : Edit Run) (net : Net) :
    ((unlimited run).run net).2 = (run net).2 := by
  rw [unlimited, Edit.run_bind, Edit.run]
  rcases run net with ⟨_ | _, _⟩ <;> rfl

theorem snd_round (r : Reducer) (limit : Option Nat) (net : Net) :
    ((r.round limit).run net).2 = (r.runRound limit net).2 := by
  rcases hrun : r.runRound limit net with ⟨⟨_ | _, _ | _⟩, _⟩ <;>
    simp only [Edit.run, round, hrun]

/-! ### Ledgers -/

/-- What the interactions of a reducer have to do with the net before and the net after them. It
holds of every interaction and of the turns of every round, and it can be put together; counting a
round or the time of a run does not change it. -/
structure IsLedger (r : Reducer) (R : List (ActivePair × Rule) → Net → Net → Prop) : Prop where
  refl : ∀ net, R [] net net
  trans : ∀ {jobs jobs' net mid after}, R jobs net mid → R jobs' mid after →
    R (jobs ++ jobs') net after
  interact : ∀ {net next pair rule}, pair ∈ net.activePairs → r.rules.ruleFor pair = some rule →
    net.interact r.watch rule pair = (.ok (), next) → R [(pair, rule)] net next
  turns : ∀ {limit net plans}, r.planRound net limit = .ok plans →
    R (PlannedInteraction.made r.watch plans net) net
      (PlannedInteraction.carryOutAll r.watch 0 plans net).2
  recordRound : ∀ {jobs net after}, R jobs net after →
    R jobs net { after with tally := after.tally.recordRound }
  recordBusy : ∀ {jobs net after} took, R jobs net after →
    R jobs net { after with tally := after.tally.recordBusy took }

namespace IsLedger

variable {R : List (ActivePair × Rule) → Net → Net → Prop}

theorem step (h : r.IsLedger R) (net : Net) : R (r.madeByStep net) net (r.step net).2 := by
  obtain ⟨hstep, hmade⟩ | ⟨pair, rule, next, hpair, hfor, hrun, hstep, hmade⟩ |
    ⟨fault, hstep, hmade⟩ := r.madeByStep_cases net <;> rw [hstep, hmade]
  · exact h.refl net
  · exact h.interact hpair hfor hrun
  · exact h.refl net

/-- A run one pair at a time is made of its steps. -/
theorem runFrom (h : r.IsLedger R) (steps remaining : Nat) (net : Net) :
    R (r.madeByRun remaining net) net (r.runFrom steps remaining net).2 := by
  induction remaining generalizing steps net with
  | zero => exact h.refl net
  | succ remaining ih =>
    have hstep := h.step net
    rcases hrun : r.step net with ⟨fault | _ | entry, next⟩ <;> rw [hrun] at hstep <;>
      simp only [Reducer.runFrom, madeByRun, hrun]
    · rwa [List.append_nil]
    · rwa [List.append_nil]
    · exact h.trans hstep (ih (steps + 1) next)

/-- A round is made of its turns, and counted if there were any. -/
theorem round (h : r.IsLedger R) (limit : Option Nat) (net : Net) :
    R (r.madeByRound limit net) net (r.runRound limit net).2 := by
  rw [runRound, madeByRound]
  cases hplans : r.planRound net limit with
  | error fault => exact h.refl net
  | ok plans =>
    have hturns := h.turns hplans
    rcases hrun : PlannedInteraction.carryOutAll r.watch 0 plans net with ⟨result, next⟩
    rw [hrun] at hturns
    simp only [hrun]
    split
    · exact hturns
    · exact h.recordRound hturns

/-- A run in rounds is made of its rounds. -/
theorem roundsFrom (h : r.IsLedger R) (rounds steps remaining : Nat) (net : Net) :
    R (r.madeByRounds rounds remaining net) net (r.roundsFrom rounds steps remaining net).2 := by
  induction rounds generalizing net steps remaining with
  | zero => exact h.refl net
  | succ rounds ih =>
    by_cases hnone : remaining = 0
    · simp only [Reducer.roundsFrom, madeByRounds, hnone, if_true]
      exact h.refl net
    · have hround := h.round (some remaining) net
      rcases hrun : r.runRound (some remaining) net with ⟨⟨_ | done, _ | fault⟩, next⟩ <;>
        rw [hrun] at hround <;> simp only [Reducer.roundsFrom, madeByRounds, hnone, if_false, hrun]
      case zero.none | zero.some | succ.some => rwa [List.append_nil]
      case succ.none =>
        exact h.trans hround (ih (steps + (done + 1)) (remaining - (done + 1)) next)

theorem leave (h : r.IsLedger R) (call : Call) (net : Net) :
    R (r.made call net) net (r.leave call net) := by
  cases call with
  | step => exact h.step net
  | normalize limit => exact h.recordBusy _ (h.runFrom 0 limit net)
  | reduce fuel =>
    rw [Reducer.leave, Call.operation, Operation.perform, reduce, snd_unlimited]
    exact h.recordBusy _ (h.runFrom 0 fuel net)
  | round limit =>
    rw [Reducer.leave, Call.operation, Operation.perform, snd_round]
    exact h.round limit net
  | normalizeInRounds limit => exact h.recordBusy _ (h.roundsFrom limit 0 limit net)
  | reduceInRounds fuel =>
    rw [Reducer.leave, Call.operation, Operation.perform, reduceInRounds, snd_unlimited]
    exact h.recordBusy _ (h.roundsFrom fuel 0 fuel net)

/-- What holds of every interaction and every round holds of all calls. -/
theorem leaveAll (h : r.IsLedger R) (calls : List Call) (net : Net) :
    R (r.madeAll calls net) net (r.leaveAll calls net) := by
  induction calls generalizing net with
  | nil => exact h.refl net
  | cons call rest ih => exact h.trans (h.leave call net) (ih (r.leave call net))

end IsLedger

/-! ### The rules that are used -/

/-- The turns of a round are made by the rules that were looked up when it was planned. -/
theorem ruleFor_of_mem_turns {limit : Option Nat} {plans : List PlannedInteraction}
    (hplans : r.planRound net limit = .ok plans) {job : ActivePair × Rule}
    (hjob : job ∈ PlannedInteraction.made r.watch plans net) :
    r.rules.ruleFor job.1 = some job.2 := by
  obtain ⟨n, -, hmade⟩ := PlannedInteraction.made_eq_take r.watch plans net 0
  rw [hmade] at hjob
  obtain ⟨planned, hplanned, rfl⟩ := List.mem_map.1 (List.mem_of_mem_take hjob)
  exact ((planRound_spec hplans).2 planned hplanned).ruleFor

theorem isLedger_ruleFor (r : Reducer) :
    r.IsLedger fun jobs _ _ => ∀ job ∈ jobs, r.rules.ruleFor job.1 = some job.2 where
  refl _ := List.forall_mem_nil _
  trans h h' := List.forall_mem_append.2 ⟨h, h'⟩
  interact _ hfor _ := List.forall_mem_singleton.2 hfor
  turns hplans _ hjob := ruleFor_of_mem_turns hplans hjob
  recordRound h := h
  recordBusy _ h := h

/-- Every pair interacts by the rule that is looked up for it. -/
theorem ruleFor_of_mem_madeAll {job : ActivePair × Rule} {calls : List Call}
    (hjob : job ∈ r.madeAll calls net) : r.rules.ruleFor job.1 = some job.2 :=
  r.isLedger_ruleFor.leaveAll calls net job hjob

end Reducer

/-! ### One after another -/

/-- A net has the structure that some interactions leave, one after another. -/
def Net.IsLeftBy (after : Net) (jobs : List (ActivePair × Rule)) (net : Net) : Prop :=
  ∀ watch, ∃ last, (interactAll watch jobs).run net = (.ok (), last) ∧ after.SameStructure last

namespace Net.IsLeftBy

theorem refl (net : Net) : net.IsLeftBy [] net :=
  fun _ => ⟨net, rfl, .refl net⟩

theorem withTally {after : Net} (h : after.IsLeftBy jobs net) (tally : Tally) :
    { after with tally := tally }.IsLeftBy jobs net := by
  intro watch
  obtain ⟨last, hrun, hsame⟩ := h watch
  exact ⟨last, hrun, (SameStructure.withTally after tally).trans hsame⟩

/-- Interactions can be made in every net of the same structure. -/
theorem of_sameStructure {after : Net} (h : after.IsLeftBy jobs net)
    (hempty : ∀ job ∈ jobs, job.2.replacement.net.tally = .empty)
    (hsame : net.SameStructure seq) : after.IsLeftBy jobs seq := by
  intro watch
  obtain ⟨last, hrun, hlast⟩ := h watch
  suffices ∃ last', (interactAll watch jobs).run seq = (.ok (), last') ∧
      last.SameStructure last' by
    obtain ⟨last', hrun', hlast'⟩ := this
    exact ⟨last', hrun', hlast.trans hlast'⟩
  clear h hlast
  induction jobs generalizing net seq with
  | nil =>
    obtain rfl : net = last := (Prod.mk.inj hrun).2
    exact ⟨seq, rfl, hsame⟩
  | cons job rest ih =>
    rw [List.forall_mem_cons] at hempty
    rw [interactAll, Edit.run_bind, Edit.run] at hrun ⊢
    rcases hfirst : interact watch job.2 job.1 net with ⟨fault | _, next⟩ <;> rw [hfirst] at hrun
    · cases (Prod.mk.inj hrun).1
    · obtain ⟨next', -, -, hfirst', hnext, -, -⟩ := hsame.interact_ok hempty.1 hfirst watch
      rw [hfirst']
      exact ih hempty.2 hnext hrun

theorem trans {mid after : Net} (h : mid.IsLeftBy jobs net) (h' : after.IsLeftBy jobs' mid)
    (hempty : ∀ job ∈ jobs', job.2.replacement.net.tally = .empty) :
    after.IsLeftBy (jobs ++ jobs') net := by
  intro watch
  obtain ⟨last, hrun, hsame⟩ := h watch
  obtain ⟨last', hrun', hsame'⟩ := h'.of_sameStructure hempty hsame watch
  refine ⟨last', ?_, hsame'⟩
  clear h h' hsame hsame'
  induction jobs generalizing net with
  | nil =>
    obtain rfl : net = last := (Prod.mk.inj hrun).2
    exact hrun'
  | cons job rest ih =>
    rw [interactAll, Edit.run_bind, Edit.run] at hrun
    rw [List.cons_append, interactAll, Edit.run_bind, Edit.run]
    rcases hfirst : interact watch job.2 job.1 net with ⟨fault | _, next⟩ <;> rw [hfirst] at hrun
    · cases (Prod.mk.inj hrun).1
    · exact ih hrun

theorem interact {pair : ActivePair} {watch : Stopwatch}
    (hempty : rule.replacement.net.tally = .empty)
    (hrun : net.interact watch rule pair = (.ok (), next)) : next.IsLeftBy [(pair, rule)] net := by
  intro watch'
  obtain ⟨last, -, -, hlast, hsame, -⟩ := (SameStructure.refl net).interact_ok hempty hrun watch'
  refine ⟨last, ?_, hsame⟩
  rw [interactAll, Edit.run_bind, Edit.run, hlast]
  rfl

end Net.IsLeftBy

namespace Reducer

section Accepted

variable (haccepted : ∀ rule ∈ r.rules.rules, rule.Accepted)

include haccepted

private theorem tally_of_ruleFor {pair : ActivePair} (hfor : r.rules.ruleFor pair = some rule) :
    rule.replacement.net.tally = .empty :=
  (haccepted _ (mem_rules_of_ruleFor hfor)).tally_eq_empty

/-- The turns of a round leave a net of the structure that their interactions leave. -/
theorem isLeftBy_turns (h : net.WellFormed) {limit : Option Nat} {plans : List PlannedInteraction}
    (hplans : r.planRound net limit = .ok plans) :
    (PlannedInteraction.carryOutAll r.watch 0 plans net).2.IsLeftBy
      (PlannedInteraction.made r.watch plans net) net := by
  intro watch
  obtain ⟨n, hdone, hmade⟩ := PlannedInteraction.made_eq_take r.watch plans net 0
  rw [hmade]
  rcases PlannedInteraction.carryOutAll_sequence haccepted h (allReady_of_planRound h hplans)
    (.refl net) (.refl net.tally) r.watch watch 0 with
    ⟨after, last, hall, hrun, hsame, -⟩ | ⟨made, key, after, last, -, hall, hrun, -, hsame, -⟩
  · rw [hall] at hdone ⊢
    have hlength : (plans.map PlannedInteraction.job).length ≤ n := by
      rw [List.length_map]
      exact Nat.le_of_eq (Nat.add_left_cancel hdone)
    rw [List.take_of_length_le hlength]
    exact ⟨last, hrun, hsame⟩
  · rw [hall] at hdone ⊢
    obtain rfl : made = n := Nat.add_left_cancel hdone
    exact ⟨last, hrun, hsame⟩

/-- A round does not leave the net of its interactions itself, but one of the same structure. So the
interactions that follow it are made again, by rules that count nothing of their own. -/
theorem isLedger_isLeftBy : r.IsLedger fun jobs net after => net.WellFormed →
    after.WellFormed ∧ after.IsLeftBy jobs net ∧
      ∀ job ∈ jobs, job.2.replacement.net.tally = .empty where
  refl net h := ⟨h, .refl net, List.forall_mem_nil _⟩
  trans hfirst hsecond h := by
    obtain ⟨hmid, hleft, hempty⟩ := hfirst h
    obtain ⟨hafter, hleft', hempty'⟩ := hsecond hmid
    exact ⟨hafter, hleft.trans hleft' hempty', List.forall_mem_append.2 ⟨hempty, hempty'⟩⟩
  interact _ hfor hrun h := by
    have hempty := tally_of_ruleFor haccepted hfor
    obtain ⟨agents, copy, port, hw⟩ := isRewrite_of_interact haccepted h hfor hrun
    exact ⟨hw.wellFormed, .interact hempty hrun, List.forall_mem_singleton.2 hempty⟩
  turns hplans h := by
    obtain ⟨-, -, -, hafter, -⟩ := PlannedInteraction.carryOutAll_reports haccepted h
      (allReady_of_planRound h hplans) rfl
    exact ⟨hafter, isLeftBy_turns haccepted h hplans, fun job hjob =>
      tally_of_ruleFor haccepted (ruleFor_of_mem_turns hplans hjob)⟩
  recordRound h hnet := by
    obtain ⟨hafter, hleft, hempty⟩ := h hnet
    exact ⟨hafter.withTally _, hleft.withTally _, hempty⟩
  recordBusy took h hnet := by
    obtain ⟨hafter, hleft, hempty⟩ := h hnet
    exact ⟨hafter.withTally _, hleft.withTally _, hempty⟩

/-- The interactions that are listed leave, one after another, what the calls leave. -/
theorem isLeftBy_madeAll (h : net.WellFormed) (calls : List Call) :
    (r.leaveAll calls net).IsLeftBy (r.madeAll calls net) net :=
  ((isLedger_isLeftBy haccepted).leaveAll calls net h).2.1

end Accepted

end Reducer

end InteractionNets
