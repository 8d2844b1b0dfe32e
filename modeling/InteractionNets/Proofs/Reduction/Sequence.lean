import InteractionNets.Proofs.Redex.Structure
import InteractionNets.Proofs.Reduction.Rounds
import InteractionNets.Proofs.Refusals

/-!
# A round is the sequence of its interactions

A round plans all its interactions on the net as it is at first, and makes plans again that are not
fresh any more. It leaves the very net, ids and vacant slots included, that its pairs leave when
they interact one after another, whatever the rules do (`Reducer.round_sequence`). All pairs stay
active until their turns come, and the first plan is fresh, so a round that is cut short made an
interaction before, and is cut short by a path between two places on the interface.
-/

namespace InteractionNets

open Net RuleSet

/-- Some pairs with the rules that a set has for them. -/
structure RuleSet.Assigns (rules : RuleSet) (pairs : List ActivePair)
    (jobs : List (ActivePair × Rule)) : Prop where
  pairs : jobs.map Prod.fst = pairs
  ruleFor : ∀ job ∈ jobs, rules.ruleFor job.1 = some job.2

/-- Let pairs interact one after another, each by a rule. -/
def Net.interactAll (watch : Stopwatch) : List (ActivePair × Rule) → Edit Unit
  | [] => pure ()
  | (pair, rule) :: rest => do
    interact watch rule pair
    interactAll watch rest

variable {net seq after : Net} {rules : RuleSet} {watch watch' : Stopwatch}

namespace PlannedInteraction

variable {planned : PlannedInteraction} {plans : List PlannedInteraction}

/-- The pair of a planned interaction with the rule for it. -/
def job (planned : PlannedInteraction) : ActivePair × Rule :=
  (planned.pair, planned.rule)

section Accepted

variable (haccepted : ∀ rule ∈ rules.rules, rule.Accepted)

include haccepted

/-- A planned interaction is refused for a path between two places on the interface, or the pairs
independent of it stay ready. -/
theorem Ready.interact_cases (h : net.WellFormed) (hready : planned.Ready rules net)
    (watch : Stopwatch) :
    net.interact watch planned.rule planned.pair =
        (.error (.freeWire planned.rule.key), net) ∨
      ∃ after, net.interact watch planned.rule planned.pair = (.ok (), after) ∧
        after.WellFormed ∧ planned.KeepsReady rules net after := by
  have hv := (haccepted _ (mem_rules_of_ruleFor hready.ruleFor)).valid
  obtain ⟨sides, hsides⟩ := Option.isSome_iff_exists.1 (isFor_of_ruleFor hready.ruleFor)
  obtain ⟨hredex, ⟨-, herror⟩ | ⟨-, after, copy, port, hok, hw⟩⟩ :=
    interact_of_mem_activePairs h hv hready.active hsides watch
  · exact .inl herror
  · refine .inr ⟨after, hok, hw.wellFormed, fun other hapart hother => ?_⟩
    refine ⟨hw.mem_activePairs h hother.active ?_, hother.ruleFor, hother.made⟩
    exact (planned.pair.samePair_agentOn (Rule.snd_eq_flip_of_orient hsides)).apart
      (.refl other.pair.ends) (ActivePair.isIndependentOf_iff.1 hapart)

/-- **One turn of a round** is one interaction in every net of the same structure, except that a
plan may be made again. A turn that fails had a plan that was not fresh. -/
theorem Ready.carryOut_sequence (h : net.WellFormed) (hready : planned.Ready rules net)
    (hsame : net.SameStructure seq) (hcounts : net.tally.SameCounts seq.tally)
    (watch watch' : Stopwatch) :
    (∃ after last, planned.carryOut watch net = (.ok (), after) ∧
        seq.interact watch' planned.rule planned.pair = (.ok (), last) ∧
        after.SameStructure last ∧ after.tally.SameCounts last.tally ∧ after.WellFormed ∧
        planned.KeepsReady rules net after) ∨
      ∃ after, planned.carryOut watch net =
          (.error (.freeWire planned.rule.key), after) ∧
        seq.interact watch' planned.rule planned.pair =
          (.error (.freeWire planned.rule.key), seq) ∧
        after.SameStructure seq ∧ ¬ planned.plan.isFresh net planned.rule := by
  have hempty := (haccepted _ (mem_rules_of_ruleFor hready.ruleFor)).tally_eq_empty
  by_cases hfresh : planned.plan.isFresh net planned.rule
  · have hrun := hready.carryOut_of_isFresh hfresh watch
    rcases hready.interact_cases haccepted h watch with herror | ⟨after, hok, hwell, hkept⟩
    · simp [carryOut, hfresh, herror] at hrun
    · obtain ⟨last, took, took', hlast, hstructure, htally, htally'⟩ :=
        hsame.interact_ok hempty hok watch'
      refine .inl ⟨after, last, hrun.trans hok, hlast, hstructure, ?_, hwell, hkept⟩
      rw [htally, htally']
      exact hcounts.record _ took took'
  · have hrun := carryOut_of_not_isFresh hfresh watch
    have hsame' := (SameStructure.withTally net
      (net.tally.recordReplan planned.rule.label)).trans hsame
    -- the plan is made again in the net where that is counted
    rcases (hready.withTally _).interact_cases haccepted (h.withTally _) watch with
      herror | ⟨after, hok, hwell, hkept⟩
    · exact .inr ⟨_, hrun.trans herror, (hsame'.interact_error herror watch').2, hsame', hfresh⟩
    · obtain ⟨last, took, took', hlast, hstructure, htally, htally'⟩ :=
        hsame'.interact_ok hempty hok watch'
      refine .inl ⟨after, last, hrun.trans hok, hlast, hstructure, ?_, hwell, fun other hapart
        hother => hkept other hapart (hother.withTally _)⟩
      rw [htally, htally']
      exact hcounts.record_recordReplan _ took took'

/-- **The turns of a round** are interactions one after another. All are made, or a path between two
places on the interface stops the round where it stops the sequence; not at the first turn, if the
plan for that is fresh. -/
theorem carryOutAll_sequence (h : net.WellFormed)
    (hready : AllReady plans rules net) (hsame : net.SameStructure seq)
    (hcounts : net.tally.SameCounts seq.tally) (watch watch' : Stopwatch) (done : Nat) :
    (∃ after last, carryOutAll watch done plans net = ((done + plans.length, none), after) ∧
        (interactAll watch' (plans.map job)).run seq = (.ok (), last) ∧
        after.SameStructure last ∧ after.tally.SameCounts last.tally) ∨
      ∃ made key after last, made < plans.length ∧
        carryOutAll watch done plans net = ((done + made, some (.freeWire key)), after) ∧
        (interactAll watch' ((plans.map job).take made)).run seq = (.ok (), last) ∧
        (interactAll watch' (plans.map job)).run seq = (.error (.freeWire key), last) ∧
        after.SameStructure last ∧
        (made = 0 → ∃ planned ∈ plans.head?, ¬ planned.plan.isFresh net planned.rule) := by
  induction plans generalizing net seq done with
  | nil => exact .inl ⟨net, seq, rfl, rfl, hsame, hcounts⟩
  | cons planned rest ih =>
    rcases hready.head.carryOut_sequence haccepted h hsame hcounts watch watch' with
      ⟨next, last, hnext, hlast, hstructure, hcounts', hwell, hkept⟩ |
      ⟨next, hnext, hseq, hstructure, hstale⟩
    · have hturn : ∀ jobs, (interactAll watch' (planned.job :: jobs)).run seq =
          (interactAll watch' jobs).run last := by
        intro jobs
        rw [job, interactAll, Edit.run_bind, Edit.run, hlast]
      have hlength : done + 1 + rest.length = done + (planned :: rest).length := by
        rw [List.length_cons]
        omega
      rw [carryOutAll, hnext, List.map_cons, hturn]
      -- the pairs whose turns come later are independent of this one, so they are still ready
      rcases ih hwell (hready.tail hkept) hstructure hcounts' (done + 1) with
        ⟨after, final, hall, hrun, hstructure', hcounts''⟩ |
        ⟨made, key, after, final, hmade, hall, hrun, hstop, hstructure', -⟩
      · rw [hlength] at hall
        exact .inl ⟨after, final, hall, hrun, hstructure', hcounts''⟩
      · refine .inr ⟨made + 1, key, after, final, ?_, ?_, ?_, hstop, hstructure', ?_⟩
        · rw [List.length_cons]
          omega
        · rw [Nat.add_comm made, ← Nat.add_assoc]
          exact hall
        · rw [List.take_succ_cons, hturn]
          exact hrun
        · intro hzero
          cases hzero
    · refine .inr ⟨0, planned.rule.key, next, seq, Nat.succ_pos _, ?_, rfl, ?_, hstructure, ?_⟩
      · rw [carryOutAll, hnext]
        rfl
      · rw [List.map_cons, job, interactAll, Edit.run_bind, Edit.run, hseq]
      · exact fun _ => ⟨planned, rfl, hstale⟩

end Accepted

end PlannedInteraction

/-! ### Planning a round -/

section Planning

variable {r : Reducer} {limit : Option Nat} {fault : Fault}

/-- The plans of a round are fresh before anything is carried out. -/
theorem Reducer.isFresh_of_planRound {plans : List PlannedInteraction}
    (hplans : r.planRound net limit = .ok plans) {planned : PlannedInteraction}
    (hplanned : planned ∈ plans) : planned.plan.isFresh net planned.rule := by
  rw [planRound] at hplans
  split at hplans
  · cases hplans
  · rename_i found hfound
    have hentry : (planned.plan.surroundings, planned.rule) ∈ found := by
      rw [← (PlannedInteraction.planAll_spec hplans).1]
      exact List.mem_map.2 ⟨planned, hplanned, rfl⟩
    have hread : Surroundings.read net planned.pair planned.rule =
        .ok planned.plan.surroundings := ((survey_spec hfound).2 _ hentry).2
    rw [Plan.isFresh, hread]
    exact beq_self_eq_true _

/-- A survey fails for a pair that is refused. -/
private theorem refuses_of_survey {pairs : List ActivePair}
    (herror : net.survey rules pairs = .error fault) :
    ∃ pair ∈ pairs, rules.Refuses net pair fault := by
  induction pairs with
  | nil => cases herror
  | cons pair rest ih =>
    rw [survey] at herror
    cases hfor : rules.ruleFor pair with
    | none =>
      simp only [hfor, Except.error.injEq] at herror
      exact ⟨pair, List.mem_cons_self, .inl ⟨hfor, herror.symm⟩⟩
    | some rule =>
      cases hread : Surroundings.read net pair rule with
      | error fault' =>
        simp only [hfor, hread, Except.error.injEq] at herror
        have hplan : net.planFor rule pair = .error fault := by
          simp only [planFor, isFor_of_ruleFor hfor, hread, herror, if_true]
        exact ⟨pair, List.mem_cons_self, .inr ⟨rule, hfor, hplan⟩⟩
      | ok s =>
        cases hrest : net.survey rules rest with
        | ok found => simp [hfor, hread, hrest] at herror
        | error fault' =>
          simp only [hfor, hread, hrest, Except.error.injEq] at herror
          obtain ⟨other, hother, hrefuses⟩ := ih (by rw [hrest, herror])
          exact ⟨other, List.mem_cons_of_mem _ hother, hrefuses⟩

/-- Planning from surroundings that were read fails for a pair that is refused. -/
private theorem refuses_of_planAll {found : List (Surroundings × Rule)}
    (hfound : ∀ x ∈ found, rules.ruleFor x.1.pair = some x.2 ∧
      Surroundings.read net x.1.pair x.2 = .ok x.1)
    (herror : PlannedInteraction.planAll found = .error fault) :
    ∃ x ∈ found, rules.Refuses net x.1.pair fault := by
  induction found with
  | nil => cases herror
  | cons entry rest ih =>
    obtain ⟨s, rule⟩ := entry
    rw [List.forall_mem_cons] at hfound
    obtain ⟨⟨hfor, hread⟩, hothers⟩ := hfound
    rw [PlannedInteraction.planAll] at herror
    cases hmake : Plan.make s rule with
    | error fault' =>
      simp only [hmake, Except.error.injEq] at herror
      have hplan : net.planFor rule s.pair = .error fault := by
        simp only [planFor, isFor_of_ruleFor hfor, hread, hmake, herror, if_true]
      exact ⟨(s, rule), List.mem_cons_self, .inr ⟨rule, hfor, hplan⟩⟩
    | ok plan =>
      cases hrest : PlannedInteraction.planAll rest with
      | ok plans => simp [hmake, hrest] at herror
      | error fault' =>
        simp only [hmake, hrest, Except.error.injEq] at herror
        obtain ⟨x, hx, hrefuses⟩ := ih hothers (by rw [hrest, herror])
        exact ⟨x, List.mem_cons_of_mem _ hx, hrefuses⟩

/-- A round that cannot be planned has a pair that is refused. -/
theorem Reducer.refuses_of_planRound (herror : r.planRound net limit = .error fault) :
    ∃ pair ∈ batch net limit, r.rules.Refuses net pair fault := by
  rw [planRound] at herror
  cases hfound : net.survey r.rules (batch net limit) with
  | error fault' =>
    simp only [hfound, Except.error.injEq] at herror
    exact refuses_of_survey (by rw [hfound, herror])
  | ok found =>
    simp only [hfound] at herror
    obtain ⟨hpairs, hspec⟩ := survey_spec hfound
    obtain ⟨x, hx, hrefuses⟩ := refuses_of_planAll hspec herror
    refine ⟨x.1.pair, ?_, hrefuses⟩
    rw [← hpairs]
    exact List.mem_map.2 ⟨x, hx, rfl⟩

/-- An active pair is refused because it has no rule, or for a path that joins two places on the
interface. -/
theorem RuleSet.Refuses.cases (haccepted : ∀ rule ∈ rules.rules, rule.Accepted)
    (h : net.WellFormed) {pair : ActivePair} (hpair : pair ∈ net.activePairs)
    (hrefuses : rules.Refuses net pair fault) :
    (rules.ruleFor pair = none ∧ fault = .noApplicableRule pair) ∨
      ∃ rule, rules.ruleFor pair = some rule ∧
        net.planFor rule pair = .error (.freeWire rule.key) ∧ fault = .freeWire rule.key := by
  obtain hnone | ⟨rule, hfor, hplan⟩ := hrefuses
  · exact .inl hnone
  · have hv := (haccepted _ (mem_rules_of_ruleFor hfor)).valid
    obtain ⟨sides, hsides⟩ := Option.isSome_iff_exists.1 (isFor_of_ruleFor hfor)
    have hrun : net.interact .stopped rule pair = (.error fault, net) :=
      (refusedFor_interact .stopped rule pair fault net).2 ⟨hplan, rfl⟩
    obtain ⟨-, ⟨-, hstop⟩ | ⟨-, after, -, -, hok, -⟩⟩ :=
      interact_of_mem_activePairs h hv hpair hsides .stopped
    · obtain rfl := Except.error.inj (Prod.mk.inj (hrun.symm.trans hstop)).1
      exact .inr ⟨rule, hfor, hplan, rfl⟩
    · cases hrun.symm.trans hok

/-- **A round that cannot be planned** has a pair without a rule, or a path that joins two places on
the interface. -/
theorem Reducer.planRound_error (haccepted : ∀ rule ∈ r.rules.rules, rule.Accepted)
    (h : net.WellFormed) (herror : r.planRound net limit = .error fault) :
    (∃ pair ∈ batch net limit, r.rules.ruleFor pair = none ∧ fault = .noApplicableRule pair) ∨
      ∃ key, fault = .freeWire key := by
  obtain ⟨pair, hpair, hrefuses⟩ := refuses_of_planRound herror
  obtain ⟨hnone, hfault⟩ | ⟨rule, -, -, hfault⟩ :=
    hrefuses.cases haccepted h ((batch_sublist net limit).subset hpair)
  · exact .inl ⟨pair, hpair, hnone, hfault⟩
  · exact .inr ⟨rule.key, hfault⟩

end Planning

/-! ### Rounds -/

namespace Reducer

variable {r : Reducer} {limit : Option Nat}

/-- How a round goes when it can be planned. -/
private theorem runRound_sequence (haccepted : ∀ rule ∈ r.rules.rules, rule.Accepted)
    (h : net.WellFormed) {plans : List PlannedInteraction}
    (hplans : r.planRound net limit = .ok plans) (watch : Stopwatch) :
    ∃ jobs, r.rules.Assigns (batch net limit) jobs ∧
      ((∃ after last, r.runRound limit net = (((batch net limit).length, none), after) ∧
          (interactAll watch jobs).run net = (.ok (), last) ∧
          after.SameStructure last ∧ after.tally.SameCounts last.tally) ∨
        ∃ made key after last, made + 1 < (batch net limit).length ∧
          r.runRound limit net = ((made + 1, some (.freeWire key)), after) ∧
          (interactAll watch (jobs.take (made + 1))).run net = (.ok (), last) ∧
          (interactAll watch jobs).run net = (.error (.freeWire key), last) ∧
          after.SameStructure last) := by
  obtain ⟨hbatch, hready⟩ := planRound_spec hplans
  have hlength : plans.length = (batch net limit).length := by rw [← hbatch, List.length_map]
  refine ⟨plans.map PlannedInteraction.job, ⟨?_, fun job hjob => ?_⟩, ?_⟩
  · rw [← hbatch, List.map_map]
    rfl
  · obtain ⟨planned, hplanned, rfl⟩ := List.mem_map.1 hjob
    exact (hready planned hplanned).ruleFor
  · rcases PlannedInteraction.carryOutAll_sequence haccepted h
      (allReady_of_planRound h hplans) (.refl net) (.refl net.tally) r.watch watch 0 with
      ⟨after, last, hall, hrun, hstructure, hcounts⟩ |
      ⟨made, key, after, last, hmade, hall, hrun, hstop, hstructure, hfirst⟩
    · rw [Nat.zero_add, hlength] at hall
      refine .inl ⟨_, last, by simp only [runRound, hplans, hall]; rfl, hrun, ?_, ?_⟩
      · split
        · exact hstructure
        · exact (SameStructure.withTally _ _).trans hstructure
      · split
        · exact hcounts
        · exact hcounts.recordRound
    · -- the first plan is fresh, so something was made before the round was stopped
      obtain ⟨made, rfl⟩ : ∃ n, made = n + 1 := by
        refine Nat.exists_eq_succ_of_ne_zero fun hzero => ?_
        obtain ⟨planned, hplanned, hstale⟩ := hfirst hzero
        exact hstale (isFresh_of_planRound hplans (List.mem_of_head? hplanned))
      rw [Nat.zero_add] at hall
      refine .inr ⟨made, key, _, last, by omega, by simp only [runRound, hplans, hall]; rfl, hrun,
        hstop, ?_⟩
      exact (SameStructure.withTally _ _).trans hstructure

/-- **A round is the ordered sequence of its interactions.** When it ends well, it made all
interactions of its batch and left what they leave one after another with the rules looked up at the
start, ids and vacant slots included; only times, rounds and plans made again may be counted
differently. When it is aborted, some interactions were made, but not all, and the next one is
refused for a wire without agents. With any other fault it leaves everything as it was. -/
theorem round_sequence (haccepted : ∀ rule ∈ r.rules.rules, rule.Accepted) (h : net.WellFormed)
    (limit : Option Nat) (watch : Stopwatch) :
    (∀ k after, (r.round limit).run net = (.ok k, after) → k = (batch net limit).length ∧
      ∃ jobs last, r.rules.Assigns (batch net limit) jobs ∧
        (interactAll watch jobs).run net = (.ok (), last) ∧
        after.SameStructure last ∧ after.tally.SameCounts last.tally) ∧
    (∀ steps cause after, (r.round limit).run net = (.error (.aborted steps cause), after) →
      1 ≤ steps ∧ steps < (batch net limit).length ∧ ∃ key jobs last, cause = .freeWire key ∧
        r.rules.Assigns (batch net limit) jobs ∧
        (interactAll watch (jobs.take steps)).run net = (.ok (), last) ∧
        (interactAll watch jobs).run net = (.error (.freeWire key), last) ∧
        after.SameStructure last) ∧
    ∀ fault after, (r.round limit).run net = (.error fault, after) →
      (∀ steps cause, fault ≠ .aborted steps cause) → after = net := by
  cases hplans : r.planRound net limit with
  | error fault =>
    have hround : (r.round limit).run net = (.error fault, net) := by
      simp only [Edit.run, round, runRound, hplans]
    have hplain : ∀ steps cause, fault ≠ .aborted steps cause := by
      rintro steps cause rfl
      rcases planRound_error haccepted h hplans with ⟨_, -, -, hfault⟩ | ⟨_, hfault⟩ <;>
        cases hfault
    rw [hround]
    refine ⟨fun _ _ hk => (by cases hk), fun steps cause after hsteps => ?_,
      fun fault' after hfault _ => ?_⟩
    · exact absurd (Except.error.inj (Prod.mk.inj hsteps).1) (hplain steps cause)
    · exact (Prod.mk.inj hfault).2.symm
  | ok plans =>
    obtain ⟨jobs, hjobs, ⟨next, last, hrun, hall, hstructure, hcounts⟩ |
      ⟨made, key, next, last, hmade, hrun, htaken, hstop, hstructure⟩⟩ :=
      runRound_sequence haccepted h hplans watch
    · have hround : (r.round limit).run net = (.ok (batch net limit).length, next) := by
        rw [Edit.run, round, hrun]
      rw [hround]
      refine ⟨fun k after hk => ?_, fun _ _ _ hsteps => (by cases hsteps),
        fun _ _ hfault => (by cases hfault)⟩
      obtain ⟨hlength, rfl⟩ := Prod.mk.inj hk
      exact ⟨(Except.ok.inj hlength).symm, jobs, last, hjobs, hall, hstructure, hcounts⟩
    · have hround : (r.round limit).run net =
          (.error (.aborted (made + 1) (.freeWire key)), next) := by
        rw [Edit.run, round, hrun]
      rw [hround]
      refine ⟨fun _ _ hk => (by cases hk), fun steps cause after hsteps => ?_,
        fun fault' after hfault hplain => ?_⟩
      · obtain ⟨hfault, rfl⟩ := Prod.mk.inj hsteps
        obtain ⟨rfl, rfl⟩ := Fault.aborted.inj (Except.error.inj hfault)
        exact ⟨Nat.succ_pos made, hmade, key, jobs, last, rfl, hjobs, htaken, hstop, hstructure⟩
      · exact absurd (Except.error.inj (Prod.mk.inj hfault).1).symm (hplain _ _)

/-- The rule by which two passages leave a wire. -/
def straight : RuleSet :=
  ⟨⟨[(.of passage passage, ⟨passage, passage, Replacement.empty.wire (.left 0) (.right 0)⟩)],
    by decide⟩⟩

theorem accepted_straight : ∀ rule ∈ straight.rules, rule.Accepted := by
  intro rule hrule
  obtain rfl := List.mem_singleton.1 hrule
  exact ⟨passage, passage, Replacement.empty.wire (.left 0) (.right 0), wellFormed_empty, rfl⟩

/-- Of two pairs of passages that are joined, the second one is refused, because the first one has
left a place on the interface on both its sides. With a limit of one the round ends well. -/
theorem round_sequence_passages :
    (∃ key jobs last, straight.Assigns (batch passages none) jobs ∧
      (interactAll .stopped (jobs.take 1)).run passages = (.ok (), last) ∧
      (interactAll .stopped jobs).run passages = (.error (.freeWire key), last) ∧
      ((Reducer.round ⟨straight, .stopped⟩ none).run passages).2.SameStructure last) ∧
    ∃ jobs last, straight.Assigns (batch passages (some 1)) jobs ∧
      (interactAll .stopped jobs).run passages = (.ok (), last) ∧
      ((Reducer.round ⟨straight, .stopped⟩ (some 1)).run passages).2.SameStructure last := by
  constructor
  · have hcut := (round_sequence (r := ⟨straight, .stopped⟩) accepted_straight wellFormed_passages
      none .stopped).2.1 1 (.freeWire (.of passage passage)) _
      (Prod.fst_eq_iff.1 (by decide +kernel))
    obtain ⟨-, -, key, jobs, last, -, hjobs, htaken, hstop, hstructure⟩ := hcut
    exact ⟨key, jobs, last, hjobs, htaken, hstop, hstructure⟩
  · have hwhole := (round_sequence (r := ⟨straight, .stopped⟩) accepted_straight wellFormed_passages
      (some 1) .stopped).1 1 _ (Prod.fst_eq_iff.1 (by decide +kernel))
    obtain ⟨-, jobs, last, hjobs, hall, hstructure, -⟩ := hwhole
    exact ⟨jobs, last, hjobs, hall, hstructure⟩

end Reducer

end InteractionNets
