import InteractionNets.Proofs.Reduction.Confluence
import InteractionNets.Proofs.Reduction.Guarded
import InteractionNets.Proofs.Redex.Independence

/-!
# Rounds are interactions one after another

The interactions of a round are planned on the net as it was before the round. When the turn of one
comes, its pair is still active, because the pairs of a round are independent; and its plan is the
one that would be made now, or it is made again. So a round does what its pairs do when they
interact one after another (`PlannedInteraction.carryOutAll_spec`).
-/

namespace InteractionNets

open Net RuleSet

variable {net after : Net} {rules : RuleSet}

namespace PlannedInteraction

/-- The pair of a planned interaction. -/
abbrev pair (planned : PlannedInteraction) : ActivePair :=
  planned.plan.surroundings.pair

/-- A planned interaction whose pair is active, with the rule for the pair and a plan that was made
from the surroundings it records. -/
structure Ready (planned : PlannedInteraction) (rules : RuleSet) (net : Net) : Prop where
  active : planned.pair ∈ net.activePairs
  ruleFor : rules.ruleFor planned.pair = some planned.rule
  made : Plan.make planned.plan.surroundings planned.rule = .ok planned.plan

variable {planned : PlannedInteraction} {plans : List PlannedInteraction} {watch : Stopwatch}

theorem Ready.withTally (hready : planned.Ready rules net) (tally : Tally) :
    planned.Ready rules { net with tally := tally } :=
  ⟨hready.active, hready.ruleFor, hready.made⟩

/-- What is independent of the pair of a planned interaction, and was ready in the net before, is
ready in the net after. -/
def KeepsReady (planned : PlannedInteraction) (rules : RuleSet) (net after : Net) : Prop :=
  ∀ other : PlannedInteraction, planned.pair.isIndependentOf other.pair →
    other.Ready rules net → other.Ready rules after

/-- Planned interactions that are ready, with pairs that are independent of each other. -/
structure AllReady (plans : List PlannedInteraction) (rules : RuleSet) (net : Net) : Prop where
  ready : ∀ planned ∈ plans, planned.Ready rules net
  apart : plans.Pairwise fun planned other => planned.pair.isIndependentOf other.pair

theorem AllReady.head (h : AllReady (planned :: plans) rules net) : planned.Ready rules net :=
  h.ready planned List.mem_cons_self

/-- The turn of the first one leaves the others ready. -/
theorem AllReady.tail (h : AllReady (planned :: plans) rules net)
    (hkept : planned.KeepsReady rules net after) : AllReady plans rules after := by
  obtain ⟨hready, hapart⟩ := h
  rw [List.pairwise_cons] at hapart
  exact ⟨fun other hother => hkept other (hapart.1 other hother)
    (hready other (List.mem_cons_of_mem _ hother)), hapart.2⟩

/-- A fresh plan is the one that would be made now. -/
theorem Ready.carryOut_of_isFresh (hready : planned.Ready rules net)
    (hfresh : planned.plan.isFresh net planned.rule) (watch : Stopwatch) :
    planned.carryOut watch net = net.interact watch planned.rule planned.pair := by
  have hfor := isFor_of_ruleFor hready.ruleFor
  have hread : Surroundings.read net planned.pair planned.rule =
      .ok planned.plan.surroundings := by
    rw [Plan.isFresh] at hfresh
    split at hfresh
    · rename_i s hread
      rw [hread, eq_of_beq hfresh]
    · cases hfresh
  simp only [carryOut, hfresh, if_true, interact, planFor, hfor, hread, hready.made]

/-- A plan that is not fresh is made again, which is counted first. -/
theorem carryOut_of_not_isFresh (hstale : ¬ planned.plan.isFresh net planned.rule)
    (watch : Stopwatch) :
    planned.carryOut watch net =
      { net with tally := net.tally.recordReplan planned.rule.label }.interact watch planned.rule
        planned.pair := by
  simp only [carryOut, hstale, Bool.false_eq_true, if_false]

/-- Carrying out a plan is interacting, whether the plan is fresh or made again. -/
theorem Ready.exists_carryOut_eq (hready : planned.Ready rules net) (watch : Stopwatch) :
    ∃ tally, tally.interactions = net.tally.interactions ∧ planned.carryOut watch net =
      Net.interact watch planned.rule planned.pair { net with tally := tally } := by
  by_cases hfresh : planned.plan.isFresh net planned.rule
  · exact ⟨net.tally, rfl, hready.carryOut_of_isFresh hfresh watch⟩
  · exact ⟨net.tally.recordReplan planned.rule.label, rfl, carryOut_of_not_isFresh hfresh watch⟩

section Lawful

variable {normal : Net} {n : Nat} (hrules : rules.Lawful)

include hrules

/-- What is carried out is one interaction; the pairs independent of it stay ready. -/
theorem Ready.carryOut_spec (h : net.WellFormed) (hready : planned.Ready rules net)
    (hrun : planned.carryOut watch net = (.ok (), after)) : after.WellFormed ∧
      (∀ {normal n}, rules.IsAway normal n after → rules.IsAway normal (n + 1) net) ∧
      planned.KeepsReady rules net after := by
  obtain ⟨tally, -, heq⟩ := hready.exists_carryOut_eq watch
  have h' := h.withTally tally
  have hi := interacts_of_interact h' hrules hready.active hready.ruleFor (heq.symm.trans hrun)
  refine ⟨hi.wellFormed, fun {normal n} haway => ?_, fun other hapart hother => ?_⟩
  · exact (IsAway.withTally_iff hrules h tally).1 (IsAway.of_interacts h' hi haway)
  · refine ⟨?_, hother.ruleFor, hother.made⟩
    exact hi.mem_activePairs h' hother.active (ActivePair.isIndependentOf_iff.1 hapart)

/-- On the way to a normal form, what is planned can be carried out. -/
theorem Ready.exists_carryOut (haway : rules.IsAway normal n net)
    (hready : planned.Ready rules net) (watch : Stopwatch) :
    ∃ next m, planned.carryOut watch net = (.ok (), next) ∧ 1 + m = n ∧
      rules.IsAway normal m next := by
  obtain ⟨tally, -, heq⟩ := hready.exists_carryOut_eq watch
  have haway' := (IsAway.withTally_iff hrules haway.wellFormed tally).2 haway
  obtain ⟨rule, hfor, hok⟩ := haway'.exists_interact hrules hready.active
  obtain rfl := Option.some.inj (hfor.symm.trans hready.ruleFor)
  obtain ⟨next, hnext⟩ := hok watch
  obtain ⟨m, hlength, hleft⟩ :=
    haway'.reduces hrules (.step hready.active hfor hnext (.refl next))
  exact ⟨next, m, heq.trans hnext, hlength, hleft⟩

/-- **A round is interactions one after another.** When all planned interactions are carried out,
the net was as many interactions further away from a normal form before. -/
theorem carryOutAll_spec (h : net.WellFormed) (hready : AllReady plans rules net)
    {done made : Nat} (hrun : carryOutAll watch done plans net = ((made, none), after)) :
    made = done + plans.length ∧ after.WellFormed ∧
      ∀ {normal n}, rules.IsAway normal n after → rules.IsAway normal (n + plans.length) net := by
  induction plans generalizing net done with
  | nil =>
    obtain ⟨hresult, rfl⟩ := Prod.mk.inj hrun
    exact ⟨(congrArg Prod.fst hresult).symm, h, id⟩
  | cons planned rest ih =>
    rw [carryOutAll] at hrun
    split at hrun
    · rename_i next hnext
      obtain ⟨hwell, hback, hkept⟩ := hready.head.carryOut_spec hrules h hnext
      obtain ⟨rfl, hafter, haway⟩ := ih hwell (hready.tail hkept) hrun
      have hlength : done + 1 + rest.length = done + (planned :: rest).length := by
        rw [List.length_cons]
        omega
      exact ⟨hlength, hafter, fun hdone => hback (haway hdone)⟩
    · cases hrun

/-- On the way to a normal form, all interactions of a round are carried out. -/
theorem exists_carryOutAll (haway : rules.IsAway normal n net)
    (hready : AllReady plans rules net) (watch : Stopwatch) (done : Nat) :
    ∃ next m, carryOutAll watch done plans net = ((done + plans.length, none), next) ∧
      plans.length + m = n ∧ rules.IsAway normal m next := by
  induction plans generalizing net done n with
  | nil => exact ⟨net, n, rfl, Nat.zero_add n, haway⟩
  | cons planned rest ih =>
    obtain ⟨next, m, hnext, rfl, hleft⟩ := hready.head.exists_carryOut hrules haway watch
    obtain ⟨-, -, hkept⟩ := hready.head.carryOut_spec hrules haway.wellFormed hnext
    obtain ⟨last, k, hlast, rfl, hrest⟩ := ih hleft (hready.tail hkept) (done + 1)
    have hlength : done + 1 + rest.length = done + (planned :: rest).length := by
      rw [List.length_cons]
      omega
    rw [hlength] at hlast
    refine ⟨last, k, ?_, ?_, hrest⟩
    · rw [carryOutAll, hnext]
      exact hlast
    · rw [List.length_cons]
      omega

end Lawful

end PlannedInteraction

/-! ### Planning a round -/

namespace Net

/-- What a survey finds: the surroundings of the pairs in order, with the rules for them. -/
theorem survey_spec {pairs : List ActivePair} {found : List (Surroundings × Rule)}
    (hfound : net.survey rules pairs = .ok found) : found.map (fun x => x.1.pair) = pairs ∧
      ∀ x ∈ found, rules.ruleFor x.1.pair = some x.2 ∧
        Surroundings.read net x.1.pair x.2 = .ok x.1 := by
  induction pairs generalizing found with
  | nil =>
    obtain rfl := Except.ok.inj hfound
    exact ⟨rfl, fun x hx => absurd hx List.not_mem_nil⟩
  | cons pair rest ih =>
    rw [survey] at hfound
    split at hfound
    · cases hfound
    · rename_i rule hfor
      split at hfound
      · cases hfound
      · rename_i s hread
        split at hfound
        · cases hfound
        · rename_i others hothers
          obtain rfl := Except.ok.inj hfound
          obtain ⟨hmap, hspec⟩ := ih hothers
          obtain rfl := Plan.pair_of_read hread
          exact ⟨congrArg (s.pair :: ·) hmap, List.forall_mem_cons.2 ⟨⟨hfor, hread⟩, hspec⟩⟩

/-- On the way to a normal form, active pairs can be surveyed. -/
private theorem exists_survey {normal : Net} {n : Nat} (hrules : rules.Lawful)
    (haway : rules.IsAway normal n net) {pairs : List ActivePair}
    (hpairs : ∀ pair ∈ pairs, pair ∈ net.activePairs) :
    ∃ found, net.survey rules pairs = .ok found := by
  induction pairs with
  | nil => exact ⟨[], rfl⟩
  | cons pair rest ih =>
    rw [List.forall_mem_cons] at hpairs
    obtain ⟨found, hfound⟩ := ih hpairs.2
    obtain ⟨rule, hfor, -⟩ := haway.exists_interact hrules hpairs.1
    obtain ⟨s, hread⟩ :=
      Surroundings.exists_read_of_mem_activePairs haway.wellFormed hpairs.1 (isFor_of_ruleFor hfor)
    exact ⟨(s, rule) :: found, by simp only [survey, hfor, hread, hfound]⟩

end Net

namespace PlannedInteraction

/-- Plans for some surroundings are made from them, in order. -/
theorem planAll_spec {found : List (Surroundings × Rule)} {plans : List PlannedInteraction}
    (hplans : planAll found = .ok plans) :
    plans.map (fun planned => (planned.plan.surroundings, planned.rule)) = found ∧
      ∀ planned ∈ plans, Plan.make planned.plan.surroundings planned.rule = .ok planned.plan := by
  induction found generalizing plans with
  | nil =>
    obtain rfl := Except.ok.inj hplans
    exact ⟨rfl, fun x hx => absurd hx List.not_mem_nil⟩
  | cons entry rest ih =>
    obtain ⟨s, rule⟩ := entry
    rw [planAll] at hplans
    split at hplans
    · cases hplans
    · rename_i plan hmake
      split at hplans
      · cases hplans
      · rename_i others hothers
        obtain rfl := Except.ok.inj hplans
        obtain ⟨hmap, hspec⟩ := ih hothers
        obtain rfl := Plan.surroundings_of_make hmake
        exact ⟨congrArg ((plan.surroundings, rule) :: ·) hmap,
          List.forall_mem_cons.2 ⟨hmake, hspec⟩⟩

private theorem exists_planAll {found : List (Surroundings × Rule)}
    (hfound : ∀ x ∈ found, ∃ plan, Plan.make x.1 x.2 = .ok plan) :
    ∃ plans, planAll found = .ok plans := by
  induction found with
  | nil => exact ⟨[], rfl⟩
  | cons entry rest ih =>
    rw [List.forall_mem_cons] at hfound
    obtain ⟨plan, hmake⟩ := hfound.1
    obtain ⟨plans, hplans⟩ := ih hfound.2
    exact ⟨⟨plan, entry.2⟩ :: plans, by simp only [planAll, hmake, hplans]⟩

end PlannedInteraction

namespace Reducer

variable {r : Reducer} {limit : Option Nat}

theorem batch_sublist (net : Net) (limit : Option Nat) :
    (batch net limit).Sublist net.activePairs := by
  cases limit with
  | none => exact List.Sublist.refl _
  | some limit => exact List.take_sublist limit _

/-- The interactions planned for a round are those of the first active pairs, and they are
ready. -/
theorem planRound_spec {plans : List PlannedInteraction}
    (hplans : r.planRound net limit = .ok plans) :
    plans.map PlannedInteraction.pair = batch net limit ∧
      ∀ planned ∈ plans, planned.Ready r.rules net := by
  rw [planRound] at hplans
  split at hplans
  · cases hplans
  · rename_i found hfound
    obtain ⟨hpairs, hfors⟩ := survey_spec hfound
    obtain ⟨hmap, hmade⟩ := PlannedInteraction.planAll_spec hplans
    have hbatch : plans.map PlannedInteraction.pair = batch net limit := by
      rw [← hpairs, ← hmap, List.map_map]
      rfl
    refine ⟨hbatch, fun planned hplanned => ⟨?_, ?_, hmade planned hplanned⟩⟩
    · refine (batch_sublist net limit).subset ?_
      rw [← hbatch]
      exact List.mem_map_of_mem hplanned
    · have hentry : (planned.plan.surroundings, planned.rule) ∈ found := by
        rw [← hmap]
        exact List.mem_map.2 ⟨planned, hplanned, rfl⟩
      exact (hfors _ hentry).1

/-- The pairs of a round are ready and independent of each other. -/
theorem allReady_of_planRound (h : net.WellFormed) {plans : List PlannedInteraction}
    (hplans : r.planRound net limit = .ok plans) :
    PlannedInteraction.AllReady plans r.rules net := by
  obtain ⟨hpairs, hready⟩ := planRound_spec hplans
  have hbatch := h.pairwise_activePairs.sublist (batch_sublist net limit)
  rw [← hpairs, List.pairwise_map] at hbatch
  exact ⟨hready, hbatch⟩

section Lawful

variable {normal : Net} {n : Nat} (hrules : r.rules.Lawful)

include hrules

/-- On the way to a normal form, a round can be planned. -/
theorem exists_planRound (haway : r.rules.IsAway normal n net) (limit : Option Nat) :
    ∃ plans, r.planRound net limit = .ok plans := by
  have hactive : ∀ pair ∈ batch net limit, pair ∈ net.activePairs :=
    (batch_sublist net limit).subset
  obtain ⟨found, hfound⟩ := exists_survey hrules haway hactive
  obtain ⟨hpairs, hspec⟩ := survey_spec hfound
  have hmake : ∀ x ∈ found, ∃ plan, Plan.make x.1 x.2 = .ok plan := by
    intro x hx
    obtain ⟨hfor, hread⟩ := hspec x hx
    have hpair : x.1.pair ∈ net.activePairs := by
      refine hactive _ ?_
      rw [← hpairs]
      exact List.mem_map.2 ⟨x, hx, rfl⟩
    -- the pair interacts, so the plan for it was made
    obtain ⟨rule, hfor', hok⟩ := haway.exists_interact hrules hpair
    obtain rfl := Option.some.inj (hfor'.symm.trans hfor)
    obtain ⟨next, hnext⟩ := hok .stopped
    cases hmade : Plan.make x.1 x.2 with
    | ok plan => exact ⟨plan, rfl⟩
    | error fault =>
      simp only [interact, planFor, isFor_of_ruleFor hfor, hread, hmade, if_true] at hnext
      cases hnext
  obtain ⟨plans, hplans⟩ := PlannedInteraction.exists_planAll hmake
  exact ⟨plans, by simp only [planRound, hfound, hplans]⟩

omit hrules in
/-- Counting a round changes nothing but the tally. -/
private theorem exists_tally_of_counted (made : Nat) (net : Net) :
    ∃ tally, (if made = 0 then net else { net with tally := net.tally.recordRound }) =
      { net with tally := tally } := by
  split
  · exact ⟨net.tally, rfl⟩
  · exact ⟨_, rfl⟩

/-- A round that is not cut short makes the interactions of its batch. -/
theorem runRound_spec (h : net.WellFormed) {limit : Option Nat} {done : Nat}
    (hrun : r.runRound limit net = ((done, none), after)) :
    done = (batch net limit).length ∧ after.WellFormed ∧
      ∀ {normal n}, r.rules.IsAway normal n after → r.rules.IsAway normal (n + done) net := by
  rw [runRound] at hrun
  split at hrun
  · cases hrun
  · rename_i plans hplans
    obtain ⟨hbatch, -⟩ := planRound_spec hplans
    rcases hall : PlannedInteraction.carryOutAll r.watch 0 plans net with ⟨⟨made, fault⟩, next⟩
    rw [hall] at hrun
    obtain ⟨hresult, hafter⟩ := Prod.mk.inj hrun
    obtain ⟨rfl, rfl⟩ := Prod.mk.inj hresult
    obtain ⟨hmade, hnext, hback⟩ :=
      PlannedInteraction.carryOutAll_spec hrules h (allReady_of_planRound h hplans) hall
    rw [Nat.zero_add] at hmade
    obtain ⟨tally, htally⟩ := exists_tally_of_counted made next
    obtain rfl := hafter.symm.trans htally
    refine ⟨?_, hnext.withTally tally, fun haway => ?_⟩
    · rw [← hbatch, List.length_map, hmade]
    · rw [hmade]
      exact hback ((IsAway.withTally_iff hrules hnext tally).1 haway)

/-- On the way to a normal form, rounds are not cut short. -/
theorem exists_runRound (haway : r.rules.IsAway normal n net) (limit : Option Nat) :
    ∃ next m, r.runRound limit net = (((batch net limit).length, none), next) ∧
      (batch net limit).length + m = n ∧ r.rules.IsAway normal m next := by
  obtain ⟨plans, hplans⟩ := exists_planRound hrules haway limit
  obtain ⟨hbatch, -⟩ := planRound_spec hplans
  obtain ⟨next, m, hrun, hlength, hleft⟩ := PlannedInteraction.exists_carryOutAll hrules haway
    (allReady_of_planRound haway.wellFormed hplans) r.watch 0
  obtain ⟨tally, htally⟩ := exists_tally_of_counted plans.length next
  rw [Nat.zero_add] at hrun
  have hcount : (batch net limit).length = plans.length := by rw [← hbatch, List.length_map]
  refine ⟨{ next with tally := tally }, m, ?_, ?_, ?_⟩
  · rw [runRound, hplans, hcount, ← htally]
    simp only [hrun]
  · rw [hcount, hlength]
  · exact (IsAway.withTally_iff hrules hleft.wellFormed tally).2 hleft

end Lawful

end Reducer

end InteractionNets
