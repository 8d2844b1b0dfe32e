import InteractionNets.Proofs.Combinators.Rules

/-!
# Combinators never get stuck

Reduction by any rules leaves nets with one port on the interface at most such nets, and they never
refuse a pair for a wire that would be left between two ports. Reduction by the rules of the
combinators leaves nets of combinators, and there any two agents that face each other have a rule.
So nets of combinators with one port on the interface at most are reduced without faults
(`Combinators.never_stuck`).
-/

namespace InteractionNets.Combinators

open Net RuleSet

variable {rs : RuleSet} {net : Net}

/-- The interaction of an active pair of combinators can be planned. -/
theorem exists_plan (hrs : rules = .ok rs) (h : net.WellFormed) (hone : net.interface.length ≤ 1)
    (hover : net.IsOver symbols) {pair : ActivePair} (hpair : pair ∈ net.activePairs) :
    ∃ rule plan, rs.ruleFor pair = some rule ∧ net.planFor rule pair = .ok plan := by
  have haccepted := accepted_of_rules hrs
  obtain ⟨rule, hfor⟩ := exists_ruleFor hrs h hover hpair
  cases hplan : net.planFor rule pair with
  | ok plan => exact ⟨rule, plan, hfor, hplan⟩
  | error fault =>
    have hrefuses : rs.Refuses net pair fault := .inr ⟨rule, hfor, hplan⟩
    obtain ⟨hnone, -⟩ | ⟨rule', hfor', hplan', -⟩ := hrefuses.cases haccepted h hpair
    · cases hnone.symm.trans hfor
    · have hv := (haccepted _ (mem_rules_of_ruleFor hfor')).valid
      exact absurd hplan' (planFor_ne_freeWire h hv hone pair _)

/-- A run with a limit reports no fault, one pair at a time or in rounds. -/
theorem drive_completes (hrs : rules = .ok rs) (h : net.WellFormed)
    (hone : net.interface.length ≤ 1) (hover : net.IsOver symbols) {e : Engine}
    (he : e.reducer.rules = rs) (limit : Nat) : (e.drive limit).Completes limit net := by
  subst he
  have haccepted := accepted_of_rules hrs
  have hinvariant := (isInvariant_interface haccepted 1).and
    (isInvariant_isOver haccepted (isOver_of_rules hrs))
  exact hinvariant.drive_completes haccepted
    (fun hnet hpair => exists_plan hrs hnet.1.1 hnet.1.2 hnet.2.2 hpair) ⟨⟨h, hone⟩, h, hover⟩ limit

/-- **One-port nets leave no free wires, and combinators never get stuck.** Whatever the rules, the
interface of a net does not grow in a run, and when it has one port at most, no interaction on the
way is refused for a path between two places on it. By the rules of the combinators, nets of
combinators stay nets of combinators, and all their active pairs have rules. So when they have one
port on the interface at most, runs with a limit report no fault and use up the limit if they
diverge, one pair at a time and in rounds, and runs without a limit report no fault either. -/
theorem never_stuck :
    (∀ rules : RuleSet, (∀ rule ∈ rules.rules, rule.Accepted) → ∀ net : Net, net.WellFormed →
      (∀ last, rules.RunLeaves net last → last.interface.length ≤ net.interface.length) ∧
      (net.interface.length ≤ 1 →
        (∀ last, rules.RunLeaves net last → ∀ rule ∈ rules.rules, ∀ watch pair key,
          (last.interact watch rule pair).1 ≠ .error (.freeWire key)) ∧
        ∀ e : Engine, e.reducer.rules = rules → ∀ fuel steps key,
          ((e.run fuel).run net).1 ≠ .error (.aborted steps (.freeWire key)))) ∧
    ∃ rs, rules = .ok rs ∧ ∀ net : Net, net.WellFormed → net.IsOver symbols →
      (∀ last, rs.RunLeaves net last → last.IsOver symbols ∧
        ∀ pair ∈ last.activePairs, ∃ rule, rs.ruleFor pair = some rule) ∧
      (net.interface.length ≤ 1 → ∀ watch limit,
        (Reducer.normalize ⟨rs, watch⟩ limit).Completes limit net ∧
        (Reducer.normalizeInRounds ⟨rs, watch⟩ limit).Completes limit net ∧
        ∃ result after, (Reducer.reduceInRounds ⟨rs, watch⟩ limit).run net = (.ok result, after)) := by
  constructor
  · intro rules haccepted net h
    refine ⟨fun last hleaves => (hleaves.length_interface_le haccepted h).2,
      fun hone => ⟨fun last hleaves rule hrule watch pair key => ?_, fun e he fuel steps key => ?_⟩⟩
    · obtain ⟨hlast, hlength⟩ := hleaves.length_interface_le haccepted h
      have hv := (haccepted rule hrule).valid
      exact interact_ne_freeWire hlast hv (hlength.trans hone) watch pair key
    · subst he
      exact Engine.run_ne_freeWire haccepted h hone fuel steps key
  · obtain ⟨rs, hrs⟩ := exists_rules
    have haccepted := accepted_of_rules hrs
    refine ⟨rs, hrs, fun net h hover => ⟨fun last hleaves => ?_, fun hone watch limit => ?_⟩⟩
    · obtain ⟨hlast, hover'⟩ := (isInvariant_isOver haccepted (isOver_of_rules hrs)).runLeaves
        haccepted ⟨h, hover⟩ hleaves
      exact ⟨hover', fun pair hpair => exists_ruleFor hrs hlast hover' hpair⟩
    · have hrun : ∀ strategy, (Engine.drive ⟨⟨some limit, strategy⟩, ⟨rs, watch⟩⟩ limit).Completes
          limit net := fun strategy => drive_completes hrs h hone hover rfl limit
      exact ⟨hrun .sequential, hrun .parallel, (hrun .parallel).unlimited⟩

/-- A constructor that is about to be erased; one of its ports is exposed, the other one is
connected to another eraser. -/
def erasing : Net :=
  ((connectPairs [(0, 3), (1, 4)]).run
    (((single gamma).newAgent epsilon).2.newAgent epsilon).2).2

theorem never_stuck_erasing : erasing.interface = [2] ∧ ∃ rs, rules = .ok rs ∧
    (∀ last, rs.RunLeaves erasing last → last.interface.length ≤ 1) ∧
    ∀ watch limit, (Reducer.normalize ⟨rs, watch⟩ limit).Completes limit erasing := by
  obtain ⟨hports, rs, hrs, hall⟩ := never_stuck
  have hwell : erasing.WellFormed :=
    (((wellFormed_single gamma).newAgent epsilon).newAgent epsilon).run_connectPairs [(0, 3), (1, 4)]
  have hinterface : erasing.interface = [2] := by decide +kernel
  have hone : erasing.interface.length ≤ 1 := by rw [hinterface, List.length_singleton]
  obtain ⟨hleft, -⟩ := hports rs (accepted_of_rules hrs) erasing hwell
  obtain ⟨-, hruns⟩ := hall erasing hwell (by decide +kernel)
  exact ⟨hinterface, rs, hrs, fun last hleaves => (hleft last hleaves).trans hone,
    fun watch limit => (hruns hone watch limit).1⟩

end InteractionNets.Combinators
