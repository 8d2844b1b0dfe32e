import InteractionNets.Proofs.Redex.Acceptance
import InteractionNets.Proofs.Reduction.Invariants

/-!
# Reductions that are never refused

An active pair is refused for two reasons only, and both can be excluded by invariants. A path
through a redex that joins two places on the interface needs two places, and the interface never
grows; so a net with one port on its interface at most never refuses a pair for such a path
(`Net.planFor_ne_freeWire`, `RuleSet.isInvariant_interface`). And a pair has a rule when the symbols
of all agents are in a signature that the rules cover and their replacement nets keep to
(`RuleSet.isInvariant_isOver`).
-/

namespace InteractionNets

open Net RuleSet

variable {net after last : Net} {rule : Rule} {agents : Side → AgentId} {rules : RuleSet}
  {symbols : List Symbol}

/-! ### Nets with one port on the interface -/

namespace Net

/-- A path between two places on the interface needs two of them. -/
theorem IsRedex.not_hasFreeWire (hr : net.IsRedex rule agents) (h : net.WellFormed)
    (hv : rule.Valid) (hone : net.interface.length ≤ 1) : ¬ net.HasFreeWire rule agents := by
  rintro ⟨p, q, hpath⟩
  obtain ⟨hp, -⟩ := hr.slot_of_path h hv hpath
  obtain ⟨hq, -⟩ := hr.slot_of_path h hv hpath.symm
  obtain rfl : p = q := eq_of_mem_of_length_le_one hone hp hq
  exact (hr.regular h hv).not_path_self (hr.single h hv (.free p) (by simp)) hpath

/-- With one port on the interface at most, no pair is refused for a path between two places on it,
whether its record is up to date or not. -/
theorem planFor_ne_freeWire (h : net.WellFormed) (hv : rule.Valid)
    (hone : net.interface.length ≤ 1) (pair : ActivePair) (key : RuleKey) :
    net.planFor rule pair ≠ .error (.freeWire key) := by
  intro hplan
  rw [planFor] at hplan
  split at hplan
  · split at hplan
    · rename_i fault hread
      obtain rfl := Except.error.inj hplan
      rcases Surroundings.read_eq_error h hread with hfault | hfault <;> cases hfault
    · rename_i s hread
      obtain ⟨sides, hs⟩ := Surroundings.describes_of_read h hv hread
      rcases Plan.make_of_describes h hv hs with ⟨hwire, -⟩ | ⟨-, links, hok, -⟩
      · exact hs.isRedexOf.isRedex.not_hasFreeWire h hv hone hwire
      · cases hplan.symm.trans hok
  · cases hplan

theorem interact_ne_freeWire (h : net.WellFormed) (hv : rule.Valid)
    (hone : net.interface.length ≤ 1) (watch : Stopwatch) (pair : ActivePair) (key : RuleKey) :
    (net.interact watch rule pair).1 ≠ .error (.freeWire key) := by
  intro herror
  have hrun : (interact watch rule pair).run net = (.error (.freeWire key), _) :=
    Prod.fst_eq_iff.1 herror
  exact planFor_ne_freeWire h hv hone pair key
    ((refusedFor_interact watch rule pair (.freeWire key) _).1 hrun).1

/-- An interaction does not make the interface longer. -/
theorem IsRewrite.length_interface_le {copy : AgentId → AgentId} {port : PortId → PortId}
    (hw : net.IsRewrite rule agents after copy port) :
    after.interface.length ≤ net.interface.length := by
  obtain ⟨place, heq, -⟩ := hw.interface
  rw [heq]
  exact List.length_filterMap_le place net.interface

/-! ### Nets over a signature -/

/-- All agents of a net have symbols of a signature. -/
def IsOver (net : Net) (symbols : List Symbol) : Prop :=
  ∀ agent ∈ net.agentList, agent.symbol ∈ symbols

instance (net : Net) (symbols : List Symbol) : Decidable (net.IsOver symbols) :=
  inferInstanceAs (Decidable (∀ agent ∈ net.agentList, agent.symbol ∈ symbols))

theorem isOver_iff : net.IsOver symbols ↔
    ∀ {a data}, net.agent? a = some data → data.symbol ∈ symbols := by
  refine ⟨fun h a data hdata => h data (Arena.mem_values_iff.2 ⟨a, hdata⟩), fun h data hdata => ?_⟩
  obtain ⟨a, ha⟩ := Arena.mem_values_iff.1 hdata
  exact h ha

/-- An interaction leaves agents of the net and of the replacement net. -/
theorem IsRewrite.isOver {copy : AgentId → AgentId} {port : PortId → PortId}
    (hw : net.IsRewrite rule agents after copy port) (hnet : net.IsOver symbols)
    (hrule : rule.replacement.net.IsOver symbols) : after.IsOver symbols := by
  refine isOver_iff.2 fun {b data} hb => ?_
  by_cases hcopy : ∃ a, (rule.replacement.net.agent? a).isSome ∧ b = copy a
  · obtain ⟨a, ha, rfl⟩ := hcopy
    obtain ⟨origin, horigin⟩ := Option.isSome_iff_exists.1 ha
    obtain rfl := Option.some.inj ((hw.agent_copy horigin).symm.trans hb)
    have hsymbol : origin.symbol ∈ symbols := isOver_iff.1 hrule horigin
    exact hsymbol
  · have hne : ∀ side, b ≠ agents side := by
      rintro side rfl
      rw [hw.agent_gone] at hb
      cases hb
    rw [hw.agent_old hne fun a ha heq => hcopy ⟨a, ha, heq⟩] at hb
    exact isOver_iff.1 hnet hb

end Net

/-! ### Invariants -/

section Invariants

variable (haccepted : ∀ rule ∈ rules.rules, rule.Accepted)

include haccepted

/-- The interface never grows. -/
theorem RuleSet.isInvariant_interface (bound : Nat) :
    rules.IsInvariant fun net => net.WellFormed ∧ net.interface.length ≤ bound where
  wellFormed hnet := hnet.1
  interact hnet _ hfor hrun := by
    obtain ⟨agents, copy, port, hw⟩ := isRewrite_of_interact haccepted hnet.1 hfor hrun
    exact ⟨hw.wellFormed, hw.length_interface_le.trans hnet.2⟩
  withTally tally hnet := ⟨hnet.1.withTally tally, hnet.2⟩

/-- Agents keep to a signature that the replacement nets of all rules keep to. -/
theorem RuleSet.isInvariant_isOver
    (hover : ∀ rule ∈ rules.rules, rule.replacement.net.IsOver symbols) :
    rules.IsInvariant fun net => net.WellFormed ∧ net.IsOver symbols where
  wellFormed hnet := hnet.1
  interact hnet _ hfor hrun := by
    obtain ⟨agents, copy, port, hw⟩ := isRewrite_of_interact haccepted hnet.1 hfor hrun
    exact ⟨hw.wellFormed, hw.isOver hnet.2 (hover _ (mem_rules_of_ruleFor hfor))⟩
  withTally tally hnet := ⟨hnet.1.withTally tally, hnet.2⟩

/-- The interface of a net that a run leaves is not longer than it was. -/
theorem RuleSet.RunLeaves.length_interface_le (h : net.WellFormed)
    (hleaves : rules.RunLeaves net last) :
    last.WellFormed ∧ last.interface.length ≤ net.interface.length :=
  (isInvariant_interface haccepted net.interface.length).runLeaves haccepted ⟨h, Nat.le_refl _⟩
    hleaves

end Invariants

/-- An engine does not abort for a path between two places on an interface of one port. -/
theorem Engine.run_ne_freeWire {e : Engine}
    (haccepted : ∀ rule ∈ e.reducer.rules.rules, rule.Accepted) (h : net.WellFormed)
    (hone : net.interface.length ≤ 1) (fuel steps : Nat) (key : RuleKey) :
    ((e.run fuel).run net).1 ≠ .error (.aborted steps (.freeWire key)) := by
  intro herror
  have hrun : (e.run fuel).run net =
      (Except.map some (.error (.aborted steps (.freeWire key))), _) := Prod.fst_eq_iff.1 herror
  obtain ⟨hdrive, -⟩ := run_eq_map_some_iff.1 hrun
  obtain ⟨hlast, hlength⟩ := (RunLeaves.engine e fuel rfl .refl).length_interface_le haccepted h
  obtain ⟨steps', hreports, -⟩ := drive_truthful haccepted h hdrive
  cases hreports with
  | aborted hpair hfor hplan =>
    have hv := (haccepted _ (mem_rules_of_ruleFor hfor)).valid
    exact planFor_ne_freeWire hlast hv (hlength.trans hone) _ _ hplan

end InteractionNets
