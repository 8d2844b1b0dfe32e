import InteractionNets.Proofs.Net.Removal
import InteractionNets.Reduction.Reducer
import InteractionNets.Systems.Combinators

/-!
# Refused edits

An edit that is refused leaves the net as it was: the agents, ports and connections with the ids
that are free for new ones, the interface in its order, what connections restore, and the tally. An
edit that is made of several smaller ones looks for faults first. So it has to be shown that what it
finds is all that the smaller edits could be refused for (`Net.exists_run_connectPairs`,
`Net.WellFormed.exists_isWithout`).
-/

namespace InteractionNets

variable {α : Type} {net : Net}

namespace Edit

/-- An edit is **refused for** certain faults when these are the faults it can end with, and it
leaves the net as it was whenever it ends with one. -/
def RefusedFor (edit : Edit α) (net : Net) (faults : Fault → Prop) : Prop :=
  ∀ fault after, edit.run net = (.error fault, after) ↔ faults fault ∧ after = net

/-- An edit that is not refused is refused for nothing. -/
theorem refusedFor_of_ok {edit : Edit α} {faults : Fault → Prop} {a : α} {after : Net}
    (hrun : edit.run net = (.ok a, after)) (hnone : ∀ fault, ¬ faults fault) :
    edit.RefusedFor net faults := by
  intro fault last
  rw [hrun]
  exact iff_of_false (by simp) fun h => hnone fault h.1

/-- An edit that gives up at once is refused for what it gives up with. -/
theorem refusedFor_of_error {edit : Edit α} {faults : Fault → Prop} {fault : Fault}
    (hrun : edit.run net = (.error fault, net)) (hfault : ∀ other, faults other ↔ other = fault) :
    edit.RefusedFor net faults := by
  intro other after
  rw [hrun, hfault, Prod.mk.injEq, Except.error.injEq, eq_comm, @eq_comm _ net]

/-- An edit is refused for what its check finds, when nothing is refused after the check. -/
theorem refusedFor_guard {check : Net → Option Fault} {next : Edit α}
    (hnext : check net = none → ∃ a after, next.run net = (.ok a, after)) :
    (guard check >>= fun _ => next).RefusedFor net fun fault => check net = some fault := by
  cases hcheck : check net with
  | some fault =>
    have hrun : (guard check >>= fun _ => next).run net = (.error fault, net) := by
      rw [run_bind, run_guard, hcheck]
    exact refusedFor_of_error hrun fun other => by rw [Option.some.injEq, eq_comm]
  | none =>
    obtain ⟨a, after, hok⟩ := hnext hcheck
    have hrun : (guard check >>= fun _ => next).run net = (.ok a, after) := by
      rw [run_bind, run_guard, hcheck]
      exact hok
    exact refusedFor_of_ok hrun fun fault h => by cases h

end Edit

/-! ### Edits of wires and agents -/

namespace Net

open Edit

theorem refusedFor_connect (a b : PortId) :
    (connect a b).RefusedFor net fun fault => net.connectFault? a b = some fault :=
  refusedFor_guard fun _ => ⟨_, _, run_update _ net⟩

theorem refusedFor_disconnect (c : ConnectionId) : (disconnect c).RefusedFor net fun fault =>
    net.connection? c = none ∧ fault = .unknownConnection c := by
  cases hc : net.connection? c with
  | none => exact refusedFor_of_error (run_disconnect_of_none hc) fun other => by simp
  | some data => exact refusedFor_of_ok (run_disconnect_of_some hc) fun fault h => by simp at h

/-- The pairs are looked at before any of them is connected, and a pair that is connected takes
nothing away from the others. -/
theorem refusedFor_connectInterface (left right : List PortId) :
    (connectInterface left right).RefusedFor net fun fault =>
      net.connectInterfaceFault? left right = some fault := by
  refine refusedFor_guard fun hnone => ?_
  rw [connectInterfaceFault?] at hnone
  split at hnone
  · cases hnone
  · obtain ⟨hnodup, hfree⟩ := pairingFault?_eq_none_iff.1 hnone
    exact exists_run_connectPairs hnodup fun p hp => (hfree p hp).1

theorem refusedFor_restrictInterface (ports : List PortId) :
    (restrictInterface ports).RefusedFor net fun fault => net.restrictFault? ports = some fault :=
  refusedFor_guard fun _ => ⟨_, _, run_change _ net⟩

theorem refusedFor_extendInterface (ports : List PortId) :
    (extendInterface ports).RefusedFor net fun fault => net.extendFault? ports = some fault :=
  refusedFor_guard fun _ => ⟨_, _, run_change _ net⟩

/-- The connections that are removed on the way are known ones. -/
theorem WellFormed.refusedFor_removeAgent (h : net.WellFormed) (agent : AgentId) :
    (removeAgent agent).RefusedFor net fun fault =>
      net.agent? agent = none ∧ fault = .unknownAgent agent := by
  cases ha : net.agent? agent with
  | none =>
    have hremove : (removeAgent agent).run net = (.error (.unknownAgent agent), net) := by
      rw [removeAgent, run_bind, run_look, ha]
      rfl
    exact refusedFor_of_error hremove fun other => by simp
  | some data =>
    obtain ⟨after, hremove, -⟩ := h.exists_isWithout ha
    exact refusedFor_of_ok hremove fun fault h => by simp at h

/-! ### Interactions -/

/-- All that can be wrong with an interaction is found while it is planned. -/
theorem refusedFor_interact (watch : Stopwatch) (rule : Rule) (pair : ActivePair) :
    (interact watch rule pair).RefusedFor net fun fault =>
      net.planFor rule pair = .error fault := by
  cases hplan : net.planFor rule pair with
  | error fault =>
    have hrun : (interact watch rule pair).run net = (.error fault, net) := by
      simp only [Edit.run, interact, hplan]
    exact refusedFor_of_error hrun fun other => by rw [Except.error.injEq, eq_comm]
  | ok plan =>
    have hrun : (interact watch rule pair).run net =
        (.ok (), plan.commit rule (watch.interaction net pair) net) := by
      simp only [Edit.run, interact, hplan]
    exact refusedFor_of_ok hrun fun fault h => by cases h

end Net

/-- A rule set **refuses** a pair of a net with a fault: there is no rule for the pair, or the
interaction by the rule for it cannot be planned. -/
def RuleSet.Refuses (rules : RuleSet) (net : Net) (pair : ActivePair) (fault : Fault) : Prop :=
  (rules.ruleFor pair = none ∧ fault = .noApplicableRule pair) ∨
    ∃ rule, rules.ruleFor pair = some rule ∧ net.planFor rule pair = .error fault

/-- A step is refused when the first active pair is. -/
theorem Reducer.refusedFor_step (r : Reducer) : r.step.RefusedFor net fun fault =>
    ∃ pair, net.activePairs.head? = some pair ∧ r.rules.Refuses net pair fault := by
  intro fault after
  rw [Edit.run, step]
  cases hpair : net.activePairs.head? with
  | none => simp
  | some pair =>
    cases hrule : r.rules.ruleFor pair with
    | none => simp [RuleSet.Refuses, hrule, eq_comm]
    | some rule =>
      have hrefuses : r.rules.Refuses net pair fault ↔ net.planFor rule pair = .error fault := by
        simp [RuleSet.Refuses, hrule]
      simp only [hrule, Option.some.injEq, exists_eq_left', hrefuses]
      rw [← Net.refusedFor_interact r.watch rule pair fault after, Edit.run]
      rcases net.interact r.watch rule pair with ⟨_ | _, _⟩ <;> simp

/-! ### All of them -/

/-- **A refused edit changes nothing.** Whatever they are given, the edits of a well-formed net are
refused exactly for the faults named here, and then the net they leave is the net there was. -/
theorem Net.WellFormed.refused_edits_change_nothing (h : net.WellFormed) :
    (∀ a b, (connect a b).RefusedFor net fun fault => net.connectFault? a b = some fault) ∧
      (∀ c, (disconnect c).RefusedFor net fun fault =>
        net.connection? c = none ∧ fault = .unknownConnection c) ∧
      (∀ left right, (connectInterface left right).RefusedFor net fun fault =>
        net.connectInterfaceFault? left right = some fault) ∧
      (∀ ports, (restrictInterface ports).RefusedFor net fun fault =>
        net.restrictFault? ports = some fault) ∧
      (∀ ports, (extendInterface ports).RefusedFor net fun fault =>
        net.extendFault? ports = some fault) ∧
      (∀ agent, (removeAgent agent).RefusedFor net fun fault =>
        net.agent? agent = none ∧ fault = .unknownAgent agent) ∧
      (∀ watch rule pair, (interact watch rule pair).RefusedFor net fun fault =>
        net.planFor rule pair = .error fault) ∧
      ∀ r : Reducer, r.step.RefusedFor net fun fault =>
        ∃ pair, net.activePairs.head? = some pair ∧ r.rules.Refuses net pair fault :=
  ⟨refusedFor_connect, refusedFor_disconnect, refusedFor_connectInterface,
    refusedFor_restrictInterface, refusedFor_extendInterface, h.refusedFor_removeAgent,
    refusedFor_interact, Reducer.refusedFor_step⟩

/-- Of two pairs of ports, the second has a port that is connected. So neither is connected. -/
theorem Net.refused_edits_facing_gamma :
    ((connectInterface [1, 2] [4, 0]).run (facing Combinators.gamma Combinators.gamma)) =
      (.error (.doubleConnect 0), facing Combinators.gamma Combinators.gamma) := by
  obtain ⟨-, -, hconnect, -⟩ :=
    (wellFormed_facing Combinators.gamma Combinators.gamma).refused_edits_change_nothing
  exact (hconnect [1, 2] [4, 0] (.doubleConnect 0) _).2 ⟨by decide, rfl⟩

end InteractionNets
