import InteractionNets.Proofs.Net.WithTally
import InteractionNets.Proofs.Redex.Interaction

/-!
# Interactions do not look at tallies

An interaction changes the structure of a net, that is its agents, ports and connections with the
vacant slots and its interface, in a way that depends on the structure alone. The tally only counts
it, and the stopwatch only shows in the tally. So nets of one structure stay nets of one structure
when the same pair interacts (`Net.SameStructure.interact_ok`), even ids that are freed and given
out again.
-/

namespace InteractionNets

namespace Net

/-- Nets with the same agents, ports and connections under the same ids, the same vacant slots in
the same order, and the same interface. -/
structure SameStructure (net other : Net) : Prop where
  agents : net.agents = other.agents
  ports : net.ports = other.ports
  connections : net.connections = other.connections
  interface : net.interface = other.interface

namespace SameStructure

variable {net other last : Net}

theorem withTally (net : Net) (tally : Tally) : { net with tally := tally }.SameStructure net :=
  ⟨rfl, rfl, rfl, rfl⟩

theorem refl (net : Net) : net.SameStructure net :=
  withTally net net.tally

theorem symm (h : net.SameStructure other) : other.SameStructure net :=
  ⟨h.agents.symm, h.ports.symm, h.connections.symm, h.interface.symm⟩

theorem trans (h : net.SameStructure other) (h' : other.SameStructure last) :
    net.SameStructure last :=
  ⟨h.agents.trans h'.agents, h.ports.trans h'.ports, h.connections.trans h'.connections,
    h.interface.trans h'.interface⟩

theorem eq_withTally (h : net.SameStructure other) : other = { net with tally := other.tally } :=
  Net.ext h.agents.symm h.ports.symm h.connections.symm h.interface.symm rfl

end SameStructure

end Net

theorem Surroundings.read_withTally (net : Net) (tally : Tally) (pair : ActivePair) (rule : Rule) :
    read { net with tally := tally } pair rule = read net pair rule := by
  have hslots : ∀ sides side index ports,
      slotsFrom { net with tally := tally } pair sides side index ports =
        slotsFrom net pair sides side index ports := by
    intro sides side index ports
    induction ports generalizing index with
    | nil => rfl
    | cons port rest ih =>
      rw [slotsFrom, slotsFrom, ih]
      rfl
  simp only [read, hslots, Net.connection?_withTally, Net.agent?_withTally]

namespace Plan

open Net

variable (net : Net) (tally : Tally)

theorem detach_withTally (pair : ActivePair) :
    detach { net with tally := tally } pair = { detach net pair with tally := tally } := by
  rw [detach, detach, unlink_withTally]
  refine List.foldl_hom (fun net : Net => { net with tally := tally }) fun net port => ?_
  have hlink : { net with tally := tally }.linkOf? port = net.linkOf? port := rfl
  rw [hlink]
  cases net.linkOf? port with
  | some connection => exact unlink_withTally net tally connection
  | none => rfl

theorem linkPaths_withTally (copies : PortMap) (links : List (PathEnd × PathEnd)) :
    linkPaths copies links { net with tally := tally } =
      { linkPaths copies links net with tally := tally } := by
  induction links generalizing net with
  | nil => rfl
  | cons link rest ih =>
    simp only [linkPaths]
    split
    · rename_i a b _ _
      exact ih (net.link a b).2
    · exact ih net

theorem tally_detach (pair : ActivePair) : (detach net pair).tally = net.tally := by
  have hdetach := congrArg Net.tally (detach_withTally net net.tally pair)
  exact hdetach

theorem tally_linkPaths (copies : PortMap) (links : List (PathEnd × PathEnd)) :
    (linkPaths copies links net).tally = net.tally := by
  have hlink := congrArg Net.tally (linkPaths_withTally net net.tally copies links)
  exact hlink

/-- Carrying out a plan does not look at the tally, and counts one interaction. -/
theorem commit_withTally {rule : Rule} (hempty : rule.replacement.net.tally = .empty) (plan : Plan)
    (took : Duration) :
    plan.commit rule took { net with tally := tally } =
      { plan.commit rule took net with tally := tally.record rule.label took } := by
  have hinject : ({ detach net plan.surroundings.pair with tally := tally } : Net).inject
      rule.replacement.net false =
        (((detach net plan.surroundings.pair).inject rule.replacement.net false).1,
          { ((detach net plan.surroundings.pair).inject rule.replacement.net false).2 with
            tally := tally }) := by
    simp only [inject, copyAgents_withTally, copyConnections_withTally, hempty, Tally.add_empty]
  simp only [commit, detach_withTally, hinject, linkPaths_withTally]
  rfl

theorem tally_commit {rule : Rule} (hempty : rule.replacement.net.tally = .empty) (plan : Plan)
    (took : Duration) : (plan.commit rule took net).tally = net.tally.record rule.label took :=
  congrArg Net.tally (commit_withTally net net.tally hempty plan took)

end Plan

namespace Net

variable {net other after : Net} {rule : Rule} {pair : ActivePair} {watch : Stopwatch}

/-- Planning does not look at the tally. -/
theorem SameStructure.planFor_eq (h : net.SameStructure other) (rule : Rule) (pair : ActivePair) :
    net.planFor rule pair = other.planFor rule pair := by
  rw [h.eq_withTally, planFor, planFor, Surroundings.read_withTally net other.tally]

/-- What is refused in a net is refused in every net of its structure. -/
theorem SameStructure.interact_error (h : net.SameStructure other) {fault : Fault}
    (hrun : net.interact watch rule pair = (.error fault, after)) (watch' : Stopwatch) :
    after = net ∧ other.interact watch' rule pair = (.error fault, other) := by
  rw [interact] at hrun ⊢
  rw [← h.planFor_eq]
  cases hplan : net.planFor rule pair with
  | error fault' =>
    simp only [hplan, Prod.mk.injEq, Except.error.injEq] at hrun ⊢
    exact ⟨hrun.2.symm, hrun.1, trivial⟩
  | ok plan => simp [hplan] at hrun

/-- **An interaction depends on the structure alone.** Nets of one structure have one structure
after the same interaction, which both tallies count. -/
theorem SameStructure.interact_ok (h : net.SameStructure other)
    (hempty : rule.replacement.net.tally = .empty)
    (hrun : net.interact watch rule pair = (.ok (), after)) (watch' : Stopwatch) :
    ∃ last took took', other.interact watch' rule pair = (.ok (), last) ∧
      after.SameStructure last ∧ after.tally = net.tally.record rule.label took ∧
      last.tally = other.tally.record rule.label took' := by
  rw [interact] at hrun
  cases hplan : net.planFor rule pair with
  | error fault => simp [hplan] at hrun
  | ok plan =>
    simp only [hplan, Prod.mk.injEq, true_and] at hrun
    refine ⟨plan.commit rule (watch'.interaction other pair) other, watch.interaction net pair,
      watch'.interaction other pair, ?_, ?_, ?_, Plan.tally_commit other hempty plan _⟩
    · rw [interact, ← h.planFor_eq, hplan]
    · rw [← hrun, h.eq_withTally, Plan.commit_withTally net other.tally hempty plan]
      exact ⟨rfl, rfl, rfl, rfl⟩
    · rw [← hrun, Plan.tally_commit net hempty plan]

end Net

end InteractionNets
