import InteractionNets.Proofs.Net.WithTally
import InteractionNets.Proofs.Reduction.Made
import InteractionNets.Proofs.Tally.Totals

/-!
# What is counted

Reducing a net counts on from its tally, and the interactions among the events that are counted are
those that are made, in their order (`Reducer.isLedger_enters`): an interaction counts itself, a
plan that is no longer fresh is counted before it is made again, and a round and a run are counted
at their end, also where an interaction was refused halfway through. All that reducing asks of a
rule is that the net it puts in has counted nothing.
-/

namespace InteractionNets

open Net

variable {α : Type}

/-! ### Events -/

namespace Tally

variable {s t u : Tally}

/-- A tally that counts on from another one. -/
def LeadsTo (s t : Tally) : Prop :=
  ∃ events : List Event, t = events.foldl count s

theorem LeadsTo.refl (t : Tally) : t.LeadsTo t :=
  ⟨[], rfl⟩

theorem LeadsTo.trans (h : s.LeadsTo t) (h' : t.LeadsTo u) : s.LeadsTo u := by
  obtain ⟨xs, rfl⟩ := h
  obtain ⟨ys, rfl⟩ := h'
  exact ⟨xs ++ ys, List.foldl_append.symm⟩

/-- The tally of a history. -/
def IsHistory (t : Tally) : Prop :=
  empty.LeadsTo t

theorem isHistory_empty : empty.IsHistory :=
  .refl empty

theorem IsHistory.addsUp (h : t.IsHistory) : t.AddsUp := by
  obtain ⟨events, rfl⟩ := h
  exact addsUp_ofHistory events

theorem IsHistory.add (hs : s.IsHistory) (ht : t.IsHistory) : (s + t).IsHistory := by
  obtain ⟨xs, rfl⟩ := hs
  obtain ⟨ys, rfl⟩ := ht
  exact ⟨xs ++ ys, (ofHistory_append xs ys).symm⟩

/-- The label that an interaction is counted under. -/
def Event.label? : Event → Option String
  | .interaction label _ => some label
  | .replan _ | .round | .run _ => none

/-- A tally that counts on from another one, by events of which the interactions are the given ones,
in the same order. -/
def Enters (s t : Tally) (jobs : List (ActivePair × Rule)) : Prop :=
  ∃ events : List Event, t = events.foldl count s ∧
    events.filterMap Event.label? = jobs.map fun job => job.2.label

namespace Enters

variable {jobs jobs' : List (ActivePair × Rule)}

theorem leadsTo (h : s.Enters t jobs) : s.LeadsTo t := by
  obtain ⟨events, ht, -⟩ := h
  exact ⟨events, ht⟩

theorem refl (t : Tally) : t.Enters t [] :=
  ⟨[], rfl, rfl⟩

theorem trans (h : s.Enters t jobs) (h' : t.Enters u jobs') : s.Enters u (jobs ++ jobs') := by
  obtain ⟨xs, rfl, hxs⟩ := h
  obtain ⟨ys, rfl, hys⟩ := h'
  refine ⟨xs ++ ys, List.foldl_append.symm, ?_⟩
  rw [List.filterMap_append, List.map_append, hxs, hys]

theorem interaction (t : Tally) (pair : ActivePair) (rule : Rule) (took : Duration) :
    t.Enters (t.record rule.label took) [(pair, rule)] :=
  ⟨[.interaction rule.label took], rfl, rfl⟩

/-- An event that is not an interaction can be counted between the interactions. -/
theorem count (h : s.Enters t jobs) (event : Event) (hevent : event.label? = none) :
    s.Enters (t.count event) jobs := by
  have hone : t.Enters (t.count event) [] :=
    ⟨[event], rfl, List.filterMap_cons_none hevent⟩
  simpa only [List.append_nil] using h.trans hone

end Enters

end Tally

/-! ### Reducing -/

/-- An edit that counts on, whether it is refused or not. -/
def Edit.CountsOn (edit : Edit α) : Prop :=
  ∀ net : Net, net.tally.LeadsTo (edit.run net).2.tally

section Interactions

variable {net next : Net} {pair : ActivePair} {rule : Rule} {watch : Stopwatch}
  (hempty : rule.replacement.net.tally = .empty)

include hempty

/-- An interaction counts itself. -/
theorem Net.enters_interact (hrun : net.interact watch rule pair = (.ok (), next)) :
    net.tally.Enters next.tally [(pair, rule)] := by
  rw [interact] at hrun
  split at hrun
  · cases (Prod.mk.inj hrun).1
  · obtain rfl := (Prod.mk.inj hrun).2
    rw [Plan.tally_commit net hempty]
    exact .interaction net.tally pair rule (watch.interaction net pair)

/-- An interaction counts itself, unless it is refused. -/
theorem Net.countsOn_interact (watch : Stopwatch) (pair : ActivePair) :
    (interact watch rule pair).CountsOn := by
  intro net
  rw [Edit.run]
  rcases hrun : interact watch rule pair net with ⟨fault | _, next⟩
  · rw [((refusedFor_interact watch rule pair fault next).1 hrun).2]
    exact .refl _
  · exact (Net.enters_interact hempty hrun).leadsTo

end Interactions

namespace PlannedInteraction

variable {planned : PlannedInteraction} {plans : List PlannedInteraction}

/-- A planned interaction is counted if it is made. A plan that is no longer fresh is counted even if
it cannot be made again. -/
theorem enters_carryOut (hempty : planned.rule.replacement.net.tally = .empty) (watch : Stopwatch)
    (net : Net) :
    (∀ {next}, planned.carryOut watch net = (.ok (), next) →
        net.tally.Enters next.tally [planned.job]) ∧
      ∀ {fault next}, planned.carryOut watch net = (.error fault, next) →
        net.tally.Enters next.tally [] := by
  by_cases hfresh : planned.plan.isFresh net planned.rule
  · simp only [carryOut, hfresh, if_true]
    constructor
    · intro next hrun
      rw [← (Prod.mk.inj hrun).2, Plan.tally_commit net hempty]
      exact .interaction net.tally planned.pair planned.rule _
    · intro fault next hrun
      cases (Prod.mk.inj hrun).1
  · rw [carryOut_of_not_isFresh hfresh]
    have hreplan : net.tally.Enters (net.tally.recordReplan planned.rule.label) [] :=
      (Tally.Enters.refl net.tally).count (.replan planned.rule.label) rfl
    constructor
    · intro next hrun
      exact hreplan.trans (Net.enters_interact hempty hrun)
    · intro fault next hrun
      rw [((refusedFor_interact watch planned.rule planned.pair fault next).1 hrun).2]
      exact hreplan

theorem enters_carryOutAll
    (hempty : ∀ planned ∈ plans, planned.rule.replacement.net.tally = .empty) (watch : Stopwatch)
    (done : Nat) (net : Net) :
    net.tally.Enters (carryOutAll watch done plans net).2.tally (made watch plans net) := by
  induction plans generalizing net done with
  | nil => exact .refl _
  | cons planned rest ih =>
    rw [List.forall_mem_cons] at hempty
    obtain ⟨hmade, hrefused⟩ := enters_carryOut hempty.1 watch net
    rcases hrun : planned.carryOut watch net with ⟨fault | _, next⟩ <;>
      simp only [carryOutAll, made, hrun]
    · exact hrefused hrun
    · exact (hmade hrun).trans (ih hempty.2 (done + 1) next)

end PlannedInteraction

namespace Reducer

variable {r : Reducer} (hempty : ∀ rule ∈ r.rules.rules, rule.replacement.net.tally = .empty)

include hempty

/-- **The interactions that are counted are those that are made.** -/
theorem isLedger_enters : r.IsLedger fun jobs net after => net.tally.Enters after.tally jobs where
  refl net := .refl net.tally
  trans hfirst hsecond := hfirst.trans hsecond
  interact _ hfor hrun := Net.enters_interact (hempty _ (RuleSet.mem_rules_of_ruleFor hfor)) hrun
  turns hplans := PlannedInteraction.enters_carryOutAll (fun planned hplanned =>
    hempty _ (RuleSet.mem_rules_of_ruleFor ((planRound_spec hplans).2 planned hplanned).ruleFor))
    r.watch 0 _
  recordRound h := h.count .round rfl
  recordBusy took h := h.count (.run took) rfl

end Reducer

end InteractionNets
