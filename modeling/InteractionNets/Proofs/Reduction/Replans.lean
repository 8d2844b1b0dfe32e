import InteractionNets.Proofs.Redex.Untouched
import InteractionNets.Proofs.Reduction.Made

/-!
# Plans that are made again

The plans of a round are made on the net as it is at first, and a plan is made again when it is no
longer fresh at its turn (`Reducer.madeAgain`). That happens only next to an earlier pair: the plan
of a pair stays fresh as long as no pair has interacted that it touched in the net as it was at
first (`Reducer.madeAgain_touches`). The invariant of the turns says two things of every pair still
to come. Its agents are those of the net at first; and if it touched none of the pairs that had
their turns, then its plan is fresh, and its ports are connected as they were at first, so that
whom it touches now it touched then.
-/

namespace InteractionNets

open Net RuleSet

variable {net start : Net} {rules : RuleSet} {watch : Stopwatch}

/-! ### Touching -/

theorem Net.Touches.symm {pair other : ActivePair} (h : net.Touches pair other) :
    net.Touches other pair := by
  obtain ⟨a, ha, b, hb, p, hp, q, hq, hpq⟩ := h
  exact ⟨b, hb, a, ha, q, hq, p, hp, hpq.symm⟩

/-- A pair touches another one at its ports, and at the agents of both. -/
theorem Net.Touches.of_same {pair other : ActivePair} (h : net.Touches pair other)
    (hpair : ∀ a ∈ pair.agents, net.agent? a = start.agent? a)
    (hother : ∀ a ∈ other.agents, net.agent? a = start.agent? a)
    (hjoined : ∀ a ∈ pair.agents, ∀ p ∈ start.auxiliaryOf a, ∀ {q}, net.Joined p q →
      start.Joined p q) : start.Touches pair other := by
  obtain ⟨a, ha, b, hb, p, hp, q, hq, hpq⟩ := h
  rw [auxiliaryOf_congr (hpair a ha)] at hp
  rw [auxiliaryOf_congr (hother b hb)] at hq
  exact ⟨a, ha, b, hb, p, hp, q, hq, hjoined a ha p hp hpq⟩

/-! ### Turns -/

namespace PlannedInteraction

variable {planned : PlannedInteraction} {plans : List PlannedInteraction}

/-- The pairs whose plans are made again when planned interactions are carried out one after another
until one fails. -/
def madeAgain (watch : Stopwatch) : List PlannedInteraction → Net → List ActivePair
  | [], _ => []
  | planned :: rest, net =>
    let later := match planned.carryOut watch net with
      | (.ok (), next) => madeAgain watch rest next
      | (.error _, _) => []
    if planned.plan.isFresh net planned.rule then later else planned.pair :: later

variable (hempty : planned.rule.replacement.net.tally = .empty)

include hempty in
/-- A turn counts a plan that it makes again, even if that is refused. -/
theorem replanned_carryOut (watch : Stopwatch) (net : Net) :
    (planned.carryOut watch net).2.tally.replanned =
      net.tally.replanned + if planned.plan.isFresh net planned.rule then 0 else 1 := by
  have hcommit : ∀ (plan : Plan) took (net : Net),
      (plan.commit planned.rule took net).tally.replanned = net.tally.replanned := by
    intro plan took net
    rw [Plan.tally_commit net hempty]
    rfl
  rw [carryOut]
  split
  · exact hcommit _ _ net
  · rw [interact]
    split
    · rfl
    · exact hcommit _ _ _

/-- A round counts the plans that are made again. -/
theorem replanned_carryOutAll
    (hempty : ∀ planned ∈ plans, planned.rule.replacement.net.tally = .empty) (watch : Stopwatch)
    (done : Nat) (net : Net) : (carryOutAll watch done plans net).2.tally.replanned =
      net.tally.replanned + (madeAgain watch plans net).length := by
  induction plans generalizing net done with
  | nil => rfl
  | cons planned rest ih =>
    rw [List.forall_mem_cons] at hempty
    have hturn := replanned_carryOut hempty.1 watch net
    rw [carryOutAll, madeAgain]
    rcases hrun : planned.carryOut watch net with ⟨fault | _, next⟩ <;> rw [hrun] at hturn
    · rw [hturn]
      split <;> rfl
    · show (carryOutAll watch (done + 1) rest next).2.tally.replanned =
        net.tally.replanned + (if planned.plan.isFresh net planned.rule then
          madeAgain watch rest next else planned.pair :: madeAgain watch rest next).length
      rw [ih hempty.2, hturn]
      split
      · rfl
      · rw [List.length_cons]
        omega

/-- A plan that is made again is one that is not fresh at its turn. -/
theorem mem_madeAgain_cons {rest : List PlannedInteraction} {remade : ActivePair}
    (h : remade ∈ madeAgain watch (planned :: rest) net) :
    (¬ planned.plan.isFresh net planned.rule ∧ remade = planned.pair) ∨
      ∃ next, planned.carryOut watch net = (.ok (), next) ∧ remade ∈ madeAgain watch rest next := by
  rw [madeAgain] at h
  by_cases hremade : ¬ planned.plan.isFresh net planned.rule ∧ remade = planned.pair
  · exact .inl hremade
  · rcases hrun : planned.carryOut watch net with ⟨fault | _, next⟩ <;>
      simp only [hrun] at h <;> split at h <;> rename_i hfresh
    · exact absurd h List.not_mem_nil
    · exact absurd ⟨hfresh, List.mem_singleton.1 h⟩ hremade
    · exact .inr ⟨next, rfl, h⟩
    · rcases List.mem_cons.1 h with rfl | h
      · exact absurd ⟨hfresh, rfl⟩ hremade
      · exact .inr ⟨next, rfl, h⟩

/-- Plans are made again in the order of their turns. -/
theorem madeAgain_sublist (watch : Stopwatch) (plans : List PlannedInteraction) (net : Net) :
    (madeAgain watch plans net).Sublist (plans.map pair) := by
  induction plans generalizing net with
  | nil => exact List.Sublist.refl _
  | cons planned rest ih =>
    have hlater : ∀ {later}, later.Sublist (rest.map pair) →
        (if planned.plan.isFresh net planned.rule then later
          else planned.pair :: later).Sublist ((planned :: rest).map pair) := by
      intro later h
      rw [List.map_cons]
      split
      · exact h.cons _
      · exact h.cons_cons _
    rw [madeAgain]
    refine hlater ?_
    split
    · exact ih _
    · exact List.nil_sublist _

/-- What is left of a plan when no pair has interacted that its pair touched: the plan is fresh, and
the ports of the pair are connected as they were. -/
structure Kept (planned : PlannedInteraction) (net start : Net) : Prop where
  isFresh : planned.plan.isFresh net planned.rule
  joined : ∀ a ∈ planned.pair.agents, ∀ p ∈ start.auxiliaryOf a, ∀ {q},
    net.Joined p q ↔ start.Joined p q

/-- What is known of the pairs whose turns are still to come, when some pairs have had theirs. -/
structure Awaits (planned : PlannedInteraction) (rules : RuleSet) (net start : Net)
    (before : List ActivePair) : Prop where
  ready : planned.Ready rules net
  agent : ∀ a ∈ planned.pair.agents, net.agent? a = start.agent? a
  kept : (∀ earlier ∈ before, ¬ start.Touches planned.pair earlier) → planned.Kept net start

section Accepted

variable (haccepted : ∀ rule ∈ rules.rules, rule.Accepted) {before : List ActivePair}
  {other : PlannedInteraction} {next : Net}

include haccepted

/-- **One turn** keeps what is known of the pairs that are still to come. -/
theorem Awaits.carryOut (h : net.WellFormed) (hplanned : planned.Awaits rules net start before)
    (hother : other.Awaits rules net start before)
    (hapart : planned.pair.isIndependentOf other.pair)
    (hrun : planned.carryOut watch net = (.ok (), next)) (hready : other.Ready rules next) :
    other.Awaits rules next start (before ++ [planned.pair]) := by
  obtain ⟨tally, -, heq⟩ := hplanned.ready.exists_carryOut_eq watch
  have hv := (haccepted _ (mem_rules_of_ruleFor hplanned.ready.ruleFor)).valid
  obtain ⟨hagent, huntouched⟩ := read_of_untouched (h.withTally tally) hv (heq.symm.trans hrun)
    hother.ready.active hapart
  refine ⟨hready, fun a ha => (hagent a ha).trans (hother.agent a ha), fun hnone => ?_⟩
  rw [List.forall_mem_append] at hnone
  have hkept := hother.kept hnone.1
  -- a pair that is touched now was touched at first
  have hnot : ¬ net.Touches other.pair planned.pair := fun htouch =>
    hnone.2 _ (List.mem_singleton_self _) (htouch.of_same hother.agent hplanned.agent
      fun a ha p hp {q} => (hkept.joined a ha p hp).1)
  obtain ⟨hjoined, hread⟩ := huntouched hnot
  constructor
  case isFresh =>
    rw [Plan.isFresh_iff, hread, Surroundings.read_withTally]
    exact Plan.isFresh_iff.1 hkept.isFresh
  case joined =>
    intro a ha p hp q
    have hp' : p ∈ net.auxiliaryOf a := by rwa [auxiliaryOf_congr (hother.agent a ha)]
    exact (hjoined a ha p hp').trans (hkept.joined a ha p hp)

/-- **The turns of a round** make a plan again only for a pair that touched one with an earlier
turn. -/
theorem exists_touches_of_madeAgain (h : net.WellFormed)
    (hawaits : ∀ planned ∈ plans, planned.Awaits rules net start before)
    (hapart : plans.Pairwise fun planned other => planned.pair.isIndependentOf other.pair)
    {remade : ActivePair} (hremade : remade ∈ madeAgain watch plans net) :
    ∃ earlier later, plans.map pair = earlier ++ remade :: later ∧
      ∃ other ∈ before ++ earlier, start.Touches remade other := by
  induction plans generalizing net before with
  | nil => exact absurd hremade List.not_mem_nil
  | cons planned rest ih =>
    rw [List.pairwise_cons] at hapart
    rw [List.forall_mem_cons] at hawaits
    rcases mem_madeAgain_cons hremade with ⟨hstale, rfl⟩ | ⟨next, hrun, hlater⟩
    · refine ⟨[], rest.map pair, rfl, ?_⟩
      rw [List.append_nil]
      by_contra hnone
      exact hstale (hawaits.1.kept fun earlier hearlier htouch =>
        hnone ⟨earlier, hearlier, htouch⟩).isFresh
    · obtain ⟨next', hnext, hwell, -, hkept⟩ | ⟨fault, next', hnext, -⟩ :=
        hawaits.1.ready.carryOut_cases haccepted h watch
      · obtain rfl := (Prod.mk.inj (hnext.symm.trans hrun)).2
        obtain ⟨earlier, later, hmap, other, hmem, htouch⟩ := ih hwell
          (fun other hother => hawaits.1.carryOut haccepted h (hawaits.2 other hother)
            (hapart.1 other hother) hrun
            (hkept other (hapart.1 other hother) (hawaits.2 other hother).ready)) hapart.2 hlater
        refine ⟨planned.pair :: earlier, later, by rw [List.map_cons, hmap]; rfl, other, ?_, htouch⟩
        rwa [List.append_assoc] at hmem
      · cases hnext.symm.trans hrun

end Accepted

end PlannedInteraction

/-! ### Rounds -/

namespace Reducer

variable {r : Reducer}

/-- The pairs of a round whose plans are made again. -/
def madeAgain (r : Reducer) (limit : Option Nat) (net : Net) : List ActivePair :=
  match r.planRound net limit with
  | .error _ => []
  | .ok plans => PlannedInteraction.madeAgain r.watch plans net

theorem madeAgain_sublist (r : Reducer) (limit : Option Nat) (net : Net) :
    (r.madeAgain limit net).Sublist (batch net limit) := by
  rw [madeAgain]
  split
  · exact List.nil_sublist _
  · rename_i plans hplans
    rw [← (planRound_spec hplans).1]
    exact PlannedInteraction.madeAgain_sublist r.watch plans net

/-- The pairs of a round are different. -/
theorem nodup_batch (h : net.WellFormed) (limit : Option Nat) : (batch net limit).Nodup := by
  refine (h.pairwise_activePairs.sublist (batch_sublist net limit)).imp ?_
  intro pair other hapart
  rintro rfl
  exact ActivePair.isIndependentOf_iff.1 hapart .left .left rfl

section Accepted

variable (haccepted : ∀ rule ∈ r.rules.rules, rule.Accepted)

include haccepted

/-- A round counts the plans that it makes again. -/
theorem replanned_round (limit : Option Nat) (net : Net) :
    ((r.round limit).run net).2.tally.replanned =
      net.tally.replanned + (r.madeAgain limit net).length := by
  rw [snd_round, runRound, madeAgain]
  cases hplans : r.planRound net limit with
  | error fault => rfl
  | ok plans =>
    have hall := PlannedInteraction.replanned_carryOutAll (fun planned hplanned =>
      (haccepted _ (mem_rules_of_ruleFor
        ((planRound_spec hplans).2 planned hplanned).ruleFor)).tally_eq_empty) r.watch 0 net
    rcases hresult : PlannedInteraction.carryOutAll r.watch 0 plans net with ⟨result, next⟩
    rw [hresult] at hall
    simp only [hresult]
    split <;> exact hall

/-- A pair whose plan is made again touched an earlier pair in the net as it was at first. -/
theorem madeAgain_touches (h : net.WellFormed) (limit : Option Nat) {remade : ActivePair}
    (hremade : remade ∈ r.madeAgain limit net) :
    ∃ earlier later, batch net limit = earlier ++ remade :: later ∧
      ∃ other ∈ earlier, net.Touches remade other := by
  rw [madeAgain] at hremade
  cases hplans : r.planRound net limit with
  | error fault =>
    rw [hplans] at hremade
    exact absurd hremade List.not_mem_nil
  | ok plans =>
    rw [hplans] at hremade
    have hall := allReady_of_planRound h hplans
    rw [← (planRound_spec hplans).1]
    have hawaits : ∀ planned ∈ plans, planned.Awaits r.rules net net [] := fun planned hplanned =>
      ⟨hall.ready planned hplanned, fun _ _ => rfl,
        fun _ => ⟨isFresh_of_planRound hplans hplanned, fun _ _ _ _ {q} => Iff.rfl⟩⟩
    exact PlannedInteraction.exists_touches_of_madeAgain haccepted h hawaits hall.apart hremade

/-- **Only what touches is planned again.** In a round, the plan of an active pair is made again
only if some auxiliary port of one of its agents was connected, in the net as it was at first, to an
auxiliary port of an agent of an earlier pair of the round. So the plan of the first pair is never
made again, and a round in which no pair touches another one makes no plan again. The tally counts
just the plans that are made again. -/
theorem round_madeAgain (h : net.WellFormed) (limit : Option Nat) :
    ((r.round limit).run net).2.tally.replanned =
        net.tally.replanned + (r.madeAgain limit net).length ∧
      (r.madeAgain limit net).Sublist (batch net limit) ∧
      (∀ remade ∈ r.madeAgain limit net, ∃ earlier later,
        batch net limit = earlier ++ remade :: later ∧
          ∃ other ∈ earlier, net.Touches remade other) ∧
      (∀ first ∈ (batch net limit).head?, first ∉ r.madeAgain limit net) ∧
      ((batch net limit).Pairwise (fun pair other => ¬ net.Touches pair other) →
        r.madeAgain limit net = [] ∧
          ((r.round limit).run net).2.tally.replanned = net.tally.replanned) := by
  have hcount := replanned_round haccepted limit net
  have htouches := fun remade (hremade : remade ∈ r.madeAgain limit net) =>
    madeAgain_touches haccepted h limit hremade
  refine ⟨hcount, madeAgain_sublist r limit net, htouches, fun first hfirst hremade => ?_,
    fun hapart => ?_⟩
  · obtain ⟨earlier, later, hbatch, other, hother, -⟩ := htouches first hremade
    obtain ⟨head, rest, rfl⟩ := List.exists_cons_of_ne_nil (List.ne_nil_of_mem hother)
    -- the pairs of a batch are all different, so the first one has no earlier pair
    have hnodup := nodup_batch h limit
    rw [hbatch] at hfirst hnodup
    obtain rfl : head = first := Option.some.inj hfirst
    exact (List.nodup_cons.1 hnodup).1 (List.mem_append_right _ List.mem_cons_self)
  · have hnone : r.madeAgain limit net = [] := by
      refine List.eq_nil_iff_forall_not_mem.2 fun remade hremade => ?_
      obtain ⟨earlier, later, hbatch, other, hother, htouch⟩ := htouches remade hremade
      rw [hbatch, List.pairwise_append] at hapart
      exact hapart.2.2 other hother remade List.mem_cons_self htouch.symm
    exact ⟨hnone, by rw [hcount, hnone]; rfl⟩

end Accepted

/-- Of two pairs of passages that are joined, the second one touches the first one, and its plan is
made again. -/
theorem round_madeAgain_passages :
    madeAgain ⟨straight, .stopped⟩ none passages = [secondPassages] ∧
      passages.Touches secondPassages firstPassages := by
  have hremade : madeAgain ⟨straight, .stopped⟩ none passages = [secondPassages] := by
    decide +kernel
  have hbatch : batch passages none = [firstPassages, secondPassages] := by decide +kernel
  have hmem : secondPassages ∈ madeAgain ⟨straight, .stopped⟩ none passages :=
    hremade.symm ▸ List.mem_singleton_self _
  obtain ⟨-, -, htouches, -⟩ := @round_madeAgain passages ⟨straight, .stopped⟩ accepted_straight
    wellFormed_passages none
  obtain ⟨earlier, later, hsplit, other, hother, htouch⟩ := htouches _ hmem
  refine ⟨hremade, ?_⟩
  -- only the first pair has an earlier turn
  have hfirst : ∀ pair ∈ batch passages none, pair = firstPassages ∨ pair = secondPassages := by
    rw [hbatch]
    simp
  rcases hfirst other (hsplit.symm ▸ List.mem_append_left _ hother) with rfl | rfl
  · exact htouch
  · have hnodup := nodup_batch wellFormed_passages none
    rw [hsplit] at hnodup
    exact absurd rfl ((List.nodup_append.1 hnodup).2.2 _ hother _ List.mem_cons_self)

end Reducer

end InteractionNets
