import InteractionNets.Proofs.Tally.History

/-!
# Totals

The totals of a tally are the sums over its rules, and the total time of a rule lies between what
its interactions take when each takes the least and when each takes the greatest time
(`Tally.AddsUp`). Every event keeps this, so the tally of every history adds up
(`Tally.addsUp_ofHistory`). The average time of a rule is its total time divided by the number of
its interactions and rounded down, which keeps it between the least and the greatest time
(`RuleTally.Bounded.average_between`).
-/

namespace InteractionNets

namespace RuleTally

variable {t : RuleTally}

/-- The total time of a rule lies between the number of its interactions times the least and times
the greatest time of one. -/
structure Bounded (t : RuleTally) : Prop where
  least : t.interactions * t.minTime.nanos ≤ t.totalTime.nanos
  greatest : t.totalTime.nanos ≤ t.interactions * t.maxTime.nanos

theorem bounded_empty : empty.Bounded :=
  ⟨Nat.le_refl 0, Nat.le_refl 0⟩

theorem Bounded.record (h : t.Bounded) (took : Duration) : (t.record took).Bounded where
  least := by
    show (t.interactions + 1) * (t.record took).minTime.nanos ≤ t.totalTime.nanos + took.nanos
    rw [nanos_minTime_record, Nat.succ_mul]
    split
    · next hnone =>
      rw [hnone, Nat.zero_mul, Nat.zero_add]
      exact Nat.le_add_left _ _
    · calc t.interactions * min t.minTime.nanos took.nanos + min t.minTime.nanos took.nanos
          ≤ t.interactions * t.minTime.nanos + took.nanos :=
            Nat.add_le_add (Nat.mul_le_mul_left _ (Nat.min_le_left _ _)) (Nat.min_le_right _ _)
        _ ≤ t.totalTime.nanos + took.nanos := Nat.add_le_add_right h.least _
  greatest := by
    show t.totalTime.nanos + took.nanos ≤ (t.interactions + 1) * (t.record took).maxTime.nanos
    rw [nanos_maxTime_record, Nat.succ_mul]
    calc t.totalTime.nanos + took.nanos
        ≤ t.interactions * t.maxTime.nanos + took.nanos := Nat.add_le_add_right h.greatest _
      _ ≤ t.interactions * max t.maxTime.nanos took.nanos + max t.maxTime.nanos took.nanos :=
        Nat.add_le_add (Nat.mul_le_mul_left _ (Nat.le_max_left _ _)) (Nat.le_max_right _ _)

/-- A plan that was made again takes no time that is counted. -/
theorem Bounded.recordReplan (h : t.Bounded) : t.recordReplan.Bounded :=
  ⟨h.least, h.greatest⟩

/-- As long as the average is computed in whole numbers, it lies between the least and the greatest
time. -/
theorem Bounded.average_between (h : t.Bounded) (hpos : 0 < t.interactions)
    (hlt : t.interactions < Word.count32) : t.minTime ≤ t.average ∧ t.average ≤ t.maxTime := by
  have haverage : t.average = ⟨t.totalTime.nanos / t.interactions⟩ := by
    rw [average, Duration.share, if_neg (Nat.ne_of_gt hpos), if_pos hlt]
  rw [haverage]
  constructor
  · show t.minTime.nanos ≤ t.totalTime.nanos / t.interactions
    rw [Nat.le_div_iff_mul_le hpos, Nat.mul_comm]
    exact h.least
  · show t.totalTime.nanos / t.interactions ≤ t.maxTime.nanos
    exact Nat.div_le_of_le_mul h.greatest

end RuleTally

namespace Tally

variable {t : Tally}

/-- The totals of a tally are the sums over the rules, and the times of every rule are bounded by
its least and its greatest time. -/
structure AddsUp (t : Tally) : Prop where
  interactions : t.interactions = (t.byRule.values.map RuleTally.interactions).sum
  replanned : t.replanned = (t.byRule.values.map RuleTally.replanned).sum
  bounded : ∀ r ∈ t.byRule.values, r.Bounded

theorem addsUp_empty : empty.AddsUp :=
  ⟨rfl, rfl, fun _ hr => absurd hr List.not_mem_nil⟩

/-- What is added to a part of the tally of one rule is added to the sum over the rules. -/
private theorem sum_upsert (f : RuleTally → RuleTally) (part : RuleTally → Nat) (n : Nat)
    (hempty : part .empty = 0) (hf : ∀ r, part (f r) = part r + n)
    (m : OrderedMap String RuleTally) (rule : String) :
    ((m.upsert rule fun old => f (old.getD .empty)).values.map part).sum =
      (m.values.map part).sum + n := by
  refine OrderedMap.sum_values_upsert part ?_ (fun r => hf r) m rule
  show part (f .empty) = n
  rw [hf, hempty, Nat.zero_add]

/-- What keeps the times of a rule bounded can be done to any rule. -/
private theorem AddsUp.bounded_upsert (h : t.AddsUp) {f : RuleTally → RuleTally}
    (hf : ∀ {r : RuleTally}, r.Bounded → (f r).Bounded) (rule : String) :
    ∀ r ∈ (t.byRule.upsert rule fun old => f (old.getD .empty)).values, r.Bounded := by
  intro r hr
  rcases OrderedMap.mem_values_upsert hr with rfl | hold
  · cases hrule : t.byRule.get? rule with
    | none => exact hf RuleTally.bounded_empty
    | some old => exact hf (h.bounded old (OrderedMap.mem_values_iff.2 ⟨rule, hrule⟩))
  · exact h.bounded r hold

/-- Every event adds as much to the total as it adds to one rule. -/
theorem AddsUp.count (h : t.AddsUp) (event : Event) : (t.count event).AddsUp := by
  cases event with
  | interaction rule took =>
    have hsum := sum_upsert (RuleTally.record · took)
    refine ⟨?_, ?_, h.bounded_upsert (fun hr => hr.record took) rule⟩
    · show t.interactions + 1 = _
      rw [h.interactions]
      exact (hsum RuleTally.interactions 1 rfl (fun _ => rfl) t.byRule rule).symm
    · show t.replanned + 0 = _
      rw [h.replanned]
      exact (hsum RuleTally.replanned 0 rfl (fun _ => rfl) t.byRule rule).symm
  | replan rule =>
    have hsum := sum_upsert RuleTally.recordReplan
    refine ⟨?_, ?_, h.bounded_upsert (fun hr => hr.recordReplan) rule⟩
    · show t.interactions + 0 = _
      rw [h.interactions]
      exact (hsum RuleTally.interactions 0 rfl (fun _ => rfl) t.byRule rule).symm
    · show t.replanned + 1 = _
      rw [h.replanned]
      exact (hsum RuleTally.replanned 1 rfl (fun _ => rfl) t.byRule rule).symm
  | round => exact ⟨h.interactions, h.replanned, h.bounded⟩
  | run took => exact ⟨h.interactions, h.replanned, h.bounded⟩

/-- **The tally of every history adds up.** -/
theorem addsUp_ofHistory (events : List Event) : (ofHistory events).AddsUp := by
  induction events using List.reverseRecOn with
  | nil => exact addsUp_empty
  | append_singleton events event ih =>
    rw [ofHistory_concat]
    exact ih.count event

end Tally

end InteractionNets
