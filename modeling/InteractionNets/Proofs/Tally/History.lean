import InteractionNets.Proofs.Tally
import Mathlib.Data.List.Induction

/-!
# Histories

A history is what happens to a net, one event after another, and a tally counts it
(`Tally.ofHistory`). Adding tallies is counting one history after the other
(`Tally.ofHistory_append`): the rules of the second history that were used in the first one keep
their places there, and the others follow in order. The least time of a rule needs care, because a
rule whose plans were only made again has none: it stands at zero and does not count as long as
there is no interaction (`Tally.ofHistory_minTime`).
-/

namespace InteractionNets

namespace RuleTally

variable {s t : RuleTally}

/-! ### The fields of a tally -/

@[simp] theorem interactions_add : (s + t).interactions = s.interactions + t.interactions := rfl

theorem nanos_minTime_add : (s + t).minTime.nanos =
    if s.interactions = 0 then t.minTime.nanos
    else if t.interactions = 0 then s.minTime.nanos
    else min s.minTime.nanos t.minTime.nanos := by
  show (if s.interactions = 0 then t.minTime
    else if t.interactions = 0 then s.minTime else min s.minTime t.minTime).nanos = _
  split
  · rfl
  · split <;> rfl

@[simp] theorem nanos_maxTime_record (took : Duration) :
    (t.record took).maxTime.nanos = max t.maxTime.nanos took.nanos := rfl

theorem nanos_minTime_record (took : Duration) : (t.record took).minTime.nanos =
    if t.interactions = 0 then took.nanos else min t.minTime.nanos took.nanos := by
  show (if t.interactions = 0 ∨ took.nanos < t.minTime.nanos then took else t.minTime).nanos = _
  split
  · split <;> omega
  · split <;> omega

/-- Tallies with the same counts and the same times are equal. -/
theorem eq_of_fields (hinteractions : s.interactions = t.interactions)
    (hreplanned : s.replanned = t.replanned) (htotal : s.totalTime.nanos = t.totalTime.nanos)
    (hleast : s.minTime.nanos = t.minTime.nanos) (hgreatest : s.maxTime.nanos = t.maxTime.nanos) :
    s = t := by
  obtain ⟨i, r, ⟨total⟩, ⟨least⟩, ⟨greatest⟩⟩ := s
  obtain ⟨i', r', ⟨total'⟩, ⟨least'⟩, ⟨greatest'⟩⟩ := t
  simp_all

/-! ### Counting and adding -/

/-- Adding the tally of a rule that was never used changes nothing, if there is no least time
without an interaction. -/
theorem add_empty (ht : t.interactions = 0 → t.minTime = .zero) : t + empty = t := by
  refine eq_of_fields rfl rfl rfl ?_ (Nat.max_zero _)
  rw [nanos_minTime_add]
  split
  · rw [ht ‹_›]
    rfl
  · rfl

/-- An interaction can be counted before or after adding. -/
theorem add_record (s t : RuleTally) (took : Duration) :
    s + t.record took = (s + t).record took := by
  refine eq_of_fields rfl rfl (Nat.add_assoc _ _ _).symm ?_ (Nat.max_assoc _ _ _).symm
  have hone : (t.record took).interactions = t.interactions + 1 := rfl
  rw [nanos_minTime_add, nanos_minTime_record, nanos_minTime_record, nanos_minTime_add, hone]
  by_cases hs : s.interactions = 0 <;> by_cases ht : t.interactions = 0 <;>
    simp [hs, ht, Nat.min_assoc]

/-- A plan that was made again can be counted before or after adding. -/
theorem add_recordReplan (s t : RuleTally) : s + t.recordReplan = (s + t).recordReplan := rfl

end RuleTally

namespace Tally

variable {t a b b' : Tally} {rule : String}

/-! ### Histories and what is counted of them -/

/-- What can happen to a net that is counted. -/
inductive Event where
  /-- An interaction by the named rule, which took some time. -/
  | interaction (rule : String) (took : Duration)
  /-- A plan for the named rule was made again. -/
  | replan (rule : String)
  /-- A round. -/
  | round
  /-- A whole run, which took some time. -/
  | run (took : Duration)
deriving DecidableEq

/-- Count an event. -/
def count (t : Tally) : Event → Tally
  | .interaction rule took => t.record rule took
  | .replan rule => t.recordReplan rule
  | .round => t.recordRound
  | .run took => t.recordBusy took

/-- The tally of a history, from its first event on. -/
def ofHistory (events : List Event) : Tally :=
  events.foldl count empty

@[simp] theorem ofHistory_nil : ofHistory [] = empty := rfl

theorem ofHistory_concat (events : List Event) (event : Event) :
    ofHistory (events ++ [event]) = (ofHistory events).count event :=
  List.foldl_concat count empty event events

/-- A rule without interactions has no least time. -/
theorem ofHistory_minTime (events : List Event) :
    ∀ r ∈ (ofHistory events).byRule.values, r.interactions = 0 → r.minTime = .zero := by
  induction events using List.reverseRecOn with
  | nil => exact fun r hr => absurd hr List.not_mem_nil
  | append_singleton events event ih =>
    rw [ofHistory_concat]
    intro r hr
    cases event with
    | interaction rule took =>
      rcases OrderedMap.mem_values_upsert hr with rfl | hold
      · exact fun hnone => absurd hnone (Nat.succ_ne_zero _)
      · exact ih r hold
    | replan rule =>
      rcases OrderedMap.mem_values_upsert hr with rfl | hold
      · cases hrule : (ofHistory events).byRule.get? rule with
        | none => exact fun _ => rfl
        | some old => exact ih old (OrderedMap.mem_values_iff.2 ⟨rule, hrule⟩)
      · exact ih r hold
    | round => exact ih r hr
    | run took => exact ih r hr

/-! ### Sums -/

/-- In a sum, the rules of the first tally come first, then those that only the second one has. -/
theorem keys_byRule_add (a b : Tally) : (a + b).byRule.keys =
    a.byRule.keys ++ b.byRule.keys.filter fun rule => rule ∉ a.byRule.keys := by
  have hkeys : ∀ (entries : List (String × RuleTally)) (m : OrderedMap String RuleTally),
      (entries.map Prod.fst).Nodup →
      (entries.foldl (fun m entry => m.upsert entry.1 fun old => old.getD .empty + entry.2) m).keys
        = m.keys ++ (entries.map Prod.fst).filter fun rule => rule ∉ m.keys := by
    intro entries
    induction entries with
    | nil => simp
    | cons entry rest ih =>
      intro m hnodup
      obtain ⟨hnot, hnodup⟩ := List.nodup_cons.1 hnodup
      rw [List.foldl_cons, ih _ hnodup, OrderedMap.keys_upsert, List.map_cons, List.filter_cons]
      by_cases hmem : entry.1 ∈ m.keys
      · simp [hmem]
      · -- the key is new, and it does not come again
        have hrest : ∀ rule ∈ rest.map Prod.fst, rule ≠ entry.1 := fun rule hrule heq =>
          hnot (heq ▸ hrule)
        simp only [hmem, if_false, not_false_eq_true, decide_true, if_true, List.append_assoc,
          List.singleton_append]
        congr 2
        refine List.filter_congr fun rule hrule => ?_
        simp [hrest rule hrule]
  exact hkeys b.byRule.entries a.byRule b.byRule.keys_nodup

/-- What is written for one rule of the second tally can be written for that rule of the sum. -/
private theorem byRule_add_upsert {f : RuleTally → RuleTally} (hf : ∀ s t, s + f t = f (s + t))
    (ha : ∀ r ∈ a.byRule.values, r.interactions = 0 → r.minTime = .zero)
    (hb : b'.byRule = b.byRule.upsert rule fun old => f (old.getD .empty)) :
    (a + b').byRule = (a + b).byRule.upsert rule fun old => f (old.getD .empty) := by
  refine OrderedMap.eq_of_keys_eq ?_ fun name => ?_
  · rw [OrderedMap.keys_upsert, keys_byRule_add, keys_byRule_add, hb, OrderedMap.keys_upsert]
    by_cases hfirst : rule ∈ a.byRule.keys <;> by_cases hsecond : rule ∈ b.byRule.keys <;>
      simp [hfirst, hsecond]
  · rw [OrderedMap.get?_upsert, get?_byRule_add, get?_byRule_add, get?_byRule_add, hb,
      OrderedMap.get?_upsert]
    by_cases hname : name = rule
    · subst hname
      rw [if_pos rfl, if_pos rfl]
      cases hfirst : a.byRule.get? name with
      | none => simp
      | some old =>
        have hold := ha old (OrderedMap.mem_values_iff.2 ⟨name, hfirst⟩)
        cases b.byRule.get? name with
        | none => simp [hf, RuleTally.add_empty hold]
        | some new => simp [hf]
    · rw [if_neg hname, if_neg hname]

/-- An event can be counted before or after adding. -/
theorem add_count (ha : ∀ r ∈ a.byRule.values, r.interactions = 0 → r.minTime = .zero)
    (b : Tally) (event : Event) : a + b.count event = (a + b).count event := by
  cases event with
  | interaction rule took =>
    have hrules := @byRule_add_upsert a b (b.record rule took) rule (RuleTally.record · took)
      (fun s t => s.add_record t took) ha rfl
    show Tally.mk _ (a + b.record rule took).byRule _ _ _ = _
    rw [hrules]
    rfl
  | replan rule =>
    have hrules := @byRule_add_upsert a b (b.recordReplan rule) rule RuleTally.recordReplan
      RuleTally.add_recordReplan ha rfl
    show Tally.mk _ (a + b.recordReplan rule).byRule _ _ _ = _
    rw [hrules]
    rfl
  | round => rfl
  | run took =>
    obtain ⟨interactions, byRule, rounds, replanned, ⟨busy⟩⟩ := a
    obtain ⟨interactions', byRule', rounds', replanned', ⟨busy'⟩⟩ := b
    obtain ⟨nanos⟩ := took
    show Tally.mk _ _ _ _ ⟨busy + (busy' + nanos)⟩ = ⟨_, _, _, _, ⟨busy + busy' + nanos⟩⟩
    rw [Nat.add_assoc]
    rfl

/-- **Adding tallies is counting on.** -/
theorem ofHistory_append (xs ys : List Event) :
    ofHistory (xs ++ ys) = ofHistory xs + ofHistory ys := by
  induction ys using List.reverseRecOn with
  | nil => rw [List.append_nil, ofHistory_nil, add_empty]
  | append_singleton ys event ih =>
    rw [← List.append_assoc, ofHistory_concat, ofHistory_concat, ih,
      add_count (ofHistory_minTime xs)]

/-- **Tallies add up like histories.** The sum of the tallies of two histories is the tally of the
one followed by the other, with all counts and times, and the rules in the order of their first use.
If none of its durations is too long to be kept, the checked sum is the same. So adding tallies of
histories is associative, and the empty tally is neutral. -/
theorem history_add :
    (∀ xs ys, ofHistory xs + ofHistory ys = ofHistory (xs ++ ys)) ∧
    (∀ xs ys, (ofHistory xs).add? (ofHistory ys) =
      if (ofHistory (xs ++ ys)).fits then some (ofHistory (xs ++ ys)) else none) ∧
    (∀ xs ys zs, ofHistory xs + ofHistory ys + ofHistory zs =
      ofHistory xs + (ofHistory ys + ofHistory zs)) ∧
    ∀ xs, empty + ofHistory xs = ofHistory xs ∧ ofHistory xs + empty = ofHistory xs := by
  refine ⟨fun xs ys => (ofHistory_append xs ys).symm, fun xs ys => ?_, fun xs ys zs => ?_,
    fun xs => ⟨?_, add_empty _⟩⟩
  · rw [add?, ofHistory_append]
  · calc ofHistory xs + ofHistory ys + ofHistory zs
        = ofHistory (xs ++ ys ++ zs) := by rw [ofHistory_append, ofHistory_append]
      _ = ofHistory (xs ++ (ys ++ zs)) := by rw [List.append_assoc]
      _ = ofHistory xs + (ofHistory ys + ofHistory zs) := by
        rw [ofHistory_append, ofHistory_append]
  · rw [← ofHistory_nil, ← ofHistory_append, List.nil_append]

end Tally

end InteractionNets
