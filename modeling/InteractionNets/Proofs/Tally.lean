import InteractionNets.Proofs.OrderedMap
import InteractionNets.Tally

/-!
# What tallies count

Two tallies of the same interactions agree on how many there were, in all and by each rule, and on
the order in which the rules were first used. They may differ in the times, the rounds, and the
plans that were made again (`Tally.SameCounts`). A tally without its times (`Tally.untimed`) is what
does not depend on the clock.
-/

namespace InteractionNets

/-- The tally of a rule that was never used adds nothing. -/
@[simp] theorem RuleTally.empty_add (t : RuleTally) : RuleTally.empty + t = t := by
  obtain ⟨interactions, replanned, ⟨total⟩, least, ⟨greatest⟩⟩ := t
  show RuleTally.mk (0 + interactions) (0 + replanned) ⟨0 + total⟩ least ⟨max 0 greatest⟩ = _
  rw [Nat.zero_add, Nat.zero_add, Nat.zero_add, Nat.zero_max]

/-! ### Times aside -/

/-- The tally of a rule without its times. -/
def RuleTally.untimed (t : RuleTally) : RuleTally :=
  { t with totalTime := .zero, minTime := .zero, maxTime := .zero }

theorem RuleTally.untimed_record (t : RuleTally) (took : Duration) :
    (t.record took).untimed = t.untimed.record .zero := by
  have hleast : (t.untimed.record .zero).minTime = .zero := ite_self _
  show (⟨_, _, .zero, .zero, .zero⟩ : RuleTally) =
    ⟨_, _, .zero, (t.untimed.record .zero).minTime, .zero⟩
  rw [hleast]
  rfl

/-- A tally without its times. -/
def Tally.untimed (t : Tally) : Tally :=
  { t with byRule := t.byRule.mapValues RuleTally.untimed, busy := .zero }

theorem Tally.untimed_record (t : Tally) (rule : String) (took : Duration) :
    (t.record rule took).untimed = t.untimed.record rule .zero := by
  have hrule : (t.record rule took).byRule.mapValues RuleTally.untimed =
      (t.untimed.record rule .zero).byRule := by
    refine OrderedMap.mapValues_upsert RuleTally.untimed (fun old => ?_) t.byRule rule
    cases old <;> exact RuleTally.untimed_record _ took
  rw [untimed, hrule]
  rfl

theorem Tally.untimed_recordBusy (t : Tally) (took : Duration) :
    (t.recordBusy took).untimed = t.untimed := rfl

/-! ### Counts -/

namespace Tally

variable {t t' : Tally}

@[simp] theorem add_empty (t : Tally) : t + .empty = t := by
  obtain ⟨interactions, byRule, rounds, replanned, ⟨nanos⟩⟩ := t
  rfl

/-- The names of the rules in the order of first use, with the number of interactions by each. -/
def counts (t : Tally) : List (String × Nat) :=
  t.byRule.entries.map (Prod.map id RuleTally.interactions)

/-- Tallies that agree on everything but times, rounds and plans made again. -/
structure SameCounts (t t' : Tally) : Prop where
  interactions : t.interactions = t'.interactions
  counts : t.counts = t'.counts
  busy : t.busy = t'.busy

theorem SameCounts.refl (t : Tally) : SameCounts t t :=
  ⟨rfl, rfl, rfl⟩

private theorem counts_record (t : Tally) (rule : String) (took : Duration) :
    (t.record rule took).counts =
      OrderedMap.upsertEntries rule (fun old => old.getD 0 + 1) t.counts := by
  refine OrderedMap.map_upsertEntries RuleTally.interactions (fun old => ?_) rule _
  cases old <;> rfl

private theorem counts_recordReplan (t : Tally) (rule : String) :
    (t.recordReplan rule).counts =
      OrderedMap.upsertEntries rule (fun old => old.getD 0) t.counts := by
  refine OrderedMap.map_upsertEntries RuleTally.interactions (fun old => ?_) rule _
  cases old <;> rfl

theorem SameCounts.record (h : SameCounts t t') (rule : String) (took took' : Duration) :
    SameCounts (t.record rule took) (t'.record rule took') := by
  refine ⟨congrArg (· + 1) h.interactions, ?_, h.busy⟩
  rw [counts_record, counts_record, h.counts]

/-- Making a plan again does not show when the interaction is counted right after. -/
theorem SameCounts.record_recordReplan (h : SameCounts t t') (rule : String)
    (took took' : Duration) :
    SameCounts ((t.recordReplan rule).record rule took) (t'.record rule took') := by
  refine ⟨congrArg (· + 1) h.interactions, ?_, h.busy⟩
  rw [counts_record, counts_record, counts_recordReplan, OrderedMap.upsertEntries_upsertEntries,
    h.counts]
  rfl

theorem SameCounts.recordRound (h : SameCounts t t') : SameCounts t.recordRound t' :=
  ⟨h.interactions, h.counts, h.busy⟩

/-! ### Sums -/

/-- Adding entries with different keys to a map adds to each key what is listed for it. -/
private theorem get?_foldl_upsert (entries : List (String × RuleTally))
    (hnodup : (entries.map Prod.fst).Nodup) (m : OrderedMap String RuleTally) (rule : String) :
    (entries.foldl (fun m entry => m.upsert entry.1 fun old => old.getD .empty + entry.2) m).get?
      rule = (m.get? rule).merge (· + ·) (entries.lookup rule) := by
  induction entries generalizing m with
  | nil => simp
  | cons entry rest ih =>
    obtain ⟨name, t⟩ := entry
    obtain ⟨hname, hnodup⟩ := List.nodup_cons.1 hnodup
    rw [List.foldl_cons, ih hnodup, OrderedMap.get?_upsert]
    by_cases hrule : rule = name
    · subst hrule
      have hrest : rest.lookup rule = none := List.lookup_eq_none_iff.2 fun entry hentry => by
        simpa using fun heq => hname (List.mem_map.2 ⟨entry, hentry, heq.symm⟩)
      rw [if_pos rfl, hrest, List.lookup_cons, beq_self_eq_true]
      cases m.get? rule <;> simp
    · have hbeq : (rule == name) = false := by simpa using hrule
      rw [if_neg hrule, List.lookup_cons, hbeq]

/-- In a sum, the tallies of each rule are added. -/
theorem get?_byRule_add (a b : Tally) (rule : String) :
    (a + b).byRule.get? rule = (a.byRule.get? rule).merge (· + ·) (b.byRule.get? rule) :=
  get?_foldl_upsert b.byRule.entries b.byRule.keys_nodup a.byRule rule

end Tally

end InteractionNets
