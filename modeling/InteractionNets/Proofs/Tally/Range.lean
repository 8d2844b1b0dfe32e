import InteractionNets.Proofs.Tally

/-!
# Tallies in range

A tally can be kept while its counts and its durations fit into their words (`Tally.inRange`).
Whatever is counted, a tally grows: no count and no total time becomes less, and no rule is
forgotten (`Tally.GrowsTo`). So when a tally is in range at the end, it was in range all along
(`Tally.GrowsTo.inRange`).
-/

namespace InteractionNets

/-- What is shorter than a duration that can be kept can be kept. -/
theorem Duration.fits_of_le {d d' : Duration} (h : d ≤ d') (h' : d'.fits) : d.fits := by
  have hseconds : d.seconds ≤ d'.seconds := Nat.div_le_div_right h
  simp only [fits, decide_eq_true_eq] at h' ⊢
  exact Nat.lt_of_le_of_lt hseconds h'

/-! ### The tally of one rule -/

namespace RuleTally

variable {r s t : RuleTally}

/-- The counts and the total time of the first tally of a rule are at most those of the second. -/
structure GrowsTo (r s : RuleTally) : Prop where
  interactions : r.interactions ≤ s.interactions
  replanned : r.replanned ≤ s.replanned
  totalTime : r.totalTime ≤ s.totalTime

theorem GrowsTo.refl (r : RuleTally) : r.GrowsTo r :=
  ⟨Nat.le_refl _, Nat.le_refl _, Nat.le_refl r.totalTime.nanos⟩

theorem GrowsTo.trans (h : r.GrowsTo s) (h' : s.GrowsTo t) : r.GrowsTo t where
  interactions := Nat.le_trans h.interactions h'.interactions
  replanned := Nat.le_trans h.replanned h'.replanned
  totalTime := by
    have htotal : r.totalTime.nanos ≤ s.totalTime.nanos := h.totalTime
    exact Nat.le_trans htotal h'.totalTime

theorem growsTo_add (r s : RuleTally) : r.GrowsTo (r + s) :=
  ⟨Nat.le_add_right _ _, Nat.le_add_right _ _, Nat.le_add_right r.totalTime.nanos _⟩

theorem growsTo_record (r : RuleTally) (took : Duration) : r.GrowsTo (r.record took) :=
  ⟨Nat.le_succ _, Nat.le_refl _, Nat.le_add_right r.totalTime.nanos _⟩

theorem growsTo_recordReplan (r : RuleTally) : r.GrowsTo r.recordReplan :=
  ⟨Nat.le_refl _, Nat.le_succ _, Nat.le_refl r.totalTime.nanos⟩

theorem inRange_iff : r.inRange ↔
    r.interactions < Word.count64 ∧ r.replanned < Word.count64 ∧ r.totalTime.fits := by
  simp only [inRange, Bool.and_eq_true, decide_eq_true_eq, and_assoc]

theorem GrowsTo.inRange (h : r.GrowsTo s) (hs : s.inRange) : r.inRange := by
  obtain ⟨hinteractions, hreplanned, htotal⟩ := inRange_iff.1 hs
  exact inRange_iff.2 ⟨Nat.lt_of_le_of_lt h.interactions hinteractions,
    Nat.lt_of_le_of_lt h.replanned hreplanned, Duration.fits_of_le h.totalTime htotal⟩

end RuleTally

/-! ### The whole tally -/

namespace Tally

variable {t u v : Tally}

/-- The counts and durations of the first tally are at most those of the second, and so are those of
every rule that the first one knows. -/
structure GrowsTo (t u : Tally) : Prop where
  interactions : t.interactions ≤ u.interactions
  rounds : t.rounds ≤ u.rounds
  replanned : t.replanned ≤ u.replanned
  busy : t.busy ≤ u.busy
  byRule : ∀ {rule r}, t.byRule.get? rule = some r →
    ∃ s, u.byRule.get? rule = some s ∧ r.GrowsTo s

theorem GrowsTo.refl (t : Tally) : t.GrowsTo t :=
  ⟨Nat.le_refl _, Nat.le_refl _, Nat.le_refl _, Nat.le_refl t.busy.nanos,
    fun hr => ⟨_, hr, .refl _⟩⟩

theorem GrowsTo.trans (h : t.GrowsTo u) (h' : u.GrowsTo v) : t.GrowsTo v where
  interactions := Nat.le_trans h.interactions h'.interactions
  rounds := Nat.le_trans h.rounds h'.rounds
  replanned := Nat.le_trans h.replanned h'.replanned
  busy := by
    have hbusy : t.busy.nanos ≤ u.busy.nanos := h.busy
    exact Nat.le_trans hbusy h'.busy
  byRule := by
    intro rule r hr
    obtain ⟨s, hs, hgrows⟩ := h.byRule hr
    obtain ⟨last, hlast, hgrows'⟩ := h'.byRule hs
    exact ⟨last, hlast, hgrows.trans hgrows'⟩

/-- The tallies of the rules grow when that of one rule does. -/
private theorem growsTo_upsert {f : RuleTally → RuleTally} (hf : ∀ r : RuleTally, r.GrowsTo (f r))
    (m : OrderedMap String RuleTally) (used : String) {rule : String} {r : RuleTally}
    (hr : m.get? rule = some r) :
    ∃ s, (m.upsert used fun old => f (old.getD .empty)).get? rule = some s ∧ r.GrowsTo s := by
  rw [OrderedMap.get?_upsert]
  split
  · next heq =>
    subst heq
    rw [hr]
    exact ⟨f r, rfl, hf r⟩
  · exact ⟨r, hr, .refl r⟩

theorem growsTo_add (t u : Tally) : t.GrowsTo (t + u) where
  interactions := Nat.le_add_right _ _
  rounds := Nat.le_add_right _ _
  replanned := Nat.le_add_right _ _
  busy := Nat.le_add_right t.busy.nanos _
  byRule := by
    intro rule r hr
    rw [get?_byRule_add, hr]
    cases u.byRule.get? rule with
    | none => exact ⟨r, rfl, .refl r⟩
    | some s => exact ⟨r + s, rfl, r.growsTo_add s⟩

theorem growsTo_record (t : Tally) (rule : String) (took : Duration) :
    t.GrowsTo (t.record rule took) :=
  ⟨Nat.le_succ _, Nat.le_refl _, Nat.le_refl _, Nat.le_refl t.busy.nanos,
    growsTo_upsert (fun r => r.growsTo_record took) t.byRule rule⟩

theorem growsTo_recordReplan (t : Tally) (rule : String) : t.GrowsTo (t.recordReplan rule) :=
  ⟨Nat.le_refl _, Nat.le_refl _, Nat.le_succ _, Nat.le_refl t.busy.nanos,
    growsTo_upsert (fun r => r.growsTo_recordReplan) t.byRule rule⟩

theorem growsTo_recordRound (t : Tally) : t.GrowsTo t.recordRound :=
  ⟨Nat.le_refl _, Nat.le_succ _, Nat.le_refl _, Nat.le_refl t.busy.nanos,
    fun hr => ⟨_, hr, .refl _⟩⟩

theorem growsTo_recordBusy (t : Tally) (took : Duration) : t.GrowsTo (t.recordBusy took) :=
  ⟨Nat.le_refl _, Nat.le_refl _, Nat.le_refl _, Nat.le_add_right t.busy.nanos _,
    fun hr => ⟨_, hr, .refl _⟩⟩

theorem inRange_iff : t.inRange ↔ t.interactions < Word.count64 ∧ t.rounds < Word.count64 ∧
    t.replanned < Word.count64 ∧ t.busy.fits ∧ ∀ r ∈ t.byRule.values, r.inRange := by
  simp only [inRange, Bool.and_eq_true, decide_eq_true_eq, List.all_eq_true, and_assoc]

theorem fits_of_inRange (h : t.inRange) : t.fits := by
  obtain ⟨-, -, -, hbusy, hrules⟩ := inRange_iff.1 h
  rw [fits, hbusy, Bool.true_and, List.all_eq_true]
  exact fun r hr => (RuleTally.inRange_iff.1 (hrules r hr)).2.2

/-- **A tally that has grown to one in range is in range.** -/
theorem GrowsTo.inRange (h : t.GrowsTo u) (hu : u.inRange) : t.inRange := by
  obtain ⟨hinteractions, hrounds, hreplanned, hbusy, hrules⟩ := inRange_iff.1 hu
  refine inRange_iff.2 ⟨Nat.lt_of_le_of_lt h.interactions hinteractions,
    Nat.lt_of_le_of_lt h.rounds hrounds, Nat.lt_of_le_of_lt h.replanned hreplanned,
    Duration.fits_of_le h.busy hbusy, fun r hr => ?_⟩
  obtain ⟨rule, hrule⟩ := OrderedMap.mem_values_iff.1 hr
  obtain ⟨s, hs, hgrows⟩ := h.byRule hrule
  exact hgrows.inRange (hrules s (OrderedMap.mem_values_iff.2 ⟨rule, hs⟩))

end Tally

end InteractionNets
