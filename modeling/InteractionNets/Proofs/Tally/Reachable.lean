import InteractionNets.Proofs.Tally.Counting

/-!
# The tallies of reachable nets

Operations lead from tallies of histories to tallies of histories: wiring leaves a tally alone,
reducing counts on, and adding the tallies of nets that are put together is counting one history
after the other. A rule is made with the tally of its net cleared, so that an interaction counts
nothing but itself. Hence the tally of a reachable net is the tally of a history
(`Net.Reachable.isHistory_tally`), and it adds up (`Net.Reachable.tally_addsUp`).
-/

namespace InteractionNets

open Net

variable {net : Net}

/-- Operations lead from tallies of histories to tallies of histories. -/
theorem Operation.isHistory_perform (operation : Operation) (h : net.tally.IsHistory)
    (hnets : ∀ other ∈ operation.nets, other.tally.IsHistory)
    (hempty : ∀ rule ∈ operation.rules, rule.replacement.net.tally = .empty) :
    (operation.perform net).tally.IsHistory := by
  have hkept : ∀ {α} {edit : Edit α}, edit.KeepsTally → (edit.run net).2.tally.IsHistory :=
    fun hedit => (hedit net).symm ▸ h
  have hreduced : ∀ {r : Reducer}, (∀ rule ∈ r.rules.rules, rule.replacement.net.tally = .empty) →
      ∀ call, (r.leave call net).tally.IsHistory :=
    fun hempty call => h.trans ((Reducer.isLedger_enters hempty).leave call net).leadsTo
  have hadded : ∀ {other after : Net}, other ∈ operation.nets →
      after.tally = net.tally + other.tally → after.tally.IsHistory :=
    fun hother hafter => hafter.symm ▸ h.add (hnets _ hother)
  have hcomposed : ∀ {other : Net} {result : Except Fault Net}, other ∈ operation.nets →
      (∀ {after}, result = .ok after → after.tally = net.tally + other.tally) →
      (result.toOption.getD net).tally.IsHistory := by
    intro other result hother hresult
    cases result with
    | error fault => exact h
    | ok after => exact hadded hother (hresult rfl)
  cases operation with
  | newAgent symbol => exact h
  | connect a b => exact hkept (followsWiring_tally.connect a b)
  | disconnect c => exact hkept (followsWiring_tally.disconnect c)
  | connectInterface left right =>
    exact hkept (followsWiring_tally.connectInterface left right)
  | restrictInterface ports =>
    exact hkept (followsWiring_tally.bind (followsWiring_tally.guard _) fun _ _ => rfl)
  | extendInterface ports =>
    exact hkept (followsWiring_tally.bind (followsWiring_tally.guard _) fun _ _ => rfl)
  | removeAgent agent => exact hkept (keepsTally_removeAgent agent)
  | inject other expose => exact hadded (List.mem_singleton_self _) (tally_inject net other expose)
  | parallel right => exact hadded (List.mem_singleton_self _) (tally_inject net right true)
  | tensor right => exact hadded (List.mem_singleton_self _) (tally_inject net right true)
  | sequential right => exact hcomposed (List.mem_singleton_self _) tally_sequential
  | compose right mapping => exact hcomposed (List.mem_singleton_self _) tally_compose
  | interact watch rule pair =>
    exact h.trans (countsOn_interact (hempty rule (List.mem_singleton_self _)) watch pair net)
  | step r => exact hreduced hempty .step
  | normalize r limit => exact hreduced hempty (.normalize limit)
  | reduce r fuel => exact hreduced hempty (.reduce fuel)
  | round r limit => exact hreduced hempty (.round limit)
  | normalizeInRounds r limit => exact hreduced hempty (.normalizeInRounds limit)
  | reduceInRounds r fuel => exact hreduced hempty (.reduceInRounds fuel)

/-- A rule is made with the tally of its net cleared. -/
theorem Rule.tally_of_ofReplacement {left right : Symbol} {replacement : Replacement} {rule : Rule}
    (h : ofReplacement left right replacement = .ok rule) :
    rule.replacement.net.tally = .empty := by
  obtain ⟨-, rfl⟩ := ofReplacement_eq_ok_iff.1 h
  rfl

/-- **The tally of a reachable net is the tally of a history.** -/
theorem Net.Reachable.isHistory_tally (h : net.Reachable) : net.tally.IsHistory :=
  @Net.Reachable.rec (fun net _ => net.tally.IsHistory)
    (fun rule _ => rule.replacement.net.tally = .empty)
    Tally.isHistory_empty (fun _ => Tally.isHistory_empty)
    (fun operation _ _ _ hnet hnets hrules => operation.isHistory_perform hnet hnets hrules)
    (fun _ hrule _ => Rule.tally_of_ofReplacement hrule) net h

/-- **The tally of a reachable net adds up.** Its totals are the sums over its rules, and the total
time of each rule lies between the number of its interactions times the least and times the greatest
time. So the average time lies between the least and the greatest one, as long as the number of
interactions has 32 bits. -/
theorem Net.Reachable.tally_addsUp (h : net.Reachable) :
    net.tally.AddsUp ∧ ∀ r ∈ net.tally.byRule.values, 0 < r.interactions →
      r.interactions < Word.count32 → r.minTime ≤ r.average ∧ r.average ≤ r.maxTime := by
  have hadds := h.isHistory_tally.addsUp
  exact ⟨hadds, fun r hr => (hadds.bounded r hr).average_between⟩

/-- A round on two pairs of passages that are joined, in which every interaction takes the given
time: the second pair is refused when its plan, which is no longer fresh, is made again. -/
def brokenOff (took : Duration) : Net :=
  (Operation.round ⟨Reducer.straight, ⟨fun _ _ => took, fun _ _ => .zero⟩⟩ none).perform passages

theorem reachable_brokenOff (took : Duration) : (brokenOff took).Reachable := by
  have hpassages : passages = (Operation.connectInterface [0, 4, 1] [2, 6, 7]).perform
      ((((single passage).newAgent passage).2.newAgent passage).2.newAgent passage).2 := by
    decide +kernel
  have hagent : ∀ {net : Net}, net.Reachable → (net.newAgent passage).2.Reachable := fun h =>
    .perform (.newAgent passage) h (by simp [Operation.nets]) (by simp [Operation.rules])
  have hreachable : passages.Reachable := by
    rw [hpassages]
    exact .perform _ (hagent (hagent (hagent (.single passage)))) (by simp [Operation.nets])
      (by simp [Operation.rules])
  refine .perform _ hreachable (by simp [Operation.nets]) fun rule hrule => ?_
  obtain rfl : rule = ⟨passage, passage, Replacement.empty.wire (.left 0) (.right 0)⟩ :=
    List.mem_singleton.1 hrule
  exact @Rule.Made.ofReplacement passage passage (Replacement.empty.wire (.left 0) (.right 0)) _
    .empty rfl

/-- Two such nets side by side, with different times: each of them counts an interaction and a plan
that was made again. -/
theorem tally_addsUp_brokenOff :
    ∃ net : Net, net.Reachable ∧ net.tally.byRule.values = [⟨2, 2, ⟨7⟩, ⟨2⟩, ⟨5⟩⟩] ∧
      net.tally.AddsUp ∧ (⟨2⟩ : Duration) ≤ ⟨7 / 2⟩ ∧ (⟨7 / 2⟩ : Duration) ≤ ⟨5⟩ := by
  have hvalues :
      ((Operation.parallel (brokenOff ⟨5⟩)).perform (brokenOff ⟨2⟩)).tally.byRule.values =
        [⟨2, 2, ⟨7⟩, ⟨2⟩, ⟨5⟩⟩] := by decide +kernel
  have hreachable : ((Operation.parallel (brokenOff ⟨5⟩)).perform (brokenOff ⟨2⟩)).Reachable :=
    .perform _ (reachable_brokenOff ⟨2⟩) (by simp [Operation.nets, reachable_brokenOff])
      (by simp [Operation.rules])
  obtain ⟨hadds, haverage⟩ := Net.Reachable.tally_addsUp hreachable
  have hbetween := haverage ⟨2, 2, ⟨7⟩, ⟨2⟩, ⟨5⟩⟩ (hvalues ▸ List.mem_singleton_self _) (by decide)
    (by decide)
  exact ⟨_, hreachable, hvalues, hadds, hbetween⟩

end InteractionNets
