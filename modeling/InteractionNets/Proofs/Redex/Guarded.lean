import InteractionNets.Proofs.Net.Guarded
import InteractionNets.Proofs.Redex.Structure

/-!
# Guarded interactions

Carrying a plan out counts on the ports to be linked, and on the copies of the replacement net's
ports. A plan that is carried out while it is fresh finds them all, so an interaction stops for good
only when the tally that counts it is out of range (`Net.safe_interact?`).
-/

namespace InteractionNets

open Net GuardedEdit

variable {net : Net} {rule : Rule} {pair : ActivePair}

namespace Plan

/-- Link the ends, which must be live, of the paths that come to a port at both ends. -/
def linkPaths? (copies : PortMap) : List (PathEnd × PathEnd) → Net → Option Net
  | [], net => some net
  | (start, stop) :: rest, net =>
    match resolve copies start, resolve copies stop with
    | some a, some b => (net.link? a b).bind fun (_, net) => linkPaths? copies rest net
    | _, _ => linkPaths? copies rest net

theorem linkPaths?_eq {copies : PortMap} {links : List (PathEnd × PathEnd)}
    (hlinks : ∀ e ∈ pairEnds links, ∀ p, resolve copies e = some p → (net.port? p).isSome) :
    linkPaths? copies links net = some (linkPaths copies links net) := by
  induction links generalizing net with
  | nil => rfl
  | cons link rest ih =>
    obtain ⟨start, stop⟩ := link
    rw [pairEnds_cons, List.forall_mem_cons, List.forall_mem_cons] at hlinks
    obtain ⟨hstart, hstop, hrest⟩ := hlinks
    rw [linkPaths?, linkPaths]
    cases ha : resolve copies start with
    | none => exact ih hrest
    | some a =>
      cases hb : resolve copies stop with
      | none => exact ih hrest
      | some b =>
        simp only [link?_eq (hstart a ha) (hstop b hb), Option.bind_some]
        exact ih fun e he p hp => isSome_port?_link (hrest e he p hp)

/-- Carry a fresh plan out. -/
def commit? (plan : Plan) (rule : Rule) (took : Duration) : GuardedEdit Unit := fun net =>
  let pair := plan.surroundings.pair
  ((detach net pair).inject? rule.replacement.net false).bind fun (copies, net) =>
    (linkPaths? copies plan.links net).bind fun net =>
      let net := { net with
        interface := substitute (substitutes copies plan.links) net.interface }
      let net := (net.dropAgent pair.agent₁).dropAgent pair.agent₂
      checkTally (.ok (), { net with tally := net.tally.record rule.label took })

theorem wellFormed_commit (h : net.WellFormed) (hv : rule.Valid) {plan : Plan}
    (hread : Surroundings.read net plan.surroundings.pair rule = .ok plan.surroundings)
    (hmake : make plan.surroundings rule = .ok plan) (took : Duration) :
    (plan.commit rule took net).WellFormed := by
  obtain ⟨sides, copy, port, -, -, hrewrite, -⟩ := isRewrite_of_read h hv hread hmake took
  exact hrewrite.wellFormed

/-- A plan can be carried out while it is fresh, unless the interaction is counted beyond the
range. -/
theorem safe_commit? (h : net.WellFormed) (hv : rule.Valid) {plan : Plan}
    (hread : Surroundings.read net plan.surroundings.pair rule = .ok plan.surroundings)
    (hmake : make plan.surroundings rule = .ok plan) (took : Duration) :
    SafeOutcome net ((plan.commit? rule took).run net) (.ok (), plan.commit rule took net) := by
  obtain ⟨sides, hs⟩ := Surroundings.describes_of_read h hv hread
  rcases make_of_describes h hv hs with ⟨-, herror⟩ | ⟨-, links, hok, hlinks, -⟩
  · rw [herror] at hmake
    cases hmake
  · have hplan : plan.links = links :=
      congrArg Plan.links (Except.ok.inj (hmake.symm.trans hok))
    have hlive := fun e he p => isSome_port?_of_resolve h hv hs hlinks (e := e) he (p := p)
    rw [← hplan] at hlive
    have hinjected := safe_inject? (wellFormed_detach h hs) hv.wellFormed false
    refine (hinjected.of_same_tally (tally_detach net plan.surroundings.pair)).bind ?_
    simp only [linkPaths?_eq hlive, Option.bind_some]
    refine .of_checkTally (wellFormed_commit h hv hread hmake took) ?_
    have hlinked := tally_linkPaths
      ((detach net plan.surroundings.pair).inject rule.replacement.net false).2
      ((detach net plan.surroundings.pair).inject rule.replacement.net false).1 plan.links
    show Tally.GrowsTo _ (Tally.record (linkPaths _ plan.links _).tally rule.label took)
    rw [hlinked]
    exact Tally.growsTo_record _ rule.label took

/-- A plan is made from the surroundings it records. -/
theorem surroundings_of_make {s : Surroundings} {plan : Plan} (hmake : make s rule = .ok plan) :
    plan.surroundings = s := by
  unfold make at hmake
  split at hmake
  · cases hmake
  · split at hmake
    · cases hmake
    · split at hmake
      · cases hmake
      · rw [← Except.ok.inj hmake]

theorem pair_of_read {s : Surroundings} (hread : Surroundings.read net pair rule = .ok s) :
    s.pair = pair := by
  unfold Surroundings.read at hread
  split at hread
  · cases hread
  · split at hread
    · cases hread
    · split at hread
      · cases hread
      · cases hread
      · split at hread
        · cases hread
        · split at hread
          · cases hread
          · rw [← Except.ok.inj hread]

end Plan

namespace Net

theorem planFor_eq_ok {plan : Plan} (hplan : net.planFor rule pair = .ok plan) :
    Surroundings.read net plan.surroundings.pair rule = .ok plan.surroundings ∧
      Plan.make plan.surroundings rule = .ok plan := by
  rw [planFor] at hplan
  split at hplan
  · split at hplan
    · cases hplan
    · rename_i s hread
      obtain rfl := Plan.surroundings_of_make hplan
      rw [Plan.pair_of_read hread]
      exact ⟨hread, hplan⟩
  · cases hplan

/-- Let an active pair interact by a rule. -/
def interact? (watch : Stopwatch) (rule : Rule) (pair : ActivePair) : GuardedEdit Unit := fun net =>
  match net.planFor rule pair with
  | .error fault => some (.error fault, net)
  | .ok plan => plan.commit? rule (watch.interaction net pair) net

theorem safe_interact? (hv : rule.Valid) (watch : Stopwatch) (pair : ActivePair) :
    (interact? watch rule pair).Safe (interact watch rule pair) := by
  intro net h
  simp only [GuardedEdit.run, Edit.run, interact?, interact]
  cases hplan : net.planFor rule pair with
  | error fault => exact .of_tally_eq h rfl
  | ok plan =>
    obtain ⟨hread, hmake⟩ := planFor_eq_ok hplan
    exact Plan.safe_commit? h hv hread hmake (watch.interaction net pair)

end Net

end InteractionNets
