import InteractionNets.Proofs.Net.Edits
import InteractionNets.Proofs.Redex.Commit
import InteractionNets.Systems.Combinators

/-!
# Interactions follow the paths of the rule

An interaction is refused, and leaves the net alone, exactly when a path through the redex joins two
places on the interface. Otherwise it replaces the redex as `Net.IsRewrite` says.
-/

namespace InteractionNets

open Net Combinators

/-- A path through a redex that joins two places on the interface, with no agent in between. -/
def Net.HasFreeWire (net : Net) (rule : Rule) (agents : Side → AgentId) : Prop :=
  ∃ p q, (net.turns rule agents).Path (.free p) (.free q)

variable {net : Net} {rule : Rule} {pair : ActivePair} {s : Surroundings}

namespace Plan

theorem any_isFreeWire_eq_false {links : List (PathEnd × PathEnd)} :
    links.any isFreeWire = false ↔ ∀ p q, (.free p, .free q) ∉ links := by
  rw [List.any_eq_false]
  constructor
  · exact fun hnone p q hlink => hnone _ hlink rfl
  · rintro hnone ⟨start, stop⟩ hlink
    cases start <;> cases stop <;> first | exact absurd hlink (hnone _ _) | simp [isFreeWire]

/-- A plan is refused exactly when a path joins two places on the interface. -/
theorem make_of_describes (h : net.WellFormed) (hv : rule.Valid) {sides : Side × Side}
    (hs : s.Describes net rule pair sides) :
    (net.HasFreeWire rule (pair.agentOn sides) ∧ make s rule = .error (.freeWire rule.key)) ∨
      (¬ net.HasFreeWire rule (pair.agentOn sides) ∧ ∃ links, make s rule = .ok ⟨s, links⟩ ∧
        (s.edges rule).Links s.slotList links ∧ ∀ p q, (.free p, .free q) ∉ links) := by
  obtain ⟨links, hlinks, hmake⟩ := make_spec hs.fits
  have hm := matches_of_describes h hv hs hlinks
  by_cases hfree : links.any isFreeWire
  · refine .inl ⟨?_, by rw [hmake, if_pos hfree]⟩
    obtain ⟨⟨start, stop⟩, hlink, hwire⟩ := List.any_eq_true.1 hfree
    cases start <;> cases stop <;> first | exact ⟨_, _, hm.path hlink⟩ | cases hwire
  · have hnone := any_isFreeWire_eq_false.1 (Bool.not_eq_true _ ▸ hfree)
    refine .inr ⟨?_, links, by rw [hmake, if_neg hfree], hlinks, hnone⟩
    rintro ⟨p, q, hpath⟩
    exact (hm.mem (by simp) hpath).elim (hnone p q) (hnone q p)

/-- A plan made from what is read of a net replaces a redex of that net. -/
theorem isRewrite_of_read (h : net.WellFormed) (hv : rule.Valid)
    (hread : Surroundings.read net pair rule = .ok s) {plan : Plan}
    (hmake : make s rule = .ok plan) (took : Duration) :
    ∃ sides copy port, net.IsRedexOf rule pair sides ∧
      ¬ net.HasFreeWire rule (pair.agentOn sides) ∧
      net.IsRewrite rule (pair.agentOn sides) (plan.commit rule took net) copy port ∧
      net.FreshPorts rule port := by
  obtain ⟨sides, hs⟩ := Surroundings.describes_of_read h hv hread
  rcases make_of_describes h hv hs with ⟨-, herror⟩ | ⟨hnone, links, hok, hlinks, hfree⟩
  · rw [herror] at hmake
    cases hmake
  · obtain rfl := Except.ok.inj (hok.symm.trans hmake)
    obtain ⟨copy, port, hrewrite⟩ := isRewrite_commit h hv hs hlinks hfree took
    exact ⟨sides, copy, port, hs.isRedexOf, hnone, hrewrite⟩

end Plan

namespace Net

/-- An interaction is refused without touching the net, or it replaces a redex. -/
theorem interact_cases (h : net.WellFormed) (hv : rule.Valid) (watch : Stopwatch)
    (pair : ActivePair) :
    (∃ fault, net.interact watch rule pair = (.error fault, net)) ∨
      ∃ after sides copy port, net.interact watch rule pair = (.ok (), after) ∧
        net.IsRedexOf rule pair sides ∧ ¬ net.HasFreeWire rule (pair.agentOn sides) ∧
        net.IsRewrite rule (pair.agentOn sides) after copy port ∧ net.FreshPorts rule port := by
  cases hplan : net.planFor rule pair with
  | error fault => exact .inl ⟨fault, by simp only [interact, hplan]⟩
  | ok plan =>
    refine .inr ⟨plan.commit rule (watch.interaction net pair) net, ?_⟩
    rw [planFor] at hplan
    split at hplan
    · rename_i hfor
      split at hplan
      · cases hplan
      · rename_i s hread
        obtain ⟨sides, copy, port, hredex, hnone, hrewrite⟩ :=
          Plan.isRewrite_of_read h hv hread hplan (watch.interaction net pair)
        refine ⟨sides, copy, port, ?_, hredex, hnone, hrewrite⟩
        simp only [interact, planFor, hfor, hread, hplan, if_true]
    · cases hplan

/-- An active pair interacts by a rule that is for it, unless a path joins two places on the
interface. -/
theorem interact_of_mem_activePairs (h : net.WellFormed) (hv : rule.Valid)
    (hpair : pair ∈ net.activePairs) {sides : Side × Side}
    (hsides : rule.orient pair.symbol₁ pair.symbol₂ = some sides) (watch : Stopwatch) :
    net.IsRedexOf rule pair sides ∧
      ((net.HasFreeWire rule (pair.agentOn sides) ∧
        net.interact watch rule pair = (.error (.freeWire rule.key), net)) ∨
      (¬ net.HasFreeWire rule (pair.agentOn sides) ∧
        ∃ after copy port, net.interact watch rule pair = (.ok (), after) ∧
          net.IsRewrite rule (pair.agentOn sides) after copy port)) := by
  have hfor : rule.isFor pair := by
    rw [Rule.isFor, hsides]
    rfl
  obtain ⟨s, hread⟩ := Surroundings.exists_read_of_mem_activePairs h hpair hfor
  obtain ⟨sides', hs⟩ := Surroundings.describes_of_read h hv hread
  obtain rfl : sides' = sides := by
    obtain ⟨-, agent₁, agent₂, -, -, -, h₁, h₂, -, -, hsymbol₁, hsymbol₂⟩ :=
      Surroundings.activePair_spec h hpair
    obtain ⟨agent₁', agent₂', h₁', h₂', horient⟩ := hs.isRedexOf.orient
    obtain rfl := Option.some.inj (h₁.symm.trans h₁')
    obtain rfl := Option.some.inj (h₂.symm.trans h₂')
    rw [hsymbol₁, hsymbol₂, hsides] at horient
    exact (Option.some.inj horient).symm
  refine ⟨hs.isRedexOf, ?_⟩
  rcases Plan.make_of_describes h hv hs with ⟨hwire, herror⟩ | ⟨hnone, links, hok, hlinks, hfree⟩
  · refine .inl ⟨hwire, ?_⟩
    simp only [interact, planFor, hfor, hread, herror, if_true]
  · obtain ⟨copy, port, hrewrite, -⟩ :=
      Plan.isRewrite_commit h hv hs hlinks hfree (watch.interaction net pair)
    refine .inr ⟨hnone, _, copy, port, ?_, hrewrite⟩
    simp only [interact, planFor, hfor, hread, hok, if_true]

/-- **An interaction computes the path semantics of its rule.** In a well-formed net, an active pair
is refused with `freeWire`, and the net left alone, exactly when a path through the redex joins two
places on the interface; otherwise the redex is replaced as the paths say. -/
theorem interact_pathSemantics (h : net.WellFormed) {left right : Symbol}
    {replacement : Replacement} (hnet : replacement.net.WellFormed)
    (hrule : Rule.ofReplacement left right replacement = .ok rule)
    (hpair : pair ∈ net.activePairs) {sides : Side × Side}
    (hsides : rule.orient pair.symbol₁ pair.symbol₂ = some sides) (watch : Stopwatch) :
    ((∃ fault, net.interact watch rule pair = (.error fault, net)) ↔
        net.HasFreeWire rule (pair.agentOn sides)) ∧
      (net.HasFreeWire rule (pair.agentOn sides) →
        net.interact watch rule pair = (.error (.freeWire rule.key), net)) ∧
      (¬ net.HasFreeWire rule (pair.agentOn sides) →
        ∃ after copy port, net.interact watch rule pair = (.ok (), after) ∧
          net.IsRewrite rule (pair.agentOn sides) after copy port) := by
  have hv := Rule.valid_of_ofReplacement hnet hrule
  obtain ⟨-, hwire | hnone⟩ := interact_of_mem_activePairs h hv hpair hsides watch
  · obtain ⟨hwire, herror⟩ := hwire
    exact ⟨⟨fun _ => hwire, fun _ => ⟨_, herror⟩⟩, fun _ => herror,
      fun hnone => absurd hwire hnone⟩
  · obtain ⟨hnone, after, copy, port, hok, hrewrite⟩ := hnone
    refine ⟨⟨?_, fun hwire => absurd hwire hnone⟩, fun hwire => absurd hwire hnone,
      fun _ => ⟨after, copy, port, hok, hrewrite⟩⟩
    rintro ⟨fault, herror⟩
    rw [hok] at herror
    cases herror

end Net

/-- The rule by which two constructors leave their wires, crossed. -/
def crossing : Rule :=
  ⟨gamma, gamma, (Replacement.empty.wire (.left 0) (.right 1)).wire (.left 1) (.right 0)⟩

theorem accepted_crossing : crossing.Accepted :=
  ⟨gamma, gamma, crossing.replacement, wellFormed_empty, rfl⟩

/-- The rule by which an eraser goes on into both auxiliary ports of a constructor. -/
def spreading : Rule :=
  ⟨gamma, epsilon, ((Replacement.ofNet ((single epsilon).newAgent epsilon).2).bind
    (.left 0) 0).bind (.left 1) 1⟩

/-- A constructor that faces an eraser. One of its auxiliary ports is connected to that of another
constructor, the other one is exposed. -/
def chained : Net :=
  ((connectPairs [(0, 3), (1, 5)]).run (((single gamma).newAgent epsilon).2.newAgent gamma).2).2

/-- The pair of two constructors that face each other. -/
def facingGammas : ActivePair :=
  ⟨0, 0, 1, 0, 3, gamma, gamma⟩

/-- The pair of a constructor and the eraser that it faces. -/
def atEraser : ActivePair :=
  ⟨0, 0, 1, 0, 3, gamma, epsilon⟩

/-- Two constructors that face each other would leave two wires between places on the interface;
so they are refused. An eraser goes on into a constructor, to the port that is connected there and
to the place on the interface. -/
theorem interact_pathSemantics_gamma :
    ((facing gamma gamma).HasFreeWire crossing (facingGammas.agentOn (.left, .right)) ∧
      (facing gamma gamma).interact .stopped crossing facingGammas =
        (.error (.freeWire crossing.key), facing gamma gamma)) ∧
      ¬ chained.HasFreeWire spreading (atEraser.agentOn (.left, .right)) ∧
      ∃ after copy port, chained.interact .stopped spreading atEraser = (.ok (), after) ∧
        chained.IsRewrite spreading (atEraser.agentOn (.left, .right)) after copy port := by
  have hwell : chained.WellFormed :=
    (((wellFormed_single gamma).newAgent epsilon).newAgent gamma).run_connectPairs _
  have hcrossing : Rule.ofReplacement gamma gamma crossing.replacement = .ok crossing := rfl
  have hspreading : Rule.ofReplacement gamma epsilon spreading.replacement = .ok spreading := by
    decide +kernel
  have hpair : facingGammas ∈ (facing gamma gamma).activePairs := by decide
  have hpair' : atEraser ∈ chained.activePairs := by decide +kernel
  obtain ⟨hrefused, herror, -⟩ := interact_pathSemantics (wellFormed_facing gamma gamma)
    wellFormed_empty hcrossing hpair rfl .stopped
  obtain ⟨hrefused', -, hrewritten⟩ := interact_pathSemantics hwell
    ((wellFormed_single epsilon).newAgent epsilon) hspreading hpair' rfl .stopped
  have hwire := hrefused.1 ⟨_, rfl⟩
  have hnone : ¬ chained.HasFreeWire spreading (atEraser.agentOn (.left, .right)) := by
    intro hwire'
    obtain ⟨fault, herror'⟩ := hrefused'.2 hwire'
    have hok : (chained.interact .stopped spreading atEraser).1 = .ok () := by decide +kernel
    rw [herror'] at hok
    cases hok
  exact ⟨⟨hwire, herror hwire⟩, hnone, hrewritten hnone⟩

end InteractionNets
