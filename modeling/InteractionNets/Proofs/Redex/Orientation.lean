import InteractionNets.Proofs.Redex.Commuting
import InteractionNets.Proofs.Redex.Hosts
import InteractionNets.Proofs.Redex.Turn

/-!
# Symmetric rules do not see which agent is on which side

In a net with an active pair of two agents of one symbol, either of them may play the left side. The
record of the pair decides, that is the order of the ends of its connection. `Net.turn` exchanges
them. A rule is symmetric exactly when this makes no difference to the outcome, in any net, up to
isomorphism (`Rule.isSymmetric_iff_sameOutcome`).

For a symmetric rule, the rewritten diagrams are isomorphic because the template is isomorphic to
its mirror image. For one that is not, a host in which its redex is covered tells the two sides
apart.
-/

namespace InteractionNets

/-- Two interactions both fail, or both succeed with isomorphic nets. -/
def SameOutcome (result result' : Except Fault Unit × Net) : Prop :=
  (∃ fault fault', result.1 = .error fault ∧ result'.1 = .error fault') ∨
    (result.1 = .ok () ∧ result'.1 = .ok () ∧ result.2.Isomorphic result'.2)

namespace Net

variable {net other : Net} {rule : Rule} {pair pair' : ActivePair}

/-- Agents of the symbol of a rule between two such agents play the sides in the order of the
record. -/
theorem interact_of_symbol_eq (h : net.WellFormed) (hv : rule.Valid)
    (hself : rule.left = rule.right) (hpair : pair ∈ net.activePairs)
    (h₁ : pair.symbol₁ = rule.left) (h₂ : pair.symbol₂ = rule.left) (watch : Stopwatch) :
    net.IsRedex rule pair.ends ∧
      ((net.HasFreeWire rule pair.ends ∧
        net.interact watch rule pair = (.error (.freeWire rule.key), net)) ∨
      (¬ net.HasFreeWire rule pair.ends ∧
        ∃ after copy port, net.interact watch rule pair = (.ok (), after) ∧
          net.IsRewrite rule pair.ends after copy port)) := by
  have hsides : rule.orient pair.symbol₁ pair.symbol₂ = some (.left, .right) := by
    rw [Rule.orient, if_pos ⟨h₁, h₂.trans hself⟩]
  obtain ⟨hredex, hcases⟩ := interact_of_mem_activePairs h hv hpair hsides watch
  exact ⟨hredex.isRedex, hcases⟩

section Outcome

variable (h : net.WellFormed) (hother : other.WellFormed) (hv : rule.Valid)
  (hself : rule.left = rule.right) (hpair : pair ∈ net.activePairs)
  (hpair' : pair' ∈ other.activePairs) (h₁ : pair.symbol₁ = rule.left)
  (h₂ : pair.symbol₂ = rule.left) (h₁' : pair'.symbol₁ = rule.left)
  (h₂' : pair'.symbol₂ = rule.left) {watch watch' : Stopwatch}

include h hother hv hself hpair hpair' h₁ h₂ h₁' h₂'

/-- If the rewritten diagrams are isomorphic, then the outcomes are the same. -/
theorem sameOutcome_of_isomorphic {labels labels' : List (PortId × Nat)}
    (hl : net.IsLabelling labels) (hl' : other.IsLabelling labels')
    (hiso : (net.rewritten rule pair.ends labels).Isomorphic
      (other.rewritten rule pair'.ends labels')) :
    SameOutcome (net.interact watch rule pair) (other.interact watch' rule pair') := by
  obtain ⟨hr, hcases⟩ := interact_of_symbol_eq h hv hself hpair h₁ h₂ watch
  obtain ⟨hr', hcases'⟩ := interact_of_symbol_eq hother hv hself hpair' h₁' h₂' watch'
  have hfree_iff := hiso.hasClash_iff
  rw [hr.hasClash_rewrite_iff h hl hv, hr'.hasClash_rewrite_iff hother hl' hv] at hfree_iff
  rcases hcases with ⟨hfree, herror⟩ | ⟨hfree, after, copy, port, hok, hw⟩ <;>
    rcases hcases' with ⟨hfree', herror'⟩ | ⟨hfree', after', copy', port', hok', hw'⟩
  · rw [herror, herror']
    exact .inl ⟨_, _, rfl, rfl⟩
  · exact absurd (hfree_iff.1 hfree) hfree'
  · exact absurd (hfree_iff.2 hfree') hfree
  · obtain ⟨ls, g, hls, hg⟩ := hw.exists_isIso hr h hv hl hfree
    obtain ⟨ls', g', hls', hg'⟩ := hw'.exists_isIso hr' hother hv hl' hfree'
    rw [hok, hok']
    refine .inr ⟨rfl, rfl, hw.wellFormed.isomorphic_of_diagram hw'.wellFormed hls hls' ?_⟩
    exact (Diagram.Isomorphic.symm ⟨_, _, hg⟩).trans (hiso.trans ⟨_, _, hg'⟩)

/-- If the outcomes are the same and no port of the agents is on the interface, then the rewritten
diagrams are isomorphic. -/
theorem isomorphic_of_sameOutcome (hout : ∀ p ∈ net.interface, net.IsOutside pair.ends p)
    (hout' : ∀ p ∈ other.interface, other.IsOutside pair'.ends p)
    (hsame : SameOutcome (net.interact watch rule pair) (other.interact watch' rule pair')) :
    (net.rewritten rule pair.ends net.interface.zipIdx).Isomorphic
      (other.rewritten rule pair'.ends other.interface.zipIdx) := by
  obtain ⟨hr, ⟨hfree, -⟩ | ⟨-, after, copy, port, hok, hw⟩⟩ :=
    interact_of_symbol_eq h hv hself hpair h₁ h₂ watch
  · exact absurd hfree (hr.not_hasFreeWire_of_outside h hv hout)
  obtain ⟨hr', ⟨hfree, -⟩ | ⟨-, after', copy', port', hok', hw'⟩⟩ :=
    interact_of_symbol_eq hother hv hself hpair' h₁' h₂' watch'
  · exact absurd hfree (hr'.not_hasFreeWire_of_outside hother hv hout')
  rw [hok, hok'] at hsame
  obtain ⟨fault, fault', herror, -⟩ | ⟨-, -, hafter⟩ := hsame
  · cases herror
  obtain ⟨hinterface, g, hg⟩ := hw.exists_isIso_of_outside hr h hv net.isLabelling_zipIdx hout
  obtain ⟨hinterface', g', hg'⟩ :=
    hw'.exists_isIso_of_outside hr' hother hv other.isLabelling_zipIdx hout'
  have hdiagram := (hw.wellFormed.isomorphic_iff hw'.wellFormed).1 hafter
  rw [hinterface, hinterface'] at hdiagram
  exact Diagram.Isomorphic.trans ⟨_, _, hg⟩ (hdiagram.trans (Diagram.Isomorphic.symm ⟨_, _, hg'⟩))

end Outcome

/-- A covered redex is that of an active pair, whichever way its record goes. -/
theorem exists_covered_pair (hv : rule.Valid) (hself : rule.left = rule.right) :
    ∃ net : Net, net.WellFormed ∧ ∃ pair ∈ net.activePairs, pair.symbol₁ = rule.left ∧
      pair.symbol₂ = rule.left ∧ net.IsRedex rule pair.ends ∧
      ∃ cover, net.Covers rule pair.ends cover := by
  obtain ⟨net, agents, cover, h, hr, hc⟩ := hv.exists_covers hself
  obtain ⟨pair, hpair, hsame⟩ := exists_pair_of_meets h hr.joined
  have hcovered : net.IsRedex rule pair.ends ∧ ∃ cover, net.Covers rule pair.ends cover := by
    rcases hsame with heq | heq
    · rw [heq]
      exact ⟨hr, cover, hc⟩
    · rw [heq]
      exact ⟨hr.comp_flip hself, _, hc.comp_flip hself⟩
  obtain ⟨-, agent₁, agent₂, -, -, -, hagent₁, hagent₂, -, -, hsymbol₁, hsymbol₂⟩ :=
    Surroundings.activePair_spec h hpair
  refine ⟨net, h, pair, hpair, ?_, ?_, hcovered⟩
  · rw [← hsymbol₁]
    exact hcovered.1.symbol_eq .left hagent₁
  · rw [← hsymbol₂, hself]
    exact hcovered.1.symbol_eq .right hagent₂

end Net

open Net

/-- **A rule is symmetric exactly when it makes no difference which agent is on which side.** For a
rule between two agents of one symbol, the check says yes exactly when an active pair of that symbol
comes to the same, up to isomorphism, in every well-formed net and in the net with the ends of its
connection exchanged: both interactions fail, or both succeed with isomorphic results. -/
theorem Rule.isSymmetric_iff_sameOutcome {rule : Rule} (haccepted : rule.Accepted)
    (hself : rule.left = rule.right) :
    rule.isSymmetric ↔ ∀ net : Net, net.WellFormed → ∀ pair ∈ net.activePairs,
      pair.symbol₁ = rule.left → pair.symbol₂ = rule.left → ∀ watch watch' : Stopwatch,
        SameOutcome (net.interact watch rule pair)
          ((net.turn pair.connection).interact watch' rule pair.turn) := by
  have hv := haccepted.valid
  constructor
  · intro hsymmetric net h pair hpair h₁ h₂ watch watch'
    obtain ⟨hr, -⟩ := interact_of_symbol_eq h hv hself hpair h₁ h₂ watch
    have hd : (net.diagram net.interface.zipIdx).IsRedex rule pair.ends :=
      diagram_isRedex_iff.2 hr
    obtain ⟨p, q, hpq⟩ :=
      Diagram.exists_isIso_comp_flip hd.meets.isSome_symbol
        (isomorphic_flip_of_isSymmetric hv hsymmetric)
    refine sameOutcome_of_isomorphic h (h.turn _) hv hself hpair (turn_mem_activePairs h hpair) h₁
      h₂ h₂ h₁ net.isLabelling_zipIdx (net.turn _).isLabelling_zipIdx ⟨Sum.map id p, Sum.map id q, ?_⟩
    rw [interface_turn, rewritten, rewritten, diagram_turn, ActivePair.ends_turn]
    exact hpq
  · intro hall
    -- a covered redex gives the same from both ends, so its template is like its mirror image
    obtain ⟨net, h, pair, hpair, h₁, h₂, hr, cover, hc⟩ := exists_covered_pair hv hself
    have hout : ∀ p ∈ net.interface, net.IsOutside pair.ends p := fun p =>
      hc.outside_of_mem_interface h hr hv
    have hout' : ∀ p ∈ (net.turn pair.connection).interface,
        (net.turn pair.connection).IsOutside pair.turn.ends p := by
      rw [ActivePair.ends_turn]
      exact fun p hp side => hout p hp side.flip
    have hiso := isomorphic_of_sameOutcome h (h.turn _) hv hself hpair
      (turn_mem_activePairs h hpair) h₁ h₂ h₂ h₁ hout hout'
      (hall net h pair hpair h₁ h₂ .stopped .stopped)
    rw [interface_turn, rewritten, rewritten, diagram_turn, ActivePair.ends_turn] at hiso
    exact isSymmetric_of_isomorphic_flip hv
      (hc.isomorphic_flip h hr hv net.isLabelling_zipIdx hself hiso)

/-- The rule that leaves an eraser at one side and a passage at the other comes to different nets in
some host. -/
theorem exists_not_sameOutcome_lopsided :
    lopsided.Accepted ∧ lopsided.left = lopsided.right ∧ lopsided.isSymmetric = false ∧
      ∃ net : Net, net.WellFormed ∧ ∃ pair ∈ net.activePairs, pair.symbol₁ = lopsided.left ∧
        pair.symbol₂ = lopsided.left ∧ ∃ watch watch' : Stopwatch,
          ¬ SameOutcome (net.interact watch lopsided pair)
            ((net.turn pair.connection).interact watch' lopsided pair.turn) := by
  have hfalse : lopsided.isSymmetric = false := by decide +kernel
  refine ⟨accepted_lopsided, rfl, hfalse, ?_⟩
  by_contra hnone
  have htrue := (Rule.isSymmetric_iff_sameOutcome accepted_lopsided rfl).2
    fun net h pair hpair h₁ h₂ watch watch' => by_contra fun hdiffers =>
      hnone ⟨net, h, pair, hpair, h₁, h₂, watch, watch', hdiffers⟩
  rw [hfalse] at htrue
  cases htrue

end InteractionNets
