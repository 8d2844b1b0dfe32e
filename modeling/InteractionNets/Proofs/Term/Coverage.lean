import InteractionNets.Proofs.Term.Rounds
import InteractionNets.Proofs.Text.Words

/-!
# What is written of a net

Every agent of a net is written exactly once, and so are its connections, the ports on the interface
and the hidden ports (`Net.equations_exact`).
-/

namespace InteractionNets

namespace Net

variable {N : Type} {net : Net} {p q : PortId}

/-- The name of a connection occurs twice in the cells of a net, and that of any other port once. -/
theorem IsNaming.count_eq [DecidableEq N] {name : PortId → N} (hname : net.IsNaming name)
    (h : net.WellFormed) {agents : List Agent} (hagents : net.agentList.Perm agents)
    (hp : (net.port? p).isSome) : (wiresOf (agents.map (Cell.of name))).count (name p) =
      if (net.peer? p).isSome then 2 else 1 := by
  have hnodup := h.nodup_flatMap_ports hagents
  have hmem : ∀ q, q ∈ (agents.flatMap Agent.ports).filter (name · == name p) ↔
      q = p ∨ net.Joined q p := by
    intro q
    rw [List.mem_filter, h.mem_ports_iff hagents, beq_iff_eq]
    constructor
    · rintro ⟨hq, heq⟩
      exact (hname hq hp).1 heq
    · rintro (rfl | hqp)
      · exact ⟨hp, rfl⟩
      · exact ⟨h.isSome_of_joined hqp, (hname (h.isSome_of_joined hqp) hp).2 (.inr hqp)⟩
  have hlength : (wiresOf (agents.map (Cell.of name))).count (name p) =
      ((agents.flatMap Agent.ports).filter (name · == name p)).length := by
    rw [wiresOf_map_of, List.count, List.countP_map, List.countP_eq_length_filter]
    rfl
  rw [hlength]
  cases hpeer : net.peer? p with
  | some q =>
    have hpq := h.peer?_eq_some_iff.1 hpeer
    have hperm : ((agents.flatMap Agent.ports).filter (name · == name p)).Perm [p, q] := by
      have hpair : [p, q].Nodup := by simpa using h.joined_ne hpq
      refine (List.perm_ext_iff_of_nodup (hnodup.filter _) hpair).2 fun r => ?_
      rw [hmem, List.mem_pair]
      refine or_congr_right ⟨fun hrp => h.joined_unique hrp.symm hpq, ?_⟩
      rintro rfl
      exact hpq.symm
    exact hperm.length_eq
  | none =>
    have hperm : ((agents.flatMap Agent.ports).filter (name · == name p)).Perm [p] := by
      refine (List.perm_ext_iff_of_nodup (hnodup.filter _) (List.nodup_singleton p)).2 fun r => ?_
      rw [hmem, List.mem_singleton]
      refine or_iff_left fun hrp => ?_
      rw [h.peer?_eq_some_iff.2 hrp.symm] at hpeer
      cases hpeer
    exact hperm.length_eq

/-- What is written for a free port: its place on the interface, or that it is hidden. -/
theorem free_mark {mark : PortId → Mark} (h : net.WellFormed)
    (hsuits : ∀ p, (net.port? p).isSome → net.Suits p (mark p)) (hp : net.IsFree p) :
    (∀ i, net.interface[i]? = some p → mark p = .free i) ∧
      (p ∉ net.interface → ∃ path, mark p = .hidden path) := by
  obtain ⟨hlive, hloose⟩ := h.isFree_iff.1 hp
  have hsuit := hsuits p hlive
  generalize mark p = m at hsuit ⊢
  cases m with
  | named _ | nested _ | facing _ =>
    obtain ⟨q, hpq, -⟩ := hsuit
    exact absurd hpq (hloose q)
  | free j =>
    refine ⟨fun i hi => ?_, fun hnot => absurd (List.mem_of_getElem? hsuit) hnot⟩
    have hlt := (List.getElem?_eq_some_iff.1 hi).1
    rw [(List.getElem?_inj hlt h.interface_nodup).1 (hi.trans hsuit.symm)]
  | hidden path =>
    exact ⟨fun i hi => absurd (List.mem_of_getElem? hi) hsuit.2, fun _ => ⟨path, rfl⟩⟩

/-- An active pair with an agent below its left side and a wire between its sides, an agent whose
ports are connected to each other, and a port that is hidden. -/
def tangle : Net :=
  ((restrictInterface [9]).run ((connectPairs [(0, 3), (1, 6), (2, 4), (7, 8)]).run
    ((((((single ⟨"F", 3⟩).newAgent ⟨"G", 3⟩).2.newAgent ⟨"Z", 1⟩).2.newAgent ⟨"L", 2⟩).2.newAgent
      ⟨"H", 1⟩).2)).2).2

theorem wellFormed_tangle : tangle.WellFormed :=
  (((((((wellFormed_single _).newAgent _).newAgent _).newAgent _).newAgent _).run_connectPairs
    [(0, 3), (1, 6), (2, 4), (7, 8)]).run_restrictInterface [9])

example : tangle.text 0 = "F(Z, a) ~ G(a, #0)\n_ = H\nb = L(b)\n" := by decide +kernel

end Net

end InteractionNets
