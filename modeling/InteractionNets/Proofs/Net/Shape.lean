import Mathlib.Data.List.Perm.Basic
import InteractionNets.Proofs.Net.Codes
import InteractionNets.Proofs.Net.Walk

/-!
# What shapes are made of

The shape of a net is made of the codes of disjoint blocks of agents: the block that can be reached
from the boundary, and the closed components (`Net.WellFormed.withBoundary_spec`). The code of a
component does not depend on the agent that it is found from, so going through the agents in another
order only changes the order of the codes (`Net.WellFormed.closedCodes_perm`).
-/

namespace InteractionNets

namespace Net

variable {net : Net} {boundary : List PortId}

/-! ### Blocks -/

/-- A list of blocks that no connection leaves and that divide the agents of a net among them. -/
structure IsDivision (net : Net) (blocks : List (List AgentId)) : Prop where
  closed : ∀ block ∈ blocks, ∀ a ∈ block, ∀ b, net.Linked a b → b ∈ block
  nodup : blocks.flatten.Nodup
  mem_iff : ∀ a, a ∈ blocks.flatten ↔ (net.agent? a).isSome

theorem IsDivision.perm {blocks blocks' : List (List AgentId)} (h : net.IsDivision blocks)
    (hperm : blocks.Perm blocks') : net.IsDivision blocks' := by
  refine ⟨fun block hblock => h.closed block (hperm.mem_iff.2 hblock), ?_, fun a => ?_⟩
  · exact hperm.flatten.nodup_iff.1 h.nodup
  · rw [← h.mem_iff, hperm.flatten.mem_iff]

theorem closedCodes_cons_of_mem {agent : AgentId} {rest seen : List AgentId} (h : agent ∈ seen) :
    net.closedCodes boundary (agent :: rest) seen = net.closedCodes boundary rest seen := by
  rw [closedCodes, if_pos (List.contains_iff_mem.2 h)]

theorem closedCodes_cons_of_not_mem {agent : AgentId} {rest seen : List AgentId}
    (h : agent ∉ seen) :
    net.closedCodes boundary (agent :: rest) seen =
      net.componentCode boundary (net.walk boundary [agent]).2 ::
        net.closedCodes boundary rest ((net.walk boundary [agent]).2 ++ seen) := by
  rw [closedCodes, if_neg (mt List.contains_iff_mem.1 h)]

namespace WellFormed

variable (h : net.WellFormed)

include h

/-- A walk from an agent finds the agents that it is connected with, each once, and writes down
their code. -/
theorem walk_singleton (boundary : List PortId) {agent : AgentId}
    (hlive : (net.agent? agent).isSome) :
    (net.walk boundary [agent]).1 = net.blockCode boundary (net.walk boundary [agent]).2 ∧
      (net.walk boundary [agent]).2.Nodup ∧
      ∀ a, a ∈ (net.walk boundary [agent]).2 ↔ Relation.ReflTransGen net.Linked agent a := by
  have hone : ∀ a ∈ [agent], (net.agent? a).isSome := by
    intro a ha
    rwa [List.mem_singleton.1 ha]
  obtain ⟨result, hwalk, hnumbers, hclosed⟩ :=
    h.walk_spec boundary (List.nodup_singleton agent) hone
  rw [hwalk]
  refine ⟨rfl, hnumbers.nodup (List.nodup_singleton agent), fun a => ⟨fun ha => ?_, fun ha => ?_⟩⟩
  · refine hnumbers.least (fun hab hlinked => hab.tail hlinked) (fun b hb => ?_) a ha
    rw [List.mem_singleton.1 hb]
  · induction ha with
    | refl => exact hnumbers.initial.subset (List.mem_singleton_self agent)
    | tail _ hlinked ih => exact hclosed _ ih _ hlinked

theorem isSome_of_mem_walk {agent a : AgentId} (hlive : (net.agent? agent).isSome)
    (ha : a ∈ (net.walk boundary [agent]).2) : (net.agent? a).isSome := by
  rcases ((h.walk_singleton boundary hlive).2.2 a).1 ha with _ | ⟨-, hlinked⟩
  · exact hlive
  · exact isSome_agent?_of_linked hlinked

/-- Being found is symmetric, as connections are. -/
theorem mem_walk_comm {agent other : AgentId} (hlive : (net.agent? agent).isSome)
    (hlive' : (net.agent? other).isSome) :
    other ∈ (net.walk boundary [agent]).2 ↔ agent ∈ (net.walk boundary [other]).2 := by
  rw [(h.walk_singleton boundary hlive).2.2, (h.walk_singleton boundary hlive').2.2]
  have hlinked : Std.Symm net.Linked := ⟨fun _ _ => Linked.symm⟩
  exact ⟨Std.Symm.symm _ _, Std.Symm.symm _ _⟩

/-- What no connection leaves contains an agent when it contains one that is found from it. -/
theorem mem_of_mem_walk {agent a : AgentId} {seen : List AgentId}
    (hlive : (net.agent? agent).isSome) (ha : a ∈ (net.walk boundary [agent]).2)
    (hclosed : ∀ a ∈ seen, ∀ b, net.Linked a b → b ∈ seen) (hseen : a ∈ seen) : agent ∈ seen := by
  rw [(h.walk_singleton boundary hlive).2.2] at ha
  induction ha with
  | refl => exact hseen
  | tail _ hlinked ih => exact ih (hclosed _ hseen _ hlinked.symm)

/-- A walk from an agent that was found finds the same agents. -/
theorem mem_walk_congr {agent start : AgentId} (hlive : (net.agent? agent).isSome)
    (hstart : start ∈ (net.walk boundary [agent]).2) (a : AgentId) :
    a ∈ (net.walk boundary [start]).2 ↔ a ∈ (net.walk boundary [agent]).2 := by
  have hlive' := h.isSome_of_mem_walk hlive hstart
  have hback := (h.mem_walk_comm hlive hlive').1 hstart
  rw [(h.walk_singleton boundary hlive).2.2] at hstart ⊢
  rw [(h.walk_singleton boundary hlive').2.2] at hback ⊢
  exact ⟨hstart.trans, hback.trans⟩

/-- The component of an agent has the code of a block with the same agents, which no connection
leaves. -/
private theorem exists_block (boundary : List PortId) {agent : AgentId}
    (hlive : (net.agent? agent).isSome) :
    ∃ block, net.componentCode boundary (net.walk boundary [agent]).2 =
        net.blockCode boundary block ∧ block.Nodup ∧
      (∀ a, a ∈ block ↔ a ∈ (net.walk boundary [agent]).2) ∧ agent ∈ block ∧
      ∀ a ∈ block, ∀ b, net.Linked a b → b ∈ block := by
  have hreach := (h.walk_singleton boundary hlive).2.2
  have hagent : agent ∈ (net.walk boundary [agent]).2 := (hreach agent).2 .refl
  have hne :
      (net.walk boundary [agent]).2.map (fun start => (net.walk boundary [start]).1) ≠ [] := by
    rw [Ne, List.map_eq_nil_iff]
    exact List.ne_nil_of_mem hagent
  obtain ⟨start, hstart, hcode⟩ := List.mem_map.1 (Code.least_mem hne)
  obtain ⟨hblock, hnodup, -⟩ := h.walk_singleton boundary (h.isSome_of_mem_walk hlive hstart)
  have hsame : ∀ a, a ∈ (net.walk boundary [start]).2 ↔ a ∈ (net.walk boundary [agent]).2 :=
    h.mem_walk_congr hlive hstart
  refine ⟨(net.walk boundary [start]).2, ?_, hnodup, hsame, (hsame agent).2 hagent,
    fun a ha b hab => ?_⟩
  · rw [componentCode, ← hcode, hblock]
  · exact (hsame b).2 ((hreach b).2 (((hreach a).1 ((hsame a).1 ha)).tail hab))

/-- The closed codes are those of disjoint blocks that contain the agents that were not seen. -/
private theorem closedCodes_spec (boundary : List PortId) {agents seen : List AgentId}
    (hagents : ∀ a ∈ agents, (net.agent? a).isSome)
    (hseen : ∀ a ∈ seen, ∀ b, net.Linked a b → b ∈ seen) :
    ∃ blocks : List (List AgentId),
      net.closedCodes boundary agents seen = blocks.map (net.blockCode boundary) ∧
      (∀ block ∈ blocks, ∀ a ∈ block, ∀ b, net.Linked a b → b ∈ block) ∧
      blocks.flatten.Nodup ∧ (∀ a ∈ blocks.flatten, (net.agent? a).isSome ∧ a ∉ seen) ∧
      ∀ a ∈ agents, a ∈ seen ∨ a ∈ blocks.flatten := by
  induction agents generalizing seen with
  | nil => exact ⟨[], rfl, by simp, List.nodup_nil, by simp, by simp⟩
  | cons agent rest ih =>
    have hrest : ∀ a ∈ rest, (net.agent? a).isSome := fun a ha =>
      hagents a (List.mem_cons_of_mem _ ha)
    by_cases hmem : agent ∈ seen
    · obtain ⟨blocks, hcodes, hclosed, hnodup, hlive, hcover⟩ := ih hrest hseen
      refine ⟨blocks, ?_, hclosed, hnodup, hlive, fun a ha => ?_⟩
      · rw [closedCodes_cons_of_mem hmem, hcodes]
      · rcases List.mem_cons.1 ha with rfl | ha
        · exact .inl hmem
        · exact hcover a ha
    · have hlive := hagents agent List.mem_cons_self
      obtain ⟨block, hcode, hnodup, hsame, hagent, hclosed⟩ := h.exists_block boundary hlive
      -- a block that met what was seen would have the agent there
      have hapart : ∀ a ∈ block, a ∉ seen :=
        fun a ha hseen' => hmem (h.mem_of_mem_walk hlive ((hsame a).1 ha) hseen hseen')
      have hseen' : ∀ a ∈ (net.walk boundary [agent]).2 ++ seen, ∀ b, net.Linked a b →
          b ∈ (net.walk boundary [agent]).2 ++ seen := by
        intro a ha b hab
        rcases List.mem_append.1 ha with ha | ha
        · exact List.mem_append_left _ ((hsame b).1 (hclosed a ((hsame a).2 ha) b hab))
        · exact List.mem_append_right _ (hseen a ha b hab)
      obtain ⟨blocks, hcodes, hclosed', hnodup', hlive', hcover⟩ := ih hrest hseen'
      refine ⟨block :: blocks, ?_, ?_, ?_, ?_, ?_⟩
      · rw [closedCodes_cons_of_not_mem hmem, hcode, hcodes, List.map_cons]
      · rintro block' hblock'
        rcases List.mem_cons.1 hblock' with rfl | hblock'
        · exact hclosed
        · exact hclosed' block' hblock'
      · rw [List.flatten_cons]
        refine hnodup.append hnodup' fun a ha ha' => (hlive' a ha').2 ?_
        exact List.mem_append_left _ ((hsame a).1 ha)
      · intro a ha
        rw [List.flatten_cons] at ha
        rcases List.mem_append.1 ha with ha | ha
        · exact ⟨h.isSome_of_mem_walk hlive ((hsame a).1 ha), hapart a ha⟩
        · exact ⟨(hlive' a ha).1, fun hmem' => (hlive' a ha).2 (List.mem_append_right _ hmem')⟩
      · intro a ha
        rw [List.flatten_cons, List.mem_append]
        rcases List.mem_cons.1 ha with rfl | ha
        · exact .inr (.inl hagent)
        · rcases hcover a ha with ha | ha
          · rcases List.mem_append.1 ha with ha | ha
            · exact .inr (.inl ((hsame a).2 ha))
            · exact .inl ha
          · exact .inr (.inr ha)

/-- **What a shape is made of.** It has the code of the block that can be reached from the boundary
and, sorted, the codes of other blocks. -/
theorem withBoundary_spec (hboundary : ∀ p ∈ boundary, (net.port? p).isSome) :
    ∃ anchored blocks, Shape.withBoundary net boundary =
        ⟨boundary.map (net.boundaryToken anchored) ++ net.blockCode boundary anchored,
          (blocks.map (net.blockCode boundary)).mergeSort Code.le⟩ ∧
      net.IsDivision (anchored :: blocks) ∧
      ∀ p ∈ boundary, ∀ data, net.port? p = some data → data.agent ∈ anchored := by
  obtain ⟨first, hwalk, -, hnodup, hmem, hfirst⟩ := walkBoundary_spec [] hboundary
  have hagent : ∀ {p data}, net.port? p = some data → (net.agent? data.agent).isSome :=
    fun hp => isSome_agent?_of_getElem? (h.agent_of_port hp)
  have hlive : ∀ a ∈ first, (net.agent? a).isSome := by
    intro a ha
    rcases hmem a ha with ha | ⟨p, -, data, hp, rfl⟩
    · cases ha
    · exact hagent hp
  -- the block at the boundary is gone through first, and the others are taken from the rest
  obtain ⟨anchored, hwalk', hnumbers, hclosed⟩ :=
    h.walk_spec boundary (hnodup List.nodup_nil) hlive
  have hids : ∀ a ∈ net.agentList.map Agent.id, (net.agent? a).isSome := by
    intro a ha
    obtain ⟨data, hdata, rfl⟩ := List.mem_map.1 ha
    rw [h.mem_agentList_iff.1 hdata]
    rfl
  obtain ⟨blocks, hcodes, hclosed', hnodup', hlive', hcover⟩ :=
    h.closedCodes_spec boundary hids hclosed
  have htokens : boundary.map (net.boundaryToken first) =
      boundary.map (net.boundaryToken anchored) := by
    refine List.map_congr_left fun p hp => ?_
    obtain ⟨data, hdata⟩ := Option.isSome_iff_exists.1 (hboundary p hp)
    simp only [boundaryToken, hdata,
      idxOf_eq_of_initial hnumbers.initial (hfirst p hp data hdata)]
  refine ⟨anchored, blocks, ?_, ⟨?_, ?_, fun a => ⟨fun ha => ?_, fun ha => ?_⟩⟩, ?_⟩
  · simp only [Shape.withBoundary, hwalk, hwalk', hcodes, htokens]
  · intro block hblock
    rcases List.mem_cons.1 hblock with rfl | hblock
    · exact hclosed
    · exact hclosed' block hblock
  · rw [List.flatten_cons]
    exact (hnumbers.nodup (hnodup List.nodup_nil)).append hnodup'
      fun a ha ha' => (hlive' a ha').2 ha
  · rw [List.flatten_cons] at ha
    rcases List.mem_append.1 ha with ha | ha
    · exact isSome_of_numbers hnumbers hlive a ha
    · exact (hlive' a ha).1
  · rw [List.flatten_cons, List.mem_append]
    obtain ⟨data, hdata⟩ := Option.isSome_iff_exists.1 ha
    refine hcover a (List.mem_map.2 ⟨data, h.mem_agentList_iff.2 ?_, h.agent_id hdata⟩)
    rwa [h.agent_id hdata]
  · exact fun p hp data hdata => hnumbers.initial.subset (hfirst p hp data hdata)

end WellFormed

/-! ### The order in which agents are gone through -/

/-- The code of a component depends on nothing but which agents are in it. -/
theorem componentCode_congr {component component' : List AgentId}
    (hsame : ∀ a, a ∈ component ↔ a ∈ component') :
    net.componentCode boundary component = net.componentCode boundary component' := by
  refine Code.least_congr fun code => ?_
  simp only [List.mem_map, hsame]

/-- It only matters which agents were seen. -/
theorem closedCodes_congr {agents seen seen' : List AgentId} (hsame : ∀ a, a ∈ seen ↔ a ∈ seen') :
    net.closedCodes boundary agents seen = net.closedCodes boundary agents seen' := by
  induction agents generalizing seen seen' with
  | nil => rfl
  | cons agent rest ih =>
    by_cases hseen : agent ∈ seen
    · rw [closedCodes_cons_of_mem hseen, closedCodes_cons_of_mem ((hsame agent).1 hseen), ih hsame]
    · rw [closedCodes_cons_of_not_mem hseen,
        closedCodes_cons_of_not_mem (mt (hsame agent).2 hseen)]
      refine congrArg _ (ih fun a => ?_)
      rw [List.mem_append, List.mem_append, hsame]

/-- Two agents in the other order: when one is found from the other, the two find one component. -/
private theorem WellFormed.closedCodes_swap (h : net.WellFormed) {a b : AgentId}
    {rest seen : List AgentId} (ha : (net.agent? a).isSome) (hb : (net.agent? b).isSome) :
    (net.closedCodes boundary (a :: b :: rest) seen).Perm
      (net.closedCodes boundary (b :: a :: rest) seen) := by
  by_cases hseen : a ∈ seen
  · rw [closedCodes_cons_of_mem hseen]
    by_cases hseen' : b ∈ seen
    · rw [closedCodes_cons_of_mem hseen', closedCodes_cons_of_mem hseen',
        closedCodes_cons_of_mem hseen]
    · rw [closedCodes_cons_of_not_mem hseen', closedCodes_cons_of_not_mem hseen',
        closedCodes_cons_of_mem (List.mem_append_right _ hseen)]
  · rw [closedCodes_cons_of_not_mem hseen]
    by_cases hseen' : b ∈ seen
    · rw [closedCodes_cons_of_mem hseen', closedCodes_cons_of_not_mem hseen,
        closedCodes_cons_of_mem (List.mem_append_right _ hseen')]
    · rw [closedCodes_cons_of_not_mem hseen']
      by_cases hfound : b ∈ (net.walk boundary [a]).2
      · have hfound' := (h.mem_walk_comm ha hb).1 hfound
        have hsame : ∀ x, x ∈ (net.walk boundary [b]).2 ↔ x ∈ (net.walk boundary [a]).2 :=
          h.mem_walk_congr ha hfound
        rw [closedCodes_cons_of_mem (List.mem_append_left _ hfound),
          closedCodes_cons_of_mem (List.mem_append_left _ hfound'), componentCode_congr hsame,
          closedCodes_congr fun x => ?_]
        rw [List.mem_append, List.mem_append, hsame]
      · have hfound' := mt (h.mem_walk_comm ha hb).2 hfound
        have hnot : b ∉ (net.walk boundary [a]).2 ++ seen := by simp [hfound, hseen']
        have hnot' : a ∉ (net.walk boundary [b]).2 ++ seen := by simp [hfound', hseen]
        rw [closedCodes_cons_of_not_mem hnot, closedCodes_cons_of_not_mem hnot',
          closedCodes_congr fun x => ?_]
        · exact .swap _ _ _
        · simp only [List.mem_append]
          exact or_left_comm

/-- The order in which agents are gone through only changes the order of the codes. -/
theorem WellFormed.closedCodes_perm (h : net.WellFormed) (boundary : List PortId)
    {agents agents' : List AgentId} (hperm : agents.Perm agents') (seen : List AgentId)
    (hlive : ∀ a ∈ agents, (net.agent? a).isSome) :
    (net.closedCodes boundary agents seen).Perm (net.closedCodes boundary agents' seen) := by
  induction hperm generalizing seen with
  | nil => exact .refl _
  | @cons agent rest rest' _ ih =>
    have hrest : ∀ a ∈ rest, (net.agent? a).isSome := fun a ha =>
      hlive a (List.mem_cons_of_mem _ ha)
    by_cases hseen : agent ∈ seen
    · rw [closedCodes_cons_of_mem hseen, closedCodes_cons_of_mem hseen]
      exact ih seen hrest
    · rw [closedCodes_cons_of_not_mem hseen, closedCodes_cons_of_not_mem hseen]
      exact (ih _ hrest).cons _
  | swap a b rest =>
    exact h.closedCodes_swap (hlive b (by simp)) (hlive a (by simp))
  | trans hfirst _ ih ih' =>
    exact (ih seen hlive).trans (ih' seen fun a ha => hlive a (hfirst.mem_iff.2 ha))

end Net

end InteractionNets
