import InteractionNets.Net.Compose
import InteractionNets.Proofs.Diagram.Beside
import InteractionNets.Proofs.Net.Edits
import InteractionNets.Proofs.Net.Isomorphic

/-!
# Nets side by side

The diagram of two nets side by side consists of the diagrams of the two, if the places of the left
interface are labelled before those of the right one (`Net.exists_isIso_parallel`). So nets side by
side are determined up to isomorphism by what they are isomorphic to (`Net.Isomorphic.parallel`).
The diagram of a net is a matching, and so is that of two nets with different labels.
-/

namespace InteractionNets

namespace Net

variable {net other net' other' : Net} {labels labels' : List (PortId × Nat)}

/-! ### Matchings -/

/-- A place that something is joined to is labelled. -/
theorem exists_label_of_joined {i : Nat} {x : Point Nat AgentId}
    (h : (net.diagram labels).joined (.place i) x) : ∃ p, (p, i) ∈ labels := by
  obtain _ | ⟨hi, -⟩ | _ | ⟨hnone, -⟩ := h
  · exact ⟨_, hi⟩
  · exact hnone.elim

/-- Points of a net are joined to one point at most. -/
theorem WellFormed.isMatching_diagram (h : net.WellFormed) (hl : net.IsLabelling labels) :
    (net.diagram labels).IsMatching := by
  have hport : ∀ {a b : AgentId} {j k : Nat} {p : PortId}, (net.portsOf a)[j]? = some p →
      (net.portsOf b)[k]? = some p → (.port a j : Point Nat AgentId) = .port b k := by
    intro a b j k p hp hp'
    obtain ⟨rfl, rfl⟩ := h.port_unique hp hp'
    rfl
  have hplace : ∀ {a : AgentId} {j i : Nat} {p p' q : PortId}, (net.portsOf a)[j]? = some p →
      (net.portsOf a)[j]? = some p' → net.Joined p q → (p', i) ∉ labels := by
    intro a j i p p' q hp hp' hpq hi
    obtain rfl := Option.some.inj (hp.symm.trans hp')
    exact h.not_mem_interface_of_joined hpq (hl.mem_interface hi)
  refine ⟨fun {x y z} hxy hxz => ?_, fun {x y} hxy => ?_⟩
  · cases hxy with
    | joined hp hq hpq =>
      cases hxz with
      | joined hp' hr hpr =>
        obtain rfl := Option.some.inj (hp.symm.trans hp')
        obtain rfl := h.joined_unique hpq hpr
        exact hport hq hr
      | exposed' hi hp' => exact absurd hi (hplace hp hp' hpq)
    | exposed hi hp =>
      cases hxz with
      | exposed hj hr =>
        obtain rfl := hl.port_unique hi hj
        exact hport hp hr
      | wired hnone _ => exact hnone.elim
    | exposed' hi hp =>
      cases hxz with
      | joined hp' hr hpr => exact absurd hi (hplace hp' hp hpr)
      | exposed' hj hp' =>
        obtain rfl := Option.some.inj (hp.symm.trans hp')
        exact congrArg Point.place (hl.label_unique h hi hj)
    | wired hnone _ => exact hnone.elim
  · rintro rfl
    exact h.not_diagram_joined_self hxy

/-! ### The diagram of two nets -/

/-- Points stay joined where the ports of a net, and its labels, are found again in another net. -/
private theorem diagram_joined_of_map {f : AgentId → AgentId} {m : PortId → PortId}
    (hports : ∀ {a : AgentId} {k : Nat} {p : PortId}, (net.portsOf a)[k]? = some p →
      (other.portsOf (f a))[k]? = some (m p))
    (hjoined : ∀ {p q}, net.Joined p q → other.Joined (m p) (m q))
    (hlabels : ∀ {p i}, (p, i) ∈ labels → (m p, i) ∈ labels') {x y : Point Nat AgentId}
    (h : (net.diagram labels).joined x y) :
    (other.diagram labels').joined (x.map f) (y.map f) := by
  cases h with
  | joined hp hq hpq => exact .joined (hports hp) (hports hq) (hjoined hpq)
  | exposed hi hp => exact .exposed (hlabels hi) (hports hp)
  | exposed' hi hp => exact .exposed' (hlabels hi) (hports hp)
  | wired hnone _ => exact hnone.elim

theorem isSome_symbol_beside_inl {a : AgentId} :
    (((net.diagram labels).beside (other.diagram labels')).symbol (.inl a)).isSome ↔
      (net.agent? a).isSome := by
  show ((net.diagram labels).symbol a).isSome ↔ _
  exact isSome_symbol_draw

theorem isSome_symbol_beside_inr {b : AgentId} :
    (((net.diagram labels).beside (other.diagram labels')).symbol (.inr b)).isSome ↔
      (other.agent? b).isSome := by
  show ((other.diagram labels').symbol b).isSome ↔ _
  exact isSome_symbol_draw

section Copy

variable {host after : Net} {copy : AgentId → AgentId} {port : PortId → PortId}

/-- The labels of a host and of the copies of labelled ports. -/
def bothLabels (labels labels' : List (PortId × Nat)) (port : PortId → PortId) :
    List (PortId × Nat) :=
  labels ++ labels'.map (Prod.map port id)

theorem mem_bothLabels {p : PortId} {i : Nat} : (p, i) ∈ bothLabels labels labels' port ↔
    (p, i) ∈ labels ∨ ∃ p₀, (p₀, i) ∈ labels' ∧ port p₀ = p := by
  simp [bothLabels, List.mem_append]

variable (hcopy : IsCopy other host after copy port) (h : host.WellFormed)
  (hother : other.WellFormed) (hl : host.IsLabelling labels) (hl' : other.IsLabelling labels')

include hcopy

/-- The ports of an agent are those it has in the host, or copies of those it has in the other
net. -/
private theorem IsCopy.port_cases {c : AgentId ⊕ AgentId} {k : Nat} {p : PortId}
    (hc : (((host.diagram labels).beside (other.diagram labels')).symbol c).isSome)
    (hp : (after.portsOf (Sum.elim id copy c))[k]? = some p) :
    (∃ a, c = .inl a ∧ (host.portsOf a)[k]? = some p) ∨
      ∃ b p₀, c = .inr b ∧ (other.portsOf b)[k]? = some p₀ ∧ port p₀ = p := by
  rcases c with a | b
  · rw [Sum.elim_inl, id, hcopy.portsOf_old (isSome_symbol_beside_inl.1 hc)] at hp
    exact .inl ⟨a, rfl, hp⟩
  · rw [Sum.elim_inr, hcopy.portsOf_copy (isSome_symbol_beside_inr.1 hc), List.getElem?_map,
      Option.map_eq_some_iff] at hp
    obtain ⟨p₀, hp₀, heq⟩ := hp
    exact .inr ⟨b, p₀, rfl, hp₀, heq⟩

include h hother

private theorem IsCopy.joined_ports {c d : AgentId ⊕ AgentId} {j k : Nat} {p q : PortId}
    (hc : (((host.diagram labels).beside (other.diagram labels')).symbol c).isSome)
    (hd : (((host.diagram labels).beside (other.diagram labels')).symbol d).isSome)
    (hp : (after.portsOf (Sum.elim id copy c))[j]? = some p)
    (hq : (after.portsOf (Sum.elim id copy d))[k]? = some q) (hpq : after.Joined p q) :
    ((host.diagram labels).beside (other.diagram labels')).joined (.port c j) (.port d k) := by
  rcases hcopy.port_cases hc hp with ⟨a, rfl, ha⟩ | ⟨a, p₀, rfl, ha, rfl⟩
  · have hlive : (host.port? p).isSome := h.port?_isSome_iff.2 ⟨a, j, ha⟩
    have hpq' := (hcopy.joined_old_iff hother h hlive).1 hpq
    rcases hcopy.port_cases hd hq with ⟨b, rfl, hb⟩ | ⟨b, q₀, rfl, hb, rfl⟩
    · exact .inl ⟨_, _, .joined ha hb hpq', rfl, rfl⟩
    · have hgone := hcopy.port_fresh hother h (hother.port?_isSome_iff.2 ⟨b, k, hb⟩)
      have hlive' := h.isSome_of_joined hpq'.symm
      rw [hgone] at hlive'
      cases hlive'
  · obtain ⟨q₁, hpq', rfl⟩ :=
      (hcopy.joined_copy_iff hother h (hother.port?_isSome_iff.2 ⟨a, j, ha⟩)).1 hpq
    have hlive := hother.isSome_of_joined hpq'.symm
    rcases hcopy.port_cases hd hq with ⟨b, rfl, hb⟩ | ⟨b, q₀, rfl, hb, heq⟩
    · have hlive' : (host.port? (port q₁)).isSome := h.port?_isSome_iff.2 ⟨b, k, hb⟩
      rw [hcopy.port_fresh hother h hlive] at hlive'
      cases hlive'
    · obtain rfl := hcopy.port_injective hother (hother.port?_isSome_iff.2 ⟨b, k, hb⟩) hlive heq
      exact .inr ⟨_, _, .joined ha hb hpq', rfl, rfl⟩

include hl hl'

private theorem IsCopy.joined_place {c : AgentId ⊕ AgentId} {k i : Nat} {p : PortId}
    (hc : (((host.diagram labels).beside (other.diagram labels')).symbol c).isSome)
    (hp : (after.portsOf (Sum.elim id copy c))[k]? = some p)
    (hi : (p, i) ∈ bothLabels labels labels' port) :
    ((host.diagram labels).beside (other.diagram labels')).joined (.place i) (.port c k) := by
  rcases hcopy.port_cases hc hp with ⟨a, rfl, ha⟩ | ⟨b, p₀, rfl, hb, rfl⟩
  · rcases mem_bothLabels.1 hi with hi' | ⟨p₁, hi', rfl⟩
    · exact .inl ⟨_, _, .exposed hi' ha, rfl, rfl⟩
    · have hgone := hcopy.port_fresh hother h
        (hother.isSome_of_mem_interface (hl'.mem_interface hi'))
      have hlive : (host.port? (port p₁)).isSome := h.port?_isSome_iff.2 ⟨a, k, ha⟩
      rw [hgone] at hlive
      cases hlive
  · have hlive : (other.port? p₀).isSome := hother.port?_isSome_iff.2 ⟨b, k, hb⟩
    rcases mem_bothLabels.1 hi with hi' | ⟨p₁, hi', heq⟩
    · have hlive' := h.isSome_of_mem_interface (hl.mem_interface hi')
      rw [hcopy.port_fresh hother h hlive] at hlive'
      cases hlive'
    · obtain rfl := hcopy.port_injective hother
        (hother.isSome_of_mem_interface (hl'.mem_interface hi')) hlive heq
      exact .inr ⟨_, _, .exposed hi' hb, rfl, rfl⟩

/-- The diagram of a host and a copy consists of the diagrams of the host and of what is copied. -/
theorem IsCopy.exists_isIso : ∃ g, ((host.diagram labels).beside (other.diagram labels')).IsIso
    (after.diagram (bothLabels labels labels' port)) (Sum.elim id copy) g := by
  refine Diagram.exists_isIso (fun {c} hc => ?_) (fun {c d} hc hd heq => ?_) (fun {b} hb => ?_)
    fun {x y} hx hy => ⟨fun hxy => ?_, fun hxy => ?_⟩
  · rcases c with a | b
    · obtain ⟨data, hdata⟩ := Option.isSome_iff_exists.1 (isSome_symbol_beside_inl.1 hc)
      show (after.agent? a).map _ = (host.agent? a).map _
      rw [hcopy.agent_old_of_some hdata, hdata]
    · obtain ⟨data, hdata⟩ := Option.isSome_iff_exists.1 (isSome_symbol_beside_inr.1 hc)
      show (after.agent? (copy b)).map _ = (other.agent? b).map _
      rw [hcopy.agent_copy hdata, hdata]
      rfl
  · -- a copy has an id that was vacant in the host
    have hapart : ∀ {a b}, (host.agent? a).isSome → (other.agent? b).isSome → a ≠ copy b :=
      fun ha hb => agent_ne_of_eq_none ha (hcopy.fresh hb)
    rcases c with a | a <;> rcases d with b | b
    · exact congrArg Sum.inl heq
    · exact absurd heq (hapart (isSome_symbol_beside_inl.1 hc) (isSome_symbol_beside_inr.1 hd))
    · exact absurd heq.symm (hapart (isSome_symbol_beside_inl.1 hd) (isSome_symbol_beside_inr.1 hc))
    · exact congrArg Sum.inr
        (hcopy.injective (isSome_symbol_beside_inr.1 hc) (isSome_symbol_beside_inr.1 hd) heq)
  · have hlive := isSome_symbol_draw.1 hb
    by_cases hcopied : ∃ a, (other.agent? a).isSome ∧ b = copy a
    · obtain ⟨a, ha, rfl⟩ := hcopied
      exact ⟨.inr a, isSome_symbol_beside_inr.2 ha, rfl⟩
    · rw [hcopy.agent_old fun a ha heq => hcopied ⟨a, ha, heq⟩] at hlive
      exact ⟨.inl b, isSome_symbol_beside_inl.2 hlive, rfl⟩
  · obtain ⟨u, v, huv, rfl, rfl⟩ | ⟨u, v, huv, rfl, rfl⟩ := hxy
    · rw [Point.map_map, Point.map_map]
      refine diagram_joined_of_map (fun {a k p} hp => ?_) (fun hpq => hcopy.joined.2 (.inl hpq))
        (fun hi => mem_bothLabels.2 (.inl hi)) huv
      show (after.portsOf a)[k]? = _
      rwa [hcopy.portsOf_old (isSome_agent?_of_getElem? hp)]
    · rw [Point.map_map, Point.map_map]
      exact diagram_joined_of_map hcopy.getElem?_portsOf_copy
        (fun hpq => hcopy.joined.2 (.inr ⟨_, _, hpq, rfl, rfl⟩))
        (fun hi => mem_bothLabels.2 (.inr ⟨_, hi, rfl⟩)) huv
  · rcases x with ⟨c, j⟩ | i <;> rcases y with ⟨d, k⟩ | i'
    · obtain ⟨hp, hq, hpq⟩ := hxy
      exact hcopy.joined_ports h hother hx hy hp hq hpq
    · obtain _ | _ | ⟨hi, hp⟩ := hxy
      exact Diagram.symm _ (hcopy.joined_place h hother hl hl' hx hp hi)
    · obtain _ | ⟨hi, hp⟩ := hxy
      exact hcopy.joined_place h hother hl hl' hy hp hi
    · exact absurd hxy (not_diagram_joined_places i i')

end Copy

section Parallel

variable (h : net.WellFormed) (hother : other.WellFormed)

include h hother

/-- **The diagram of two nets side by side** consists of their diagrams, if the labels of the left
net come first. -/
theorem exists_isIso_parallel (hl : net.IsLabelling labels) (hl' : other.IsLabelling labels')
    (hlt : ∀ {p q i j}, (p, i) ∈ labels → (q, j) ∈ labels' → i < j) :
    ∃ both f g, (net.parallel other).IsLabelling both ∧
      ((net.diagram labels).beside (other.diagram labels')).IsIso
        ((net.parallel other).diagram both) f g := by
  obtain ⟨copy, hcopy, -, hinterface⟩ := exists_isCopy_inject hother h true
  rw [← parallel_eq] at hcopy hinterface
  obtain ⟨g, hiso⟩ := hcopy.exists_isIso h hother hl hl'
  refine ⟨_, _, g, ⟨?_, ?_⟩, hiso⟩
  · rw [hinterface, if_pos rfl, bothLabels, List.map_append, hl.ports, ← hl'.ports, List.map_map,
      List.map_map]
    rfl
  · rw [bothLabels, List.map_append, List.map_map, List.pairwise_append]
    refine ⟨hl.sorted, hl'.sorted, fun i hi j hj => ?_⟩
    obtain ⟨⟨p, _⟩, hp, rfl⟩ := List.mem_map.1 hi
    obtain ⟨⟨q, _⟩, hq, rfl⟩ := List.mem_map.1 hj
    exact hlt hp hq

omit h hother in
/-- Ports that are counted on come after those that are counted first. -/
theorem lt_of_mem_zipIdx {k : Nat} (hk : net.interface.length = k) {p q : PortId} {i j : Nat}
    (hi : (p, i) ∈ net.interface.zipIdx) (hj : (q, j) ∈ other.interface.zipIdx k) : i < j := by
  have hlength := (List.getElem?_eq_some_iff.1 (List.mk_mem_zipIdx_iff_getElem?.1 hi)).1
  have hle := (List.mk_mem_zipIdx_iff_le_and_getElem?_sub.1 hj).1
  omega

theorem length_interface_parallel : (net.parallel other).interface.length =
    net.interface.length + other.interface.length := by
  obtain ⟨-, -, -, hinterface⟩ := exists_isCopy_inject hother h true
  rw [parallel_eq, hinterface, if_pos rfl, List.length_append, List.length_map]

/-- The places of two nets side by side are counted through, from any number on. -/
theorem isomorphic_diagram_parallel (k : Nat) :
    ((net.diagram (net.interface.zipIdx k)).beside
      (other.diagram (other.interface.zipIdx (k + net.interface.length)))).Isomorphic
        ((net.parallel other).diagram ((net.parallel other).interface.zipIdx k)) := by
  obtain ⟨copy, hcopy, -, hinterface⟩ := exists_isCopy_inject hother h true
  obtain ⟨g, hiso⟩ := hcopy.exists_isIso h hother (net.isLabelling_zipIdx_add k)
    (other.isLabelling_zipIdx_add (k + net.interface.length))
  have hlabels : (net.parallel other).interface.zipIdx k =
      bothLabels (net.interface.zipIdx k) (other.interface.zipIdx (k + net.interface.length))
        (copyOf (net.inject other true).1) := by
    rw [parallel_eq, hinterface, if_pos rfl, List.zipIdx_append, List.zipIdx_map, bothLabels]
  exact hlabels ▸ ⟨_, g, hiso⟩

/-- Two nets side by side, with their places counted one after another. -/
theorem exists_isIso_parallel_zipIdx {k : Nat} (hk : net.interface.length = k) :
    ∃ both f g, (net.parallel other).IsLabelling both ∧
      ((net.diagram net.interface.zipIdx).beside
        (other.diagram (other.interface.zipIdx k))).IsIso
          ((net.parallel other).diagram both) f g := by
  obtain ⟨f, g, hiso⟩ := isomorphic_diagram_parallel h hother 0
  rw [Nat.zero_add, hk] at hiso
  exact ⟨_, f, g, isLabelling_zipIdx _, hiso⟩

/-- Nets side by side may be replaced by isomorphic ones. -/
theorem Isomorphic.parallel (h' : net'.WellFormed) (hother' : other'.WellFormed)
    (hiso : net.Isomorphic net') (hiso' : other.Isomorphic other') :
    (net.parallel other).Isomorphic (net'.parallel other') := by
  obtain ⟨f, hf, hinterface⟩ := hiso
  obtain ⟨f', hf', hinterface'⟩ := hiso'
  obtain ⟨g, hleft⟩ := h.exists_isIso_of_renames h' hf hinterface 0
  obtain ⟨g', hright⟩ :=
    hother.exists_isIso_of_renames hother' hf' hinterface' (0 + net.interface.length)
  have hmid := Diagram.Isomorphic.beside ⟨_, _, hleft⟩ ⟨_, _, hright⟩
  have hlast := isomorphic_diagram_parallel h' hother' 0
  rw [← hinterface.length_eq] at hlast
  exact ((h.parallel hother).isomorphic_iff (h'.parallel hother')).2
    ((isomorphic_diagram_parallel h hother 0).symm.trans (hmid.trans hlast))

end Parallel

end Net

end InteractionNets
