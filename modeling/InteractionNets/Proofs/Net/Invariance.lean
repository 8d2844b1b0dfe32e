import InteractionNets.Proofs.Net.Decoding
import InteractionNets.Proofs.Net.Edits
import InteractionNets.Systems.Combinators

/-!
# Shapes decide isomorphism

A walk looks at nothing but symbols, peers and places on the boundary, so walks of isomorphic nets
that begin at corresponding agents number corresponding agents in the same order and write down the
same code. The agents of the two nets may be listed in different orders, but that only changes the
order of the closed codes, which are sorted. So isomorphic nets have one shape
(`Net.WellFormed.withBoundary_eq`), and they have equally many agents and connections. With
`Net.WellFormed.exists_renames_of_withBoundary` this makes `Net.isomorphic` decide whether nets are
isomorphic.
-/

namespace InteractionNets

namespace Net

variable {net other : Net} {f : AgentId → AgentId}

/-! ### Corresponding agents and ports -/

/-- A live agent and the one that it is renamed to. -/
def Counterpart (net : Net) (f : AgentId → AgentId) (a a' : AgentId) : Prop :=
  (net.agent? a).isSome ∧ f a = a'

theorem Renames.biUnique_counterpart (hf : net.Renames other f) :
    Relator.BiUnique (net.Counterpart f) := by
  refine ⟨fun a b c ha hb => ?_, fun a b c hb hc => hb.2.symm.trans hc.2⟩
  exact hf.bijOn.injOn ha.1 hb.1 (ha.2.trans hb.2.symm)

section Renamed

variable (h : net.WellFormed) (hother : other.WellFormed) (hf : net.Renames other f)

include h hother hf

/-- The ports of corresponding agents correspond. -/
theorem Renames.forall₂_portsOf {a : AgentId} (ha : (net.agent? a).isSome) :
    List.Forall₂ (net.SamePlace other f) (net.portsOf a) (other.portsOf (f a)) := by
  refine List.forall₂_iff_get.2 ⟨(hf.length_portsOf h hother ha).symm, fun k hk hk' => ?_⟩
  exact ⟨a, k, List.getElem?_eq_getElem hk, List.getElem?_eq_getElem hk'⟩

/-- Every port of the other net corresponds to a port. -/
theorem Renames.exists_samePlace_left {q : PortId} {b : AgentId} {k : Nat}
    (hq : (other.portsOf b)[k]? = some q) :
    ∃ a p, f a = b ∧ (net.portsOf a)[k]? = some p ∧ net.SamePlace other f p q := by
  obtain ⟨a, ha, rfl⟩ := hf.bijOn.surjOn (isSome_agent?_of_getElem? hq)
  obtain ⟨p, hp, hsame⟩ := exists_getElem?_of_forall₂ (hf.forall₂_portsOf h hother ha).flip hq
  exact ⟨a, p, rfl, hp, hsame⟩

theorem Renames.exists_samePlace_right {p : PortId} {a : AgentId} {k : Nat}
    (hp : (net.portsOf a)[k]? = some p) :
    ∃ q, (other.portsOf (f a))[k]? = some q ∧ net.SamePlace other f p q :=
  exists_getElem?_of_forall₂ (hf.forall₂_portsOf h hother (isSome_agent?_of_getElem? hp)) hp

theorem Renames.biUnique_samePlace : Relator.BiUnique (net.SamePlace other f) :=
  ⟨fun _ _ _ hp hq => hp.unique_left hother hf hq, fun _ _ _ hp hq => hp.unique h hq⟩

/-- The peers of corresponding ports correspond. -/
theorem Renames.peerPort?_of_samePlace {p p' : PortId} (hp : net.SamePlace other f p p') :
    (net.peerPort? p = none ∧ other.peerPort? p' = none) ∨
      ∃ peer peer', net.peerPort? p = some peer ∧ other.peerPort? p' = some peer' ∧
        net.Counterpart f peer.agent peer'.agent ∧ peer'.position = peer.position := by
  cases hpeer : net.peerPort? p with
  | some peer =>
    obtain ⟨q, hpq, hq⟩ := h.joined_of_peerPort? hpeer
    obtain ⟨q', hq', hsame⟩ := hf.exists_samePlace_right h hother hq
    refine .inr ⟨peer, _, rfl, hother.peerPort?_eq ((hf.joined hp hsame).1 hpq) hq', ?_, rfl⟩
    exact ⟨isSome_agent?_of_getElem? hq, rfl⟩
  | none =>
    refine .inl ⟨rfl, Option.eq_none_iff_forall_ne_some.2 fun peer' hpeer' => ?_⟩
    obtain ⟨q', hpq', hq'⟩ := hother.joined_of_peerPort? hpeer'
    obtain ⟨b, q, hb, hq, hsame⟩ := hf.exists_samePlace_left h hother hq'
    rw [h.peerPort?_eq ((hf.joined hp hsame).2 hpq') hq] at hpeer
    cases hpeer

/-! ### Walks from corresponding agents -/

omit h hother hf in
private theorem idxOf?_eq_of_forall₂ {R : Nat → Nat → Prop} (hR : Relator.BiUnique R)
    {l l' : List Nat} (hl : List.Forall₂ R l l') {p p' : Nat} (hp : R p p') :
    l.idxOf? p = l'.idxOf? p' := by
  induction hl with
  | nil => rfl
  | @cons q q' l l' hq _ ih =>
    have hbeq : (q == p) = (q' == p') := by
      rw [Bool.eq_iff_iff, beq_iff_eq, beq_iff_eq]
      exact Relator.rel_eq hR hq hp
    rw [List.idxOf?_cons, List.idxOf?_cons, hbeq, ih]

/-- Corresponding ports have the same place in corresponding boundaries. -/
theorem Renames.boundaryIndex?_eq {boundary boundary' : List PortId}
    (hboundary : List.Forall₂ (net.SamePlace other f) boundary boundary') {p p' : PortId}
    (hp : net.SamePlace other f p p') :
    boundaryIndex? boundary p = boundaryIndex? boundary' p' := by
  rw [boundaryIndex?, boundaryIndex?, hboundary.length_eq,
    idxOf?_eq_of_forall₂ (hf.biUnique_samePlace h hother) (List.rel_reverse hboundary) hp]

omit h hother in
/-- Corresponding agents are numbered alike. -/
theorem Renames.number_eq {l l' : List AgentId} (hl : List.Forall₂ (net.Counterpart f) l l')
    {a a' : AgentId} (ha : net.Counterpart f a a') :
    (number l a).1 = (number l' a').1 ∧
      List.Forall₂ (net.Counterpart f) (number l a).2 (number l' a').2 := by
  rw [number, number, idxOf?_eq_of_forall₂ hf.biUnique_counterpart hl ha]
  cases l'.idxOf? a' with
  | some n => exact ⟨rfl, hl⟩
  | none => exact ⟨hl.length_eq, List.rel_append hl (.cons ha .nil)⟩

section Boundary

variable {boundary boundary' : List PortId}
  (hboundary : List.Forall₂ (net.SamePlace other f) boundary boundary')

include hboundary

theorem Renames.walkPorts_eq {ports ports' : List PortId}
    (hports : List.Forall₂ (net.SamePlace other f) ports ports') {l l' : List AgentId}
    (hl : List.Forall₂ (net.Counterpart f) l l') :
    (net.walkPorts boundary ports l).1 = (other.walkPorts boundary' ports' l').1 ∧
      List.Forall₂ (net.Counterpart f) (net.walkPorts boundary ports l).2
        (other.walkPorts boundary' ports' l').2 := by
  induction hports generalizing l l' with
  | nil => exact ⟨rfl, hl⟩
  | @cons p p' _ _ hp _ ih =>
    rcases hf.peerPort?_of_samePlace h hother hp with
      ⟨hpeer, hpeer'⟩ | ⟨peer, peer', hpeer, hpeer', hagent, hposition⟩
    · simp only [walkPorts, hpeer, hpeer', hf.boundaryIndex?_eq h hother hboundary hp, (ih hl).1]
      exact ⟨trivial, (ih hl).2⟩
    · obtain ⟨hnumber, hl'⟩ := hf.number_eq hl hagent
      simp only [walkPorts, hpeer, hpeer', hnumber, hposition, (ih hl').1]
      exact ⟨trivial, (ih hl').2⟩

theorem Renames.walkFrom_eq (fuel next : Nat) {l l' : List AgentId}
    (hl : List.Forall₂ (net.Counterpart f) l l') :
    (net.walkFrom boundary fuel next l).1 = (other.walkFrom boundary' fuel next l').1 ∧
      List.Forall₂ (net.Counterpart f) (net.walkFrom boundary fuel next l).2
        (other.walkFrom boundary' fuel next l').2 := by
  induction fuel generalizing next l l' with
  | zero => exact ⟨rfl, hl⟩
  | succ fuel ih =>
    cases hnext : l[next]? with
    | none =>
      have hnext' : l'[next]? = none := by
        rw [List.getElem?_eq_none_iff] at hnext ⊢
        rwa [← hl.length_eq]
      simp only [walkFrom, hnext, hnext']
      exact ⟨trivial, hl⟩
    | some agent =>
      obtain ⟨_, hnext', hlive, rfl⟩ := exists_getElem?_of_forall₂ hl hnext
      obtain ⟨data, hdata⟩ := Option.isSome_iff_exists.1 hlive
      obtain ⟨data', hdata', hsymbol⟩ := hf.symbol hdata
      have hports := hf.forall₂_portsOf h hother hlive
      rw [portsOf_eq hdata, portsOf_eq hdata'] at hports
      obtain ⟨hcode, hl'⟩ := hf.walkPorts_eq h hother hboundary hports hl
      obtain ⟨hrest, hl''⟩ := ih (next + 1) hl'
      simp only [walkFrom, hnext, hnext', hdata, hdata', hsymbol, hports.length_eq, hcode, hrest]
      exact ⟨trivial, hl''⟩

end Boundary

/-! ### Sizes -/

/-- The agents of the other net, in some order, are those that agents are renamed to. -/
theorem Renames.perm_map_id : ((net.agentList.map Agent.id).map f).Perm
    (other.agentList.map Agent.id) := by
  rw [h.map_id_agentList, hother.map_id_agentList]
  refine (List.perm_ext_iff_of_nodup ?_ other.agents.nodup_entries).2 fun b => ?_
  · refine List.Nodup.map_on (fun a ha b hb hab => ?_) net.agents.nodup_entries
    exact hf.bijOn.injOn (Arena.mem_map_fst_entries_iff.1 ha) (Arena.mem_map_fst_entries_iff.1 hb)
      hab
  · rw [Arena.mem_map_fst_entries_iff, List.mem_map]
    constructor
    · rintro ⟨a, ha, rfl⟩
      exact hf.bijOn.mapsTo (Arena.mem_map_fst_entries_iff.1 ha)
    · intro hb
      obtain ⟨a, ha, rfl⟩ := hf.bijOn.surjOn hb
      exact ⟨a, Arena.mem_map_fst_entries_iff.2 ha, rfl⟩

theorem Renames.size_agents : net.agents.size = other.agents.size := by
  have hlength := (hf.perm_map_id h hother).length_eq
  rw [h.map_id_agentList, hother.map_id_agentList, List.length_map, List.length_map,
    List.length_map, Arena.length_entries, Arena.length_entries] at hlength
  exact hlength

omit h hother in
/-- The renaming of the other net back. -/
theorem Renames.symm : ∃ g, other.Renames net g ∧
    ∀ {p q}, net.SamePlace other f p q ↔ other.SamePlace net g q p := by
  obtain ⟨g, hg⟩ : ∃ g, Set.InvOn g f {a | (net.agent? a).isSome} {b | (other.agent? b).isSome} :=
    ⟨_, hf.bijOn.invOn_invFunOn⟩
  have hsame : ∀ {p q}, net.SamePlace other f p q ↔ other.SamePlace net g q p := by
    intro p q
    constructor
    · rintro ⟨a, k, hp, hq⟩
      refine ⟨f a, k, hq, ?_⟩
      rwa [hg.1 (isSome_agent?_of_getElem? hp)]
    · rintro ⟨b, k, hq, hp⟩
      refine ⟨g b, k, hp, ?_⟩
      rwa [hg.2 (isSome_agent?_of_getElem? hq)]
  refine ⟨g, ⟨hf.bijOn.symm hg.symm, fun {b data'} hb => ?_, fun {p q p' q'} hp hq => ?_⟩, hsame⟩
  · have hlive : (other.agent? b).isSome := by rw [hb]; rfl
    obtain ⟨a, ha, rfl⟩ := hf.bijOn.surjOn hlive
    obtain ⟨data, hdata⟩ := Option.isSome_iff_exists.1 ha
    obtain ⟨data'', hdata'', hsymbol⟩ := hf.symbol hdata
    obtain rfl := Option.some.inj (hb.symm.trans hdata'')
    exact ⟨data, by rw [hg.1 ha, hdata], hsymbol.symm⟩
  · exact (hf.joined (hsame.2 hp) (hsame.2 hq)).symm

/-- Connections between corresponding ports correspond, so the other net has no fewer of them. -/
private theorem Renames.size_connections_le : net.connections.size ≤ other.connections.size := by
  have hlisted : ∀ c ∈ net.connections.entries.map Prod.fst, ∃ c', (other.connection? c').isSome ∧
      ∃ p p', net.SamePlace other f p p' ∧ net.linkOf? p = some c ∧ other.linkOf? p' = some c' := by
    intro c hc
    obtain ⟨data, hdata⟩ := Option.isSome_iff_exists.1 (Arena.mem_map_fst_entries_iff.1 hc)
    have hjoined : net.Joined data.ports.1 data.ports.2 := ⟨c, data, hdata, .inl rfl⟩
    obtain ⟨a, j, hp⟩ := h.port?_isSome_iff.1 (h.isSome_of_joined hjoined)
    obtain ⟨b, k, hq⟩ := h.port?_isSome_iff.1 (h.isSome_of_joined hjoined.symm)
    obtain ⟨p', -, hp'⟩ := hf.exists_samePlace_right h hother hp
    obtain ⟨q', -, hq'⟩ := hf.exists_samePlace_right h hother hq
    obtain ⟨c', data', hc', hends⟩ := (hf.joined hp' hq').1 hjoined
    refine ⟨c', by rw [hc']; rfl, data.ports.1, p', hp',
      h.linkOf?_eq_some_iff.2 ⟨data, hdata, .inl rfl⟩,
      hother.linkOf?_eq_some_iff.2 ⟨data', hc', ?_⟩⟩
    exact hends.imp (by simp [·]) (by simp [·])
  choose! g hlive p p' hsame hlink hlink' using hlisted
  have hnodup : ((net.connections.entries.map Prod.fst).map g).Nodup := by
    refine List.Nodup.map_on (fun c hc d hd hcd => ?_) net.connections.nodup_entries
    have hd' := hlink' d hd
    rw [← hcd] at hd'
    -- the two ports of the other net are ends of one connection: they are equal or joined
    have heq : net.linkOf? (p c) = net.linkOf? (p d) := by
      rcases hother.eq_or_joined_of_linkOf? (hlink' c hc) hd' with heq | hjoined
      · rw [Relator.rel_eq (hf.biUnique_samePlace h hother) (hsame c hc) (hsame d hd) |>.2 heq]
      · exact h.linkOf?_eq_of_joined ((hf.joined (hsame c hc) (hsame d hd)).2 hjoined)
    rw [hlink c hc, hlink d hd] at heq
    exact Option.some.inj heq
  have hlength := other.connections.length_le_size hnodup fun c' hc' => by
    obtain ⟨c, hc, rfl⟩ := List.mem_map.1 hc'
    exact hlive c hc
  rwa [List.length_map, List.length_map, Arena.length_entries] at hlength

theorem Renames.size_connections : net.connections.size = other.connections.size := by
  obtain ⟨g, hg, -⟩ := hf.symm
  exact Nat.le_antisymm (hf.size_connections_le h hother) (hg.size_connections_le hother h)

/-! ### Shapes of isomorphic nets -/

section Shape

variable {boundary boundary' : List PortId}
  (hboundary : List.Forall₂ (net.SamePlace other f) boundary boundary')

include hboundary

theorem Renames.walk_eq {l l' : List AgentId} (hl : List.Forall₂ (net.Counterpart f) l l') :
    (net.walk boundary l).1 = (other.walk boundary' l').1 ∧
      List.Forall₂ (net.Counterpart f) (net.walk boundary l).2 (other.walk boundary' l').2 := by
  rw [walk, walk, hf.size_agents h hother]
  exact hf.walkFrom_eq h hother hboundary _ 0 hl

theorem Renames.componentCode_eq {l l' : List AgentId}
    (hl : List.Forall₂ (net.Counterpart f) l l') :
    net.componentCode boundary l = other.componentCode boundary' l' := by
  refine congrArg Code.least ?_
  induction hl with
  | nil => rfl
  | cons ha _ ih =>
    rw [List.map_cons, List.map_cons, ih, (hf.walk_eq h hother hboundary (.cons ha .nil)).1]

theorem Renames.closedCodes_eq {agents agents' : List AgentId}
    (hagents : List.Forall₂ (net.Counterpart f) agents agents') {seen seen' : List AgentId}
    (hseen : List.Forall₂ (net.Counterpart f) seen seen') :
    net.closedCodes boundary agents seen = other.closedCodes boundary' agents' seen' := by
  induction hagents generalizing seen seen' with
  | nil => rfl
  | @cons agent agent' rest rest' ha _ ih =>
    have hmem : agent ∈ seen ↔ agent' ∈ seen' :=
      List.rel_mem hf.biUnique_counterpart ha hseen
    by_cases hfound : agent ∈ seen
    · rw [closedCodes_cons_of_mem hfound, closedCodes_cons_of_mem (hmem.1 hfound), ih hseen]
    · have hwalk := (hf.walk_eq h hother hboundary (.cons ha .nil)).2
      rw [closedCodes_cons_of_not_mem hfound, closedCodes_cons_of_not_mem (mt hmem.2 hfound),
        hf.componentCode_eq h hother hboundary hwalk, ih (List.rel_append hwalk hseen)]

omit hboundary in
/-- Corresponding boundaries are written down alike. -/
theorem Renames.walkBoundary_eq {ports ports' : List PortId}
    (hports : List.Forall₂ (net.SamePlace other f) ports ports') {l l' : List AgentId}
    (hl : List.Forall₂ (net.Counterpart f) l l') :
    (net.walkBoundary ports l).1 = (other.walkBoundary ports' l').1 ∧
      List.Forall₂ (net.Counterpart f) (net.walkBoundary ports l).2
        (other.walkBoundary ports' l').2 := by
  induction hports generalizing l l' with
  | nil => exact ⟨rfl, hl⟩
  | cons hp _ ih =>
    obtain ⟨a, k, hp, hp'⟩ := hp
    obtain ⟨hnumber, hl'⟩ := hf.number_eq hl ⟨isSome_agent?_of_getElem? hp, rfl⟩
    simp only [walkBoundary, h.port?_eq hp, hother.port?_eq hp', hnumber, (ih hl').1]
    exact ⟨trivial, (ih hl').2⟩

/-- **Isomorphic nets have one shape**, as long as their boundaries correspond. -/
theorem Renames.withBoundary_eq :
    Shape.withBoundary net boundary = Shape.withBoundary other boundary' := by
  obtain ⟨hentries, hfirst⟩ := hf.walkBoundary_eq h hother hboundary .nil
  obtain ⟨hcode, hseen⟩ := hf.walk_eq h hother hboundary hfirst
  have hlive : ∀ {a}, a ∈ net.agentList.map Agent.id → (net.agent? a).isSome := by
    intro a ha
    rwa [h.map_id_agentList, Arena.mem_map_fst_entries_iff] at ha
  have hagents : List.Forall₂ (net.Counterpart f) (net.agentList.map Agent.id)
      ((net.agentList.map Agent.id).map f) :=
    List.forall₂_map_right_iff.2 (List.forall₂_same.2 fun _ ha => ⟨hlive ha, rfl⟩)
  have hclosed := hf.closedCodes_eq h hother hboundary hagents hseen
  -- the agents of the other net may be listed in another order
  have hperm := hother.closedCodes_perm boundary' (hf.perm_map_id h hother)
    (other.walk boundary' (other.walkBoundary boundary' []).2).2 fun b hb => by
      obtain ⟨a, ha, rfl⟩ := List.mem_map.1 hb
      exact hf.bijOn.mapsTo (hlive ha)
  rw [← hclosed] at hperm
  simp only [Shape.withBoundary, hentries, hcode, Code.mergeSort_congr hperm]

end Shape

end Renamed

/-! ### Deciding isomorphism -/

/-- **`Net.isomorphic` decides isomorphism.** -/
theorem WellFormed.isomorphic_eq_true (h : net.WellFormed) (hother : other.WellFormed) :
    net.isomorphic other = true ↔ net.Isomorphic other := by
  simp only [isomorphic, Bool.and_eq_true, beq_iff_eq]
  constructor
  · rintro ⟨-, hshape⟩
    exact h.exists_renames_of_withBoundary hother (fun p hp => h.isSome_of_mem_interface hp)
      (fun p hp => hother.isSome_of_mem_interface hp) hshape
  · rintro ⟨f, hf, hinterface⟩
    exact ⟨⟨hf.size_agents h hother, hf.size_connections h hother⟩,
      hf.withBoundary_eq h hother hinterface⟩

/-- A port is **hidden** when it is free and not on the interface. -/
def IsHidden (net : Net) (p : PortId) : Prop :=
  net.IsFree p ∧ p ∉ net.interface

/-- Ports that correspond in isomorphic nets are hidden in both or in none. -/
theorem Renames.isHidden_iff (h : net.WellFormed) (hother : other.WellFormed)
    (hf : net.Renames other f)
    (hinterface : List.Forall₂ (net.SamePlace other f) net.interface other.interface)
    {p p' : PortId} (hp : net.SamePlace other f p p') : net.IsHidden p ↔ other.IsHidden p' := by
  have hmem : p ∈ net.interface ↔ p' ∈ other.interface :=
    List.rel_mem (hf.biUnique_samePlace h hother) hp hinterface
  obtain ⟨a, k, hk, hk'⟩ := id hp
  have hlive : (net.port? p).isSome := h.port?_isSome_iff.2 ⟨a, k, hk⟩
  have hlive' : (other.port? p').isSome := hother.port?_isSome_iff.2 ⟨f a, k, hk'⟩
  have hfree : net.IsFree p ↔ other.IsFree p' := by
    rw [h.isFree_iff, hother.isFree_iff, and_iff_right hlive, and_iff_right hlive']
    constructor
    · intro hnone q' hpq'
      obtain ⟨b, j, hq'⟩ := hother.port?_isSome_iff.1 (hother.isSome_of_joined hpq'.symm)
      obtain ⟨_, q, -, -, hq⟩ := hf.exists_samePlace_left h hother hq'
      exact hnone q ((hf.joined hp hq).2 hpq')
    · intro hnone q hpq
      obtain ⟨b, j, hq⟩ := h.port?_isSome_iff.1 (h.isSome_of_joined hpq.symm)
      obtain ⟨q', -, hq'⟩ := hf.exists_samePlace_right h hother hq
      exact hnone q' ((hf.joined hp hq').1 hpq)
  rw [IsHidden, IsHidden, hfree, hmem]

/-- **Shapes decide isomorphism exactly.** Two nets pass the comparison of their shapes when, and
only when, a bijection between their agents keeps symbols, joined ports, the interface with its
order, and hidden ports. -/
theorem isomorphic_iff_exists_bijection (h : net.WellFormed) (hother : other.WellFormed) :
    net.isomorphic other = true ↔
      ∃ f : AgentId → AgentId, net.Renames other f ∧
        List.Forall₂ (net.SamePlace other f) net.interface other.interface ∧
        ∀ p p', net.SamePlace other f p p' → (net.IsHidden p ↔ other.IsHidden p') := by
  rw [h.isomorphic_eq_true hother]
  constructor
  · rintro ⟨f, hf, hinterface⟩
    exact ⟨f, hf, hinterface, fun p p' hp => hf.isHidden_iff h hother hinterface hp⟩
  · rintro ⟨f, hf, hinterface, -⟩
    exact ⟨f, hf, hinterface⟩

/-- Two agents that face each other, with one of their ports hidden. -/
def veiled (a b : Symbol) (port : PortId) : Net :=
  ((restrictInterface [port]).run (facing a b)).2

theorem wellFormed_veiled (a b : Symbol) (port : PortId) : (veiled a b port).WellFormed :=
  (wellFormed_facing a b).run_restrictInterface [port]

open Combinators in
/-- Agents may be made in either order. The interface tells which port of an agent is hidden. -/
theorem isomorphic_iff_exists_bijection_veiled :
    (∃ f : AgentId → AgentId, (veiled gamma epsilon 1).Renames (veiled epsilon gamma 2) f ∧
      List.Forall₂ ((veiled gamma epsilon 1).SamePlace (veiled epsilon gamma 2) f)
        (veiled gamma epsilon 1).interface (veiled epsilon gamma 2).interface ∧
      ∀ p p', (veiled gamma epsilon 1).SamePlace (veiled epsilon gamma 2) f p p' →
        ((veiled gamma epsilon 1).IsHidden p ↔ (veiled epsilon gamma 2).IsHidden p')) ∧
    ¬ ∃ f : AgentId → AgentId, (veiled gamma epsilon 1).Renames (veiled epsilon gamma 3) f ∧
      List.Forall₂ ((veiled gamma epsilon 1).SamePlace (veiled epsilon gamma 3) f)
        (veiled gamma epsilon 1).interface (veiled epsilon gamma 3).interface ∧
      ∀ p p', (veiled gamma epsilon 1).SamePlace (veiled epsilon gamma 3) f p p' →
        ((veiled gamma epsilon 1).IsHidden p ↔ (veiled epsilon gamma 3).IsHidden p') := by
  have h := wellFormed_veiled gamma epsilon 1
  constructor
  · exact (isomorphic_iff_exists_bijection h (wellFormed_veiled epsilon gamma 2)).1
      (by decide +kernel)
  · rw [← isomorphic_iff_exists_bijection h (wellFormed_veiled epsilon gamma 3)]
    decide +kernel

end Net

end InteractionNets
