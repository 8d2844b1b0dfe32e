import InteractionNets.Proofs.Redex.Covered
import InteractionNets.Proofs.Written.Build

/-!
# Hosts for redexes

Nets are built up by attaching agents to ports on the interface, each by its principal port
(`Net.Attaches`). Two agents of one symbol, one attached to the other, with a passage attached to
each of their auxiliary ports, are a host in which every rule for the two has a covered redex
(`Rule.Valid.exists_covers`).
-/

namespace InteractionNets

namespace Net

variable {net after : Net}

/-! ### Attaching agents -/

/-- A net gets one more agent, whose principal port is joined to a port on the interface. The other
ports of the agent come to the interface. -/
structure Attaches (net : Net) (p : PortId) (symbol : Symbol) (after : Net) (a : AgentId)
    (q : PortId) (rest : List PortId) : Prop where
  wellFormed : after.WellFormed
  fresh : net.agent? a = none
  agent? : ∀ b, after.agent? b = if b = a then some ⟨b, symbol, q :: rest⟩ else net.agent? b
  joined : ∀ {u v}, after.Joined u v ↔ net.Joined u v ∨ (u = p ∧ v = q) ∨ (u = q ∧ v = p)
  mem_interface : ∀ {u}, u ∈ after.interface ↔ (u ∈ net.interface ∧ u ≠ p) ∨ u ∈ rest

/-- An agent with a principal port can be attached to any port on the interface. -/
theorem WellFormed.exists_attaches (h : net.WellFormed) {p : PortId} (hp : p ∈ net.interface)
    {symbol : Symbol} (hsymbol : symbol.hasPrincipal) :
    ∃ after a q rest, net.Attaches p symbol after a q rest := by
  have hlength : (net.nextPorts symbol).length = symbol.auxArity + 1 := by
    rw [net.length_nextPorts symbol, Symbol.auxArity_add_one hsymbol]
  obtain ⟨q, rest, hports⟩ := List.exists_cons_of_length_eq_add_one hlength
  have hnodup : (q :: rest).Nodup := hports ▸ net.nodup_nextPorts symbol
  have hinterface : (net.newAgent symbol).2.interface = net.interface ++ q :: rest := by
    rw [interface_newAgent h, hports]
  have hnew : ∀ {r}, r ∈ q :: rest → r ∉ net.interface := fun hr =>
    h.not_mem_interface_of_mem_nextPorts (hports ▸ hr)
  have hpq : p ≠ q := by
    rintro rfl
    exact hnew List.mem_cons_self hp
  have hnext := h.newAgent symbol
  have hsafe : (net.newAgent symbol).2.connectFault? p q = none :=
    hnext.connectFault?_of_interface (by simp [hinterface, hp]) (by simp [hinterface]) hpq
  refine ⟨((net.newAgent symbol).2.join p q).2, net.nextAgent, q, rest, hnext.join hsafe,
    net.agent?_nextAgent, fun b => ?_, joined_join, fun {u} => ?_⟩
  · have hagent := net.agent?_newAgent symbol b
    rwa [hports] at hagent
  · rw [interface_join, (hnext.interface_nodup.erase p).mem_erase_iff,
      hnext.interface_nodup.mem_erase_iff, hinterface, List.mem_append, List.mem_cons]
    constructor
    · rintro ⟨huq, hup, hu | rfl | hu⟩
      · exact .inl ⟨hu, hup⟩
      · exact absurd rfl huq
      · exact .inr hu
    · rintro (⟨hu, hup⟩ | hu)
      · refine ⟨?_, hup, .inl hu⟩
        rintro rfl
        exact hnew List.mem_cons_self hu
      · refine ⟨?_, ?_, .inr (.inr hu)⟩
        · rintro rfl
          exact (List.nodup_cons.1 hnodup).1 hu
        · rintro rfl
          exact hnew (List.mem_cons_of_mem q hu) hp

namespace Attaches

variable {p q : PortId} {symbol : Symbol} {a : AgentId} {rest : List PortId}
  (ha : net.Attaches p symbol after a q rest)

include ha

theorem agent?_old {b : AgentId} (hb : (net.agent? b).isSome) :
    after.agent? b = net.agent? b := by
  rw [ha.agent?, if_neg (agent_ne_of_eq_none hb ha.fresh)]

theorem agent?_new : after.agent? a = some ⟨a, symbol, q :: rest⟩ := by
  rw [ha.agent?, if_pos rfl]

theorem portsOf_old {b : AgentId} (hb : (net.agent? b).isSome) :
    after.portsOf b = net.portsOf b := by
  rw [portsOf, portsOf, ha.agent?_old hb]

theorem portsOf_new : after.portsOf a = q :: rest :=
  portsOf_eq ha.agent?_new

/-- The ports of the new agent are new. -/
theorem not_mem_interface (h : net.WellFormed) {u : PortId} (hu : u ∈ rest) :
    u ∉ net.interface := by
  intro hmem
  obtain ⟨b, k, hk⟩ := h.port?_isSome_iff.1 (h.isSome_of_mem_interface hmem)
  have hlive := isSome_agent?_of_getElem? hk
  obtain ⟨j, hj⟩ := List.mem_iff_getElem?.1 (List.mem_cons_of_mem q hu)
  rw [← ha.portsOf_new] at hj
  rw [← ha.portsOf_old hlive] at hk
  exact agent_ne_of_eq_none hlive ha.fresh (ha.wellFormed.port_unique hk hj).1

end Attaches

/-! ### Covering ports -/

/-- Passages are attached to some ports on the interface, a cover for each of them. -/
structure Covering (net : Net) (ports : List PortId) (after : Net) (cover : PortId → AgentId) :
    Prop where
  wellFormed : after.WellFormed
  agent?_old : ∀ {a}, (net.agent? a).isSome → after.agent? a = net.agent? a
  joined_old : ∀ {p q}, net.Joined p q → after.Joined p q
  interface_old : ∀ {p}, p ∈ net.interface → p ∉ ports → p ∈ after.interface
  fresh : ∀ {p}, p ∈ ports → net.agent? (cover p) = none
  exists_front : ∀ {p}, p ∈ ports → ∃ q r, after.portsOf (cover p) = [q, r] ∧ after.Joined p q ∧
    r ∈ after.interface
  exists_port : ∀ {a}, (after.agent? a).isSome → net.agent? a = none → ∃ p ∈ ports, cover p = a

/-- Different ports on the interface can be covered, one after the other. -/
theorem WellFormed.exists_covering (h : net.WellFormed) {ports : List PortId}
    (hnodup : ports.Nodup) (hmem : ∀ p ∈ ports, p ∈ net.interface) :
    ∃ after cover, net.Covering ports after cover := by
  induction ports generalizing net with
  | nil =>
    refine ⟨net, fun _ => 0, h, fun _ => rfl, id, fun hp _ => hp, ?_, ?_, fun ha hnone => ?_⟩
    · exact fun hp => absurd hp List.not_mem_nil
    · exact fun hp => absurd hp List.not_mem_nil
    · exact absurd rfl (agent_ne_of_eq_none ha hnone)
  | cons p ports ih =>
    obtain ⟨hp, hports⟩ := List.nodup_cons.1 hnodup
    obtain ⟨hpmem, hrest⟩ := List.forall_mem_cons.1 hmem
    have hpassage : passage.hasPrincipal := rfl
    -- the first port is covered, and the others are in the net that this leaves
    obtain ⟨next, a, q, rest, ha⟩ := h.exists_attaches hpmem hpassage
    obtain ⟨r, rfl⟩ : ∃ r, rest = [r] :=
      List.length_eq_one_iff.1 (Nat.succ.inj (ha.wellFormed.arity ha.agent?_new))
    have hne : ∀ {u}, u ∈ ports → u ≠ p := by
      rintro u hu rfl
      exact hp hu
    obtain ⟨after, cover, hc⟩ := ih ha.wellFormed hports fun u hu =>
      ha.mem_interface.2 (.inl ⟨hrest u hu, hne hu⟩)
    have hupdate : ∀ {u}, u ∈ ports → Function.update cover p a u = cover u := fun hu =>
      Function.update_of_ne (hne hu) a cover
    have hlive : ∀ {b}, (net.agent? b).isSome → (next.agent? b).isSome := by
      intro b hb
      rwa [ha.agent?_old hb]
    refine ⟨after, Function.update cover p a, ?_⟩
    constructor
    case wellFormed => exact hc.wellFormed
    case agent?_old => exact fun hb => (hc.agent?_old (hlive hb)).trans (ha.agent?_old hb)
    case joined_old => exact fun huv => hc.joined_old (ha.joined.2 (.inl huv))
    case interface_old =>
      intro u hu hnot
      rw [List.mem_cons, not_or] at hnot
      exact hc.interface_old (ha.mem_interface.2 (.inl ⟨hu, hnot.1⟩)) hnot.2
    case fresh =>
      intro u hu
      rcases List.mem_cons.1 hu with rfl | hu
      · rw [Function.update_self, ha.fresh]
      · rw [hupdate hu]
        by_contra hsome
        have hnext := hlive (Option.isSome_iff_ne_none.2 hsome)
        exact agent_ne_of_eq_none hnext (hc.fresh hu) rfl
    case exists_front =>
      intro u hu
      rcases List.mem_cons.1 hu with rfl | hu
      · rw [Function.update_self]
        have hports' : after.portsOf a = [q, r] := by
          rw [portsOf, hc.agent?_old (by rw [ha.agent?_new]; rfl), ha.agent?_new]
          rfl
        have hr : r ∈ [r] := List.mem_singleton_self r
        exact ⟨q, r, hports', hc.joined_old (ha.joined.2 (.inr (.inl ⟨rfl, rfl⟩))),
          hc.interface_old (ha.mem_interface.2 (.inr hr)) fun hr' =>
            ha.not_mem_interface h hr (hrest r hr')⟩
      · rw [hupdate hu]
        exact hc.exists_front hu
    case exists_port =>
      intro b hb hnone
      by_cases hba : b = a
      · exact ⟨p, List.mem_cons_self, by rw [Function.update_self, hba]⟩
      · have hnext : next.agent? b = none := by rw [ha.agent?, if_neg hba, hnone]
        obtain ⟨u, hu, heq⟩ := hc.exists_port hb hnext
        exact ⟨u, List.mem_cons_of_mem p hu, (hupdate hu).trans heq⟩

/-! ### Covered redexes -/

/-- Two agents of one symbol that meet are all agents of a net. Their auxiliary ports are on the
interface. -/
structure Alone (net : Net) (symbol : Symbol) (agents : Side → AgentId) : Prop where
  wellFormed : net.WellFormed
  meets : net.Meets agents
  symbol : ∀ side, ∃ data, net.agent? (agents side) = some data ∧ data.symbol = symbol
  exists_side : ∀ {a}, (net.agent? a).isSome → ∃ side, a = agents side
  mem_interface : ∀ {side k p}, (net.portsOf (agents side))[k + 1]? = some p → p ∈ net.interface

theorem exists_alone {symbol : Symbol} (hsymbol : symbol.hasPrincipal) :
    ∃ net agents, Alone net symbol agents := by
  have h := wellFormed_single symbol
  have hinterface : (single symbol).interface = empty.nextPorts symbol :=
    interface_newAgent wellFormed_empty symbol
  have hlength : (empty.nextPorts symbol).length = symbol.auxArity + 1 := by
    rw [empty.length_nextPorts symbol, Symbol.auxArity_add_one hsymbol]
  obtain ⟨p, others, hports⟩ := List.exists_cons_of_length_eq_add_one hlength
  have hnodup : (p :: others).Nodup := hports ▸ empty.nodup_nextPorts symbol
  have hagent : ∀ a, (single symbol).agent? a = if a = empty.nextAgent then
      some ⟨a, symbol, p :: others⟩ else none := by
    intro a
    rw [← hports]
    exact empty.agent?_newAgent symbol a
  have hfirst : (single symbol).agent? empty.nextAgent =
      some ⟨empty.nextAgent, symbol, p :: others⟩ := by rw [hagent, if_pos rfl]
  have hp : p ∈ (single symbol).interface := by rw [hinterface, hports]; exact List.mem_cons_self
  -- a second agent of the symbol is attached to the principal port of the first one
  obtain ⟨net, b, q, rest, hb⟩ := h.exists_attaches hp hsymbol
  have hleft : net.agent? empty.nextAgent = some ⟨empty.nextAgent, symbol, p :: others⟩ := by
    rw [hb.agent?_old (by rw [hfirst]; rfl), hfirst]
  obtain ⟨agents, hagents, hagents'⟩ : ∃ agents : Side → AgentId,
      agents .left = empty.nextAgent ∧ agents .right = b :=
    ⟨fun side => if side = .left then empty.nextAgent else b, rfl, rfl⟩
  have hports₁ : net.portsOf (agents .left) = p :: others := by rw [hagents, portsOf_eq hleft]
  have hports₂ : net.portsOf (agents .right) = q :: rest := by rw [hagents', hb.portsOf_new]
  refine ⟨net, agents, ⟨hb.wellFormed, ?_, ?_, ?_, ?_⟩⟩
  · refine ⟨p, q, ?_, ?_, hb.joined.2 (.inr (.inl ⟨rfl, rfl⟩))⟩
    · rw [hports₁]
      rfl
    · rw [hports₂]
      rfl
  · rintro (_ | _)
    · exact ⟨_, hagents ▸ hleft, rfl⟩
    · exact ⟨_, hagents' ▸ hb.agent?_new, rfl⟩
  · intro a ha
    by_cases hab : a = b
    · exact ⟨.right, hab.trans hagents'.symm⟩
    · rw [hb.agent?, if_neg hab, hagent] at ha
      by_cases hfirst : a = empty.nextAgent
      · exact ⟨.left, hfirst.trans hagents.symm⟩
      · rw [if_neg hfirst] at ha
        cases ha
  · rintro (_ | _) k r hr
    · rw [hports₁] at hr
      have hmem : r ∈ others := List.mem_of_getElem? hr
      refine hb.mem_interface.2 (.inl ⟨?_, ?_⟩)
      · rw [hinterface, hports]
        exact List.mem_cons_of_mem p hmem
      · rintro rfl
        exact (List.nodup_cons.1 hnodup).1 hmem
    · rw [hports₂] at hr
      exact hb.mem_interface.2 (.inr (List.mem_of_getElem? hr))

/-- A port on the interface of two agents alone is auxiliary. -/
theorem Alone.exists_aux {symbol : Symbol} {agents : Side → AgentId}
    (ha : net.Alone symbol agents) {p : PortId} (hp : p ∈ net.interface) :
    ∃ s, net.slotPort? agents s = some p := by
  have h := ha.wellFormed
  obtain ⟨a, k, hk⟩ := h.port?_isSome_iff.1 (h.isSome_of_mem_interface hp)
  obtain ⟨side, rfl⟩ := ha.exists_side (isSome_agent?_of_getElem? hk)
  cases k with
  | succ k => exact ⟨⟨side, k⟩, hk⟩
  | zero =>
    have hjoined : ∃ q, net.Joined p q := by
      obtain ⟨q, r, hq, hr, hqr⟩ := ha.meets
      cases side with
      | left =>
        obtain rfl := Option.some.inj (hk.symm.trans hq)
        exact ⟨r, hqr⟩
      | right =>
        obtain rfl := Option.some.inj (hk.symm.trans hr)
        exact ⟨q, hqr.symm⟩
    obtain ⟨q, hpq⟩ := hjoined
    exact absurd hp (h.not_mem_interface_of_joined hpq)

end Net

/-- **Every rule has a covered redex**, if it is between two agents of one symbol. -/
theorem Rule.Valid.exists_covers {rule : Rule} (hv : rule.Valid)
    (hself : rule.left = rule.right) :
    ∃ (net : Net) (agents : Side → AgentId) (cover : Slot → AgentId), net.WellFormed ∧
      net.IsRedex rule agents ∧ net.Covers rule agents cover := by
  obtain ⟨net, agents, ha⟩ := Net.exists_alone hv.hasPrincipal_left
  obtain ⟨after, cover, hc⟩ :=
    ha.wellFormed.exists_covering ha.wellFormed.interface_nodup fun _ hp => hp
  have hlive : ∀ side, (net.agent? (agents side)).isSome := by
    intro side
    obtain ⟨data, hdata, -⟩ := ha.symbol side
    rw [hdata]
    rfl
  have hagent : ∀ side, after.agent? (agents side) = net.agent? (agents side) := fun side =>
    hc.agent?_old (hlive side)
  have hports : ∀ side, after.portsOf (agents side) = net.portsOf (agents side) := fun side => by
    rw [Net.portsOf, Net.portsOf, hagent]
  have hslot : ∀ s, after.slotPort? agents s = net.slotPort? agents s := fun s => by
    rw [Net.slotPort?, Net.slotPort?, hports]
  have hr : after.IsRedex rule agents := by
    refine ⟨fun side => ?_, ?_⟩
    · obtain ⟨data, hdata, hsymbol⟩ := ha.symbol side
      refine ⟨data, (hagent side).trans hdata, ?_⟩
      cases side
      · exact hsymbol
      · exact hsymbol.trans hself
    · obtain ⟨p, q, hp, hq, hpq⟩ := ha.meets
      exact ⟨p, q, by rw [hports, hp], by rw [hports, hq], hc.joined_old hpq⟩
  have haux : ∀ {s}, s ∈ rule.slots → ∃ p, net.slotPort? agents s = some p ∧
      p ∈ net.interface := by
    intro s hs
    obtain ⟨p, hp⟩ := Option.isSome_iff_exists.1 ((hr.isSome_slotPort?_iff hc.wellFormed hv).2 hs)
    rw [hslot] at hp
    exact ⟨p, hp, ha.mem_interface hp⟩
  -- the cover of a slot is that of its port
  refine ⟨after, agents, fun s => cover ((net.slotPort? agents s).getD 0), hc.wellFormed, hr, ?_⟩
  constructor
  case slot =>
    intro s hs
    obtain ⟨p, hp, hmem⟩ := haux hs
    obtain ⟨q, r, hfront, hpq, hr'⟩ := hc.exists_front hmem
    refine ⟨p, q, r, (hslot s).trans hp, ?_, hpq, hr'⟩
    rw [hp]
    exact hfront
  case ne =>
    intro s hs side heq
    obtain ⟨p, hp, hmem⟩ := haux hs
    rw [hp] at heq
    exact Net.agent_ne_of_eq_none (hlive side) (hc.fresh hmem) heq.symm
  case exists_slot =>
    intro a hlive' hne
    have hnone : net.agent? a = none := by
      by_contra hsome
      obtain ⟨side, hside⟩ := ha.exists_side (Option.isSome_iff_ne_none.2 hsome)
      exact hne side hside
    obtain ⟨p, hmem, rfl⟩ := hc.exists_port hlive' hnone
    obtain ⟨s, hs⟩ := ha.exists_aux hmem
    refine ⟨s, (hr.isSome_slotPort?_iff hc.wellFormed hv).1 ?_, ?_⟩
    · rw [hslot, hs]
      rfl
    · rw [hs]
      rfl

end InteractionNets
