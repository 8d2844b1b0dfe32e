import InteractionNets.Proofs.Net.WellFormed

/-!
# Primitive operations keep nets well-formed

Each primitive operation on nets is looked at once: when it keeps a net well-formed, which ports
are joined afterwards, and which are free. Making a link needs two free ports that are not on the
interface; dropping an agent needs its ports to be joined to nothing; removing a connection and
making an agent need nothing. All compound operations are put together from these.
-/

namespace InteractionNets

namespace Net

variable {net : Net}

/-- The net without agents is well-formed. -/
theorem wellFormed_empty : empty.WellFormed where
  agent_id h := by simp [agent?, empty] at h
  port_id h := by simp [port?, empty] at h
  connection_id h := by simp [connection?, empty] at h
  arity h := by simp [agent?, empty] at h
  port_of_agent h := by simp [portsOf, agent?, empty] at h
  agent_of_port h := by simp [port?, empty] at h
  ends_ne h := by simp [connection?, empty] at h
  port_of_end h := by simp [connection?, empty] at h
  end_of_link h := by simp [port?, empty] at h
  interface_nodup := List.nodup_nil
  port_of_interface h := by simp [empty] at h

/-! ### The interface and the tally -/

theorem WellFormed.withInterface (h : net.WellFormed) {interface : Interface}
    (hnodup : interface.Nodup) (hfree : ∀ p ∈ interface, net.IsFree p) :
    { net with interface := interface }.WellFormed where
  agent_id := h.agent_id
  port_id := h.port_id
  connection_id := h.connection_id
  arity := h.arity
  port_of_agent := h.port_of_agent
  agent_of_port := h.agent_of_port
  ends_ne := h.ends_ne
  port_of_end := h.port_of_end
  end_of_link := h.end_of_link
  interface_nodup := hnodup
  port_of_interface hp := hfree _ hp

theorem WellFormed.withTally (h : net.WellFormed) (tally : Tally) :
    { net with tally := tally }.WellFormed where
  agent_id := h.agent_id
  port_id := h.port_id
  connection_id := h.connection_id
  arity := h.arity
  port_of_agent := h.port_of_agent
  agent_of_port := h.agent_of_port
  ends_ne := h.ends_ne
  port_of_end := h.port_of_end
  end_of_link := h.end_of_link
  interface_nodup := h.interface_nodup
  port_of_interface := h.port_of_interface

/-! ### Changing links -/

/-- **Links may change on their own.** When agents, ports and the interface are kept and only the
links of ports change, what is left to check are the laws about connections, and that the ports on
the interface stay unconnected. -/
theorem WellFormed.relink (h : net.WellFormed) {after : Net}
    (link : PortId → Option ConnectionId → Option ConnectionId)
    (hagent : ∀ x, after.agent? x = net.agent? x)
    (hport : ∀ p, after.port? p =
      (net.port? p).map fun port => { port with link := link p port.link })
    (hinterface : after.interface = net.interface)
    (hconnection : ∀ {c data}, after.connection? c = some data →
      data.id = c ∧ data.ports.1 ≠ data.ports.2)
    (hend : ∀ {c data p x}, after.connection? c = some data → data.HasEnd p x →
      ∃ port, net.port? p = some port ∧ link p port.link = some c ∧ port.agent = x)
    (hlink : ∀ {p port c}, net.port? p = some port → link p port.link = some c →
      ∃ data, after.connection? c = some data ∧ data.HasEnd p port.agent)
    (hfree : ∀ p ∈ net.interface, link p none = none) : after.WellFormed := by
  have hportsOf : ∀ x, after.portsOf x = net.portsOf x := fun x => by
    rw [portsOf, portsOf, hagent x]
  have hold : ∀ {p port}, after.port? p = some port →
      ∃ old, net.port? p = some old ∧ { old with link := link p old.link } = port := by
    intro p port hp
    rwa [hport, Option.map_eq_some_iff] at hp
  have hnew : ∀ {p old}, net.port? p = some old →
      after.port? p = some { old with link := link p old.link } := by
    intro p old hp
    rw [hport, hp, Option.map_some]
  -- the laws that do not speak of links hold as before
  constructor
  case agent_id =>
    intro x data hx
    rw [hagent] at hx
    exact h.agent_id hx
  case port_id =>
    intro p port hp
    obtain ⟨old, hkept, rfl⟩ := hold hp
    show old.id = p
    exact h.port_id hkept
  case connection_id => exact fun hc => (hconnection hc).1
  case arity =>
    intro x data hx
    rw [hagent] at hx
    exact h.arity hx
  case port_of_agent =>
    intro x p k hk
    rw [hportsOf] at hk
    obtain ⟨old, hp, hplace⟩ := h.port_of_agent hk
    exact ⟨_, hnew hp, hplace⟩
  case agent_of_port =>
    intro p port hp
    obtain ⟨old, hkept, rfl⟩ := hold hp
    rw [hportsOf]
    show (net.portsOf old.agent)[old.position]? = some p
    exact h.agent_of_port hkept
  case ends_ne => exact fun hc => (hconnection hc).2
  case port_of_end =>
    intro c data p x hc hx
    obtain ⟨old, hp, hplace⟩ := hend hc hx
    exact ⟨_, hnew hp, hplace⟩
  case end_of_link =>
    intro p port c hp hc
    obtain ⟨old, hkept, rfl⟩ := hold hp
    show ∃ data, after.connection? c = some data ∧ data.HasEnd p old.agent
    exact hlink hkept hc
  case interface_nodup =>
    rw [hinterface]
    exact h.interface_nodup
  case port_of_interface =>
    intro p hp
    rw [hinterface] at hp
    obtain ⟨old, hport, hunlinked⟩ := h.port_of_interface hp
    refine ⟨_, hnew hport, ?_⟩
    rw [hunlinked]
    exact hfree p hp

/-! ### Making a link -/

section Link

variable {a b : PortId}

@[simp] theorem portsOf_link (net : Net) (a b : PortId) (x : AgentId) :
    (net.link a b).2.portsOf x = net.portsOf x := rfl

theorem ownerOf_eq {p : PortId} {port : Port} (hp : net.port? p = some port) :
    net.ownerOf p = port.agent := by
  simp [ownerOf, hp]

theorem joined_link {p q : PortId} :
    (net.link a b).2.Joined p q ↔ net.Joined p q ∨ (p = a ∧ q = b) ∨ (p = b ∧ q = a) := by
  constructor
  · rintro ⟨c, data, hc, hends⟩
    rw [connection?_link] at hc
    split at hc
    · obtain rfl := Option.some.inj hc
      simp only [linkData, Prod.mk.injEq] at hends
      exact .inr (hends.imp (fun e => ⟨e.1.symm, e.2.symm⟩) fun e => ⟨e.2.symm, e.1.symm⟩)
    · exact .inl ⟨c, data, hc, hends⟩
  · rintro (⟨c, data, hc, hends⟩ | hnew)
    · have hne : c ≠ net.nextConnection := by
        rintro rfl
        simp [connection?_nextConnection] at hc
      exact ⟨c, data, by rwa [connection?_link, if_neg hne], hends⟩
    · refine ⟨net.nextConnection, net.linkData a b, by rw [connection?_link, if_pos rfl], ?_⟩
      rcases hnew with ⟨rfl, rfl⟩ | ⟨rfl, rfl⟩ <;> simp [linkData]

theorem isFree_link {p : PortId} :
    (net.link a b).2.IsFree p ↔ net.IsFree p ∧ p ≠ a ∧ p ≠ b := by
  unfold IsFree
  rw [port?_link]
  split
  · rename_i hp
    constructor
    · rintro ⟨port, hport, hlink⟩
      obtain ⟨old, -, rfl⟩ := Option.map_eq_some_iff.1 hport
      simp at hlink
    · rintro ⟨-, ha, hb⟩
      exact absurd hp (by simp [ha, hb])
  · rename_i hp
    simpa using fun _ _ _ => not_or.1 hp

/-- Two free ports that are not on the interface may be linked. -/
theorem WellFormed.link (h : net.WellFormed) (hne : a ≠ b) (ha : net.IsFree a) (hb : net.IsFree b)
    (hai : a ∉ net.interface) (hbi : b ∉ net.interface) : (net.link a b).2.WellFormed := by
  obtain ⟨portA, hportA, hlinkA⟩ := ha
  obtain ⟨portB, hportB, hlinkB⟩ := hb
  -- no connection of the net is new, so old links are not confused with the new one
  have hnext := net.connection?_nextConnection
  refine h.relink
    (fun p old => if p = a ∨ p = b then some net.nextConnection else old)
    (fun x => rfl) (fun p => ?_) rfl (fun {c data} hc => ?_) (fun {c data p x} hc hend => ?_)
    (fun {p port c} hp hlink => ?_) fun p hp => ?_
  · rw [port?_link]
    split <;> simp
  · rw [connection?_link] at hc
    split at hc
    · rename_i heq
      obtain rfl := Option.some.inj hc
      exact ⟨heq.symm, hne⟩
    · exact ⟨h.connection_id hc, h.ends_ne hc⟩
  · rw [connection?_link] at hc
    split at hc
    · obtain rfl := Option.some.inj hc
      subst c
      rcases hend with ⟨rfl, rfl⟩ | ⟨rfl, rfl⟩
      · exact ⟨_, hportA, if_pos (.inl rfl), (ownerOf_eq hportA).symm⟩
      · exact ⟨_, hportB, if_pos (.inr rfl), (ownerOf_eq hportB).symm⟩
    · obtain ⟨old, hold, hlink, hagent⟩ := h.port_of_end hc hend
      have hab : ¬ (p = a ∨ p = b) := by
        rintro (rfl | rfl) <;> simp_all
      exact ⟨old, hold, by rw [if_neg hab, hlink], hagent⟩
  · split at hlink
    · rename_i hab
      obtain rfl := Option.some.inj hlink
      refine ⟨net.linkData a b, by rw [connection?_link, if_pos rfl], ?_⟩
      rcases hab with rfl | rfl
      · exact .inl ⟨rfl, (ownerOf_eq hp).symm⟩
      · exact .inr ⟨rfl, (ownerOf_eq hp).symm⟩
    · obtain ⟨data, hdata, hend⟩ := h.end_of_link hp hlink
      have hcn : c ≠ net.nextConnection := by
        rintro rfl
        simp_all
      exact ⟨data, by rwa [connection?_link, if_neg hcn], hend⟩
  · refine if_neg ?_
    rintro (rfl | rfl)
    · exact hai hp
    · exact hbi hp

end Link

/-! ### Removing a connection -/

section Unlink

variable {c : ConnectionId} {data : Connection}

@[simp] theorem portsOf_unlink (net : Net) (c : ConnectionId) (x : AgentId) :
    (net.unlink c).portsOf x = net.portsOf x := by
  simp [portsOf]

theorem joined_unlink (h : net.WellFormed) (hc : net.connection? c = some data) {p q : PortId} :
    (net.unlink c).Joined p q ↔ net.Joined p q ∧ p ≠ data.ports.1 ∧ p ≠ data.ports.2 := by
  constructor
  · rintro ⟨d, data', hd, hends⟩
    rw [connection?_unlink] at hd
    split at hd
    · cases hd
    · rename_i hne
      have hlisted : p = data'.ports.1 ∨ p = data'.ports.2 := by
        rcases hends with hends | hends <;> simp [hends]
      refine ⟨⟨d, data', hd, hends⟩, fun hp => ?_, fun hp => ?_⟩
      · exact hne (h.connection_unique hd hlisted hc (.inl hp)).1
      · exact hne (h.connection_unique hd hlisted hc (.inr hp)).1
  · rintro ⟨⟨d, data', hd, hends⟩, hp₁, hp₂⟩
    refine ⟨d, data', ?_, hends⟩
    rw [connection?_unlink, if_neg, hd]
    rintro rfl
    rw [hc] at hd
    obtain rfl := Option.some.inj hd
    rcases hends with hends | hends
    · exact hp₁ (by simp [hends])
    · exact hp₂ (by simp [hends])

theorem isFree_unlink (h : net.WellFormed) (hc : net.connection? c = some data) {p : PortId} :
    (net.unlink c).IsFree p ↔ net.IsFree p ∨ p = data.ports.1 ∨ p = data.ports.2 := by
  unfold IsFree
  rw [port?_unlink hc]
  split
  · rename_i hp
    obtain ⟨port, hport, -⟩ := h.port_of_listed hc hp
    simp [hp, hport]
  · rename_i hp
    simp [hp]

/-- Any connection may be removed. -/
theorem WellFormed.unlink (h : net.WellFormed) (c : ConnectionId) : (net.unlink c).WellFormed := by
  cases hc : net.connection? c with
  | none => rwa [unlink_of_none hc]
  | some data =>
    have hconnection : ∀ {d data'}, (net.unlink c).connection? d = some data' →
        d ≠ c ∧ net.connection? d = some data' := by
      intro d data' hd
      rw [connection?_unlink] at hd
      split at hd
      · cases hd
      · exact ⟨‹_›, hd⟩
    refine h.relink
      (fun p old => if p = data.ports.1 ∨ p = data.ports.2 then none else old)
      (fun x => agent?_unlink net c x) (fun p => ?_) (interface_unlink net c)
      (fun {d data'} hd => ?_) (fun {d data' p x} hd hend => ?_) (fun {p port d} hp hlink => ?_)
      fun p _ => ?_
    · rw [port?_unlink hc]
      split <;> simp
    · exact ⟨h.connection_id (hconnection hd).2, h.ends_ne (hconnection hd).2⟩
    · obtain ⟨hdc, hd⟩ := hconnection hd
      obtain ⟨old, hold, hlink, hagent⟩ := h.port_of_end hd hend
      have hlisted : p = data'.ports.1 ∨ p = data'.ports.2 := hend.imp And.left And.left
      have hp : ¬ (p = data.ports.1 ∨ p = data.ports.2) :=
        fun hp => hdc (h.connection_unique hd hlisted hc hp).1
      exact ⟨old, hold, by rw [if_neg hp, hlink], hagent⟩
    · split at hlink
      · cases hlink
      · rename_i hlisted
        obtain ⟨data', hdata', hend⟩ := h.end_of_link hp hlink
        refine ⟨data', ?_, hend⟩
        rw [connection?_unlink, if_neg, hdata']
        rintro rfl
        rw [hc] at hdata'
        obtain rfl := Option.some.inj hdata'
        exact hlisted (hend.imp And.left And.left)
    · split <;> rfl

end Unlink

/-! ### Making an agent -/

section AllocAgent

variable {symbol : Symbol}

theorem portsOf_allocAgent (a : AgentId) :
    (net.allocAgent symbol).2.portsOf a =
      if a = net.nextAgent then net.nextPorts symbol else net.portsOf a := by
  simp only [portsOf, agent?_allocAgent]
  split <;> rfl

theorem port?_allocAgent_of_some {p : PortId} {port : Port} (hp : net.port? p = some port) :
    (net.allocAgent symbol).2.port? p = some port := by
  rw [port?_allocAgent_old, hp]
  intro hmem
  simp [net.port?_of_mem_nextPorts symbol hmem] at hp

theorem IsFree.allocAgent {p : PortId} (hp : net.IsFree p) :
    (net.allocAgent symbol).2.IsFree p := by
  obtain ⟨port, hport, hlink⟩ := hp
  exact ⟨port, port?_allocAgent_of_some hport, hlink⟩

theorem isFree_of_mem_nextPorts {p : PortId} (hp : p ∈ net.nextPorts symbol) :
    (net.allocAgent symbol).2.IsFree p := by
  obtain ⟨k, hk⟩ := List.mem_iff_getElem?.1 hp
  exact ⟨_, net.port?_allocAgent_new symbol hk, rfl⟩

/-- An agent may always be made. -/
theorem WellFormed.allocAgent (h : net.WellFormed) (symbol : Symbol) :
    (net.allocAgent symbol).2.WellFormed := by
  have hnext : net.portsOf net.nextAgent = [] := portsOf_eq_nil net.agent?_nextAgent
  have hport : ∀ {p port}, (net.allocAgent symbol).2.port? p = some port →
      net.port? p = some port ∨
        ∃ k, (net.nextPorts symbol)[k]? = some p ∧
          port = ⟨p, net.nextAgent, k, k == 0, none⟩ := by
    intro p port hp
    by_cases hmem : p ∈ net.nextPorts symbol
    · obtain ⟨k, hk⟩ := List.mem_iff_getElem?.1 hmem
      rw [net.port?_allocAgent_new symbol hk] at hp
      exact .inr ⟨k, hk, (Option.some.inj hp).symm⟩
    · exact .inl (by rwa [net.port?_allocAgent_old symbol hmem] at hp)
  constructor
  case agent_id =>
    intro a data ha
    rw [agent?_allocAgent] at ha
    split at ha
    · obtain rfl := Option.some.inj ha
      rfl
    · exact h.agent_id ha
  case port_id =>
    intro p port hp
    rcases hport hp with hp | ⟨k, -, rfl⟩
    · exact h.port_id hp
    · rfl
  case connection_id => exact h.connection_id
  case arity =>
    intro a data ha
    rw [agent?_allocAgent] at ha
    split at ha
    · obtain rfl := Option.some.inj ha
      exact net.length_nextPorts symbol
    · exact h.arity ha
  case port_of_agent =>
    intro a p k hk
    rw [portsOf_allocAgent] at hk
    split at hk
    · exact ⟨_, net.port?_allocAgent_new symbol hk, by simp [*], rfl, by simp⟩
    · obtain ⟨port, hport, hrest⟩ := h.port_of_agent hk
      exact ⟨port, port?_allocAgent_of_some hport, hrest⟩
  case agent_of_port =>
    intro p port hp
    rw [portsOf_allocAgent]
    rcases hport hp with hp | ⟨k, hk, rfl⟩
    · have hlisted := h.agent_of_port hp
      split
      · -- the id of the new agent listed no ports before
        rename_i ha
        simp [ha, hnext] at hlisted
      · exact hlisted
    · rwa [if_pos rfl]
  case ends_ne => exact h.ends_ne
  case port_of_end =>
    intro c data p a hc hend
    obtain ⟨port, hport, hrest⟩ := h.port_of_end hc hend
    exact ⟨port, port?_allocAgent_of_some hport, hrest⟩
  case end_of_link =>
    intro p port c hp hlink
    rcases hport hp with hp | ⟨k, -, rfl⟩
    · exact h.end_of_link hp hlink
    · cases hlink
  case interface_nodup => exact h.interface_nodup
  case port_of_interface =>
    intro p hp
    exact IsFree.allocAgent (h.port_of_interface hp)

end AllocAgent

/-! ### Dropping an agent -/

section DropAgent

variable {a : AgentId}

theorem portsOf_dropAgent (a x : AgentId) :
    (net.dropAgent a).portsOf x = if x = a then [] else net.portsOf x := by
  simp only [portsOf, agent?_dropAgent]
  split <;> rfl

theorem isFree_dropAgent {p : PortId} :
    (net.dropAgent a).IsFree p ↔ net.IsFree p ∧ p ∉ net.portsOf a := by
  unfold IsFree
  rw [port?_dropAgent]
  split <;> simp [*]

theorem foldl_erase_eq_filter {l : List PortId} (hl : l.Nodup) (ports : List PortId) :
    ports.foldl List.erase l = l.filter fun p => p ∉ ports := by
  induction ports generalizing l with
  | nil => simp
  | cons p rest ih =>
    rw [List.foldl_cons, ih (hl.erase p), hl.erase_eq_filter, List.filter_filter]
    refine List.filter_congr fun q _ => ?_
    by_cases hq : q = p <;> simp [hq]

/-- An agent may be dropped once its ports are joined to nothing. -/
theorem WellFormed.dropAgent (h : net.WellFormed)
    (hfree : ∀ p ∈ net.portsOf a, ∀ q, ¬ net.Joined p q) : (net.dropAgent a).WellFormed := by
  have hport : ∀ {p port}, (net.dropAgent a).port? p = some port →
      p ∉ net.portsOf a ∧ net.port? p = some port := by
    intro p port hp
    rw [port?_dropAgent] at hp
    split at hp
    · cases hp
    · exact ⟨‹_›, hp⟩
  have hport' : ∀ {p port}, net.port? p = some port → p ∉ net.portsOf a →
      (net.dropAgent a).port? p = some port := by
    intro p port hp hmem
    rwa [port?_dropAgent, if_neg hmem]
  constructor
  case agent_id =>
    intro x data hx
    rw [agent?_dropAgent] at hx
    split at hx
    · cases hx
    · exact h.agent_id hx
  case port_id =>
    intro p port hp
    exact h.port_id (hport hp).2
  case connection_id => exact h.connection_id
  case arity =>
    intro x data hx
    rw [agent?_dropAgent] at hx
    split at hx
    · cases hx
    · exact h.arity hx
  case port_of_agent =>
    intro x p k hk
    rw [portsOf_dropAgent] at hk
    split at hk
    · simp at hk
    · rename_i hne
      obtain ⟨port, hp, hrest⟩ := h.port_of_agent hk
      -- a port is listed by one agent only, so another agent keeps its ports
      refine ⟨port, hport' hp fun hmem => ?_, hrest⟩
      obtain ⟨j, hj⟩ := List.mem_iff_getElem?.1 hmem
      exact hne (h.port_unique hk hj).1
  case agent_of_port =>
    intro p port hp
    obtain ⟨hmem, hp⟩ := hport hp
    have hlisted := h.agent_of_port hp
    rw [portsOf_dropAgent, if_neg]
    · exact hlisted
    · intro ha
      exact hmem (ha ▸ List.mem_of_getElem? hlisted)
  case ends_ne => exact h.ends_ne
  case port_of_end =>
    intro c data p x hc hend
    obtain ⟨port, hp, hrest⟩ := h.port_of_end hc hend
    -- the ends of a connection are joined, so neither of them goes with the agent
    refine ⟨port, hport' hp fun hmem => ?_, hrest⟩
    rcases hend with ⟨rfl, -⟩ | ⟨rfl, -⟩
    · exact hfree _ hmem _ ⟨c, data, hc, .inl rfl⟩
    · exact hfree _ hmem _ ⟨c, data, hc, .inr rfl⟩
  case end_of_link =>
    intro p port c hp hlink
    exact h.end_of_link (hport hp).2 hlink
  case interface_nodup =>
    rw [interface_dropAgent, foldl_erase_eq_filter h.interface_nodup]
    exact h.interface_nodup.filter _
  case port_of_interface =>
    intro p hp
    rw [interface_dropAgent, foldl_erase_eq_filter h.interface_nodup, List.mem_filter] at hp
    exact isFree_dropAgent.2 ⟨h.port_of_interface hp.1, by simpa using hp.2⟩

end DropAgent

/-! ### Making links in a row -/

section LinkAll

variable {pairs : List (PortId × PortId)}

@[simp] theorem portsOf_linkAll (x : AgentId) :
    (linkAll pairs net).portsOf x = net.portsOf x := by
  simp [portsOf]

theorem joined_linkAll {p q : PortId} :
    (linkAll pairs net).Joined p q ↔ net.Joined p q ∨ (p, q) ∈ pairs ∨ (q, p) ∈ pairs := by
  induction pairs generalizing net with
  | nil => simp
  | cons pair rest ih =>
    obtain ⟨a, b⟩ := pair
    rw [linkAll_cons, ih, joined_link]
    simp only [List.mem_cons, Prod.mk.injEq]
    tauto

theorem isFree_linkAll {p : PortId} :
    (linkAll pairs net).IsFree p ↔ net.IsFree p ∧ p ∉ pairEnds pairs := by
  induction pairs generalizing net with
  | nil => simp
  | cons pair rest ih =>
    obtain ⟨a, b⟩ := pair
    rw [linkAll_cons, ih, isFree_link]
    simp only [pairEnds_cons, List.mem_cons]
    tauto

/-- Free ports that are not on the interface may be linked, each of them once. -/
theorem WellFormed.linkAll (h : net.WellFormed) (hnodup : (pairEnds pairs).Nodup)
    (hfree : ∀ p ∈ pairEnds pairs, net.IsFree p ∧ p ∉ net.interface) :
    (linkAll pairs net).WellFormed := by
  induction pairs generalizing net with
  | nil => exact h
  | cons pair rest ih =>
    obtain ⟨a, b⟩ := pair
    obtain ⟨⟨hab, ha⟩, hb, hrest⟩ : (a ≠ b ∧ a ∉ pairEnds rest) ∧ b ∉ pairEnds rest ∧
        (pairEnds rest).Nodup := by simpa using hnodup
    obtain ⟨hfa, hia⟩ := hfree a (by simp)
    obtain ⟨hfb, hib⟩ := hfree b (by simp)
    rw [linkAll_cons]
    refine ih (h.link hab hfa hfb hia hib) hrest fun p hp => ?_
    obtain ⟨hfp, hip⟩ := hfree p (by simp [hp])
    have hpa : p ≠ a := fun e => ha (e ▸ hp)
    have hpb : p ≠ b := fun e => hb (e ▸ hp)
    exact ⟨isFree_link.2 ⟨hfp, hpa, hpb⟩, hip⟩

end LinkAll

end Net

end InteractionNets
