import InteractionNets.Proofs.Net.Edits

/-!
# Taking an agent out

An agent is taken out port by port: the connections of its ports are removed, and then the agent is
dropped with its ports. Removing the connections of some ports cuts a net there
(`Net.IsCutAt`): all other connections stay, and the interface grows by the ends of the removed ones
that were not hidden when they were connected. Such cuts can be made one after another
(`Net.IsCutAt.trans`), so what a whole removal leaves does not depend on how the ports of the agent
are connected among themselves (`Net.WellFormed.exists_isWithout`).
-/

namespace InteractionNets

/-! ### Giving ports back -/

namespace Interface

variable {l : Interface} {p q : PortId} {restore : Restore}

theorem sublist_insertAt (l : Interface) (i : Nat) (p : PortId) : l.Sublist (l.insertAt i p) := by
  have h : (l.take i ++ l.drop i).Sublist (l.insertAt i p) :=
    (List.Sublist.refl _).append ((List.Sublist.refl _).cons p)
  rwa [List.take_append_drop] at h

theorem sublist_releaseUnrecorded (l : Interface) (p : PortId) (restore : Restore) :
    l.Sublist (l.releaseUnrecorded p restore) := by
  cases restore with
  | unrecorded =>
    rw [releaseUnrecorded, push]
    split
    · exact List.Sublist.refl l
    · exact List.sublist_append_left l [p]
  | interface position => exact List.Sublist.refl l
  | hidden => exact List.Sublist.refl l

/-- Ports that are given back are put between those that are there. -/
theorem sublist_release (l : Interface) (ports : PortId × PortId) (restore : Restore × Restore) :
    l.Sublist (l.release ports restore) := by
  have hpushed := (sublist_releaseUnrecorded l ports.1 restore.1).trans
    (sublist_releaseUnrecorded _ ports.2 restore.2)
  unfold release
  split
  · split
    · exact hpushed.trans ((sublist_insertAt _ _ _).trans (sublist_insertAt _ _ _))
    · exact hpushed.trans ((sublist_insertAt _ _ _).trans (sublist_insertAt _ _ _))
  · exact hpushed.trans (sublist_insertAt _ _ _)
  · exact hpushed.trans (sublist_insertAt _ _ _)
  · exact hpushed

/-- A port is given back unless it was hidden. -/
theorem mem_release (ports : PortId × PortId) (restore : Restore × Restore) :
    q ∈ l.release ports restore ↔ q ∈ l ∨ (q = ports.1 ∧ restore.1 ≠ .hidden) ∨
      (q = ports.2 ∧ restore.2 ≠ .hidden) := by
  obtain ⟨r, s⟩ := restore
  unfold release
  cases r <;> cases s
  case interface.interface i j =>
    dsimp only
    split <;> simp [mem_insertAt, mem_releaseUnrecorded] <;> tauto
  all_goals simp [mem_insertAt, mem_releaseUnrecorded] <;> tauto

end Interface

/-- A connection has an end among some ports. -/
def Connection.EndsIn (data : Connection) (ports : List PortId) : Prop :=
  data.ports.1 ∈ ports ∨ data.ports.2 ∈ ports

instance (data : Connection) (ports : List PortId) : Decidable (data.EndsIn ports) :=
  inferInstanceAs (Decidable (_ ∨ _))

theorem Connection.endsIn_of_mem {data : Connection} {ports : List PortId} {p : PortId}
    (hend : p = data.ports.1 ∨ p = data.ports.2) (hp : p ∈ ports) : data.EndsIn ports := by
  rcases hend with rfl | rfl
  · exact .inl hp
  · exact .inr hp

/-- A connection gives a port to the interface when it is removed: one of its ends, unless that was
hidden when it was connected. -/
def Connection.Releases (data : Connection) (p : PortId) : Prop :=
  (p = data.ports.1 ∧ data.restore.1 ≠ .hidden) ∨ (p = data.ports.2 ∧ data.restore.2 ≠ .hidden)

namespace Net

variable {net mid after : Net} {a : AgentId} {p q : PortId} {c : ConnectionId} {data : Connection}
  {ports ports' : List PortId}

/-! ### Cutting a net -/

/-- The connections with ends among some ports are removed from a net. All other connections stay,
and a port is left as it is but for a link to a removed connection. -/
structure IsCutAt (net : Net) (ports : List PortId) (after : Net) : Prop where
  wellFormed : after.WellFormed
  agents : after.agents = net.agents
  tally : after.tally = net.tally
  connection?_eq : ∀ c,
    after.connection? c = (net.connection? c).filter fun data => ¬ data.EndsIn ports
  port?_eq : ∀ p, after.port? p = (net.port? p).map fun port =>
    { port with link := port.link.filter fun c => (after.connection? c).isSome }
  sublist_interface : net.interface.Sublist after.interface
  mem_interface_iff : ∀ p, p ∈ after.interface ↔ p ∈ net.interface ∨
    ∃ c data, net.connection? c = some data ∧ data.EndsIn ports ∧ data.Releases p

/-- A net in which no connection has an end among the ports is cut already. -/
theorem WellFormed.isCutAt_self (h : net.WellFormed)
    (hports : ∀ {c data}, net.connection? c = some data → ¬ data.EndsIn ports) :
    net.IsCutAt ports net where
  wellFormed := h
  agents := rfl
  tally := rfl
  connection?_eq c := by
    cases hc : net.connection? c with
    | none => rfl
    | some data => simp [hports hc, Option.filter_some]
  port?_eq p := by
    cases hp : net.port? p with
    | none => rfl
    | some port =>
      obtain ⟨id, agent, position, principal, link⟩ := port
      cases link with
      | none => rfl
      | some c =>
        obtain ⟨data, hc, -⟩ := h.end_of_link hp rfl
        simp [hc, Option.filter_some]
  sublist_interface := List.Sublist.refl _
  mem_interface_iff p := by
    refine (or_iff_left ?_).symm
    rintro ⟨c, data, hc, hends, -⟩
    exact hports hc hends

/-- A connection is removed by a cut at one of its ends. -/
theorem WellFormed.isCutAt_separate (h : net.WellFormed) (hc : net.connection? c = some data)
    (hp : p = data.ports.1 ∨ p = data.ports.2) : net.IsCutAt [p] (net.separate c data) := by
  have hends : ∀ {d other}, net.connection? d = some other → (other.EndsIn [p] ↔ d = c) := by
    intro d other hd
    rw [Connection.EndsIn, List.mem_singleton, List.mem_singleton]
    constructor
    · intro hother
      exact (h.connection_unique hd (hother.imp Eq.symm Eq.symm) hc hp).1
    · rintro rfl
      obtain rfl := Option.some.inj (hc.symm.trans hd)
      exact hp.imp Eq.symm Eq.symm
  have hconnection : ∀ d, (net.separate c data).connection? d =
      if d = c then none else net.connection? d := connection?_unlink net c
  have hinterface : (net.separate c data).interface =
      net.interface.release data.ports data.restore := by
    rw [← interface_unlink net c]
    rfl
  refine ⟨h.separate hc, agents_unlink net c, tally_unlink net c, fun d => ?_, fun q => ?_, ?_,
    fun q => ?_⟩
  · rw [hconnection]
    cases hd : net.connection? d with
    | none => simp
    | some other => simp [hends hd, Option.filter_some]
  · have hport : (net.separate c data).port? q = if q = data.ports.1 ∨ q = data.ports.2 then
        (net.port? q).map fun port => { port with link := none } else net.port? q :=
      port?_unlink hc q
    rw [hport]
    -- an end loses the link to the connection, and no other port has that link
    split
    · next hq =>
      obtain ⟨port, hq, hlink⟩ := h.port_of_listed hc hq
      simp [hq, hlink, hconnection, Option.filter_some]
    · next hq =>
      cases hport : net.port? q with
      | none => rfl
      | some port =>
        obtain ⟨id, agent, position, principal, link⟩ := port
        cases link with
        | none => rfl
        | some d =>
          obtain ⟨other, hd, hend⟩ := h.end_of_link hport rfl
          have hne : d ≠ c := by
            rintro rfl
            obtain rfl := Option.some.inj (hc.symm.trans hd)
            exact hq (hend.imp And.left And.left)
          simp [hconnection, hne, hd, Option.filter_some]
  · rw [hinterface]
    exact Interface.sublist_release _ _ _
  · rw [hinterface]
    refine (Interface.mem_release _ _).trans (or_congr_right ?_)
    constructor
    · intro hq
      exact ⟨c, data, hc, (hends hc).2 rfl, hq⟩
    · rintro ⟨d, other, hd, hother, hq⟩
      obtain rfl := (hends hd).1 hother
      obtain rfl := Option.some.inj (hc.symm.trans hd)
      exact hq

/-- **Cuts** can be made one after another. -/
theorem IsCutAt.trans (h : net.IsCutAt ports mid) (h' : mid.IsCutAt ports' after) :
    net.IsCutAt (ports ++ ports') after := by
  have hends : ∀ data : Connection, data.EndsIn (ports ++ ports') ↔
      data.EndsIn ports ∨ data.EndsIn ports' := by
    intro data
    simp only [Connection.EndsIn, List.mem_append]
    exact or_or_or_comm
  have hmid : ∀ {c data}, mid.connection? c = some data ↔
      net.connection? c = some data ∧ ¬ data.EndsIn ports := by
    intro c data
    rw [h.connection?_eq, Option.filter_eq_some_iff, decide_eq_true_eq]
  refine ⟨h'.wellFormed, h'.agents.trans h.agents, h'.tally.trans h.tally, fun c => ?_,
    fun p => ?_, h.sublist_interface.trans h'.sublist_interface, fun p => ?_⟩
  · rw [h'.connection?_eq, h.connection?_eq, Option.filter_filter]
    congr 1
    funext data
    simp [hends, not_or]
  · rw [h'.port?_eq, h.port?_eq, Option.map_map]
    congr 1
    funext port
    simp only [Function.comp_apply, Option.filter_filter]
    congr 2
    funext c
    cases hc : after.connection? c with
    | none => simp
    | some data =>
      rw [h'.connection?_eq, Option.filter_eq_some_iff] at hc
      simp [hc.1]
  · rw [h'.mem_interface_iff, h.mem_interface_iff, or_assoc]
    refine or_congr_right ⟨?_, ?_⟩
    · rintro (⟨c, data, hc, hdata, hp⟩ | ⟨c, data, hc, hdata, hp⟩)
      · exact ⟨c, data, hc, (hends data).2 (.inl hdata), hp⟩
      · exact ⟨c, data, (hmid.1 hc).1, (hends data).2 (.inr hdata), hp⟩
    · rintro ⟨c, data, hc, hdata, hp⟩
      by_cases hfirst : data.EndsIn ports
      · exact .inl ⟨c, data, hc, hfirst, hp⟩
      · exact .inr ⟨c, data, hmid.2 ⟨hc, hfirst⟩, ((hends data).1 hdata).resolve_left hfirst, hp⟩

/-- The connections of some ports can be removed one after another. -/
theorem WellFormed.exists_isCutAt (h : net.WellFormed) (ports : List PortId) :
    ∃ after, (disconnectPorts ports).run net = (.ok (), after) ∧ net.IsCutAt ports after := by
  induction ports generalizing net with
  | nil => exact ⟨net, rfl, h.isCutAt_self fun _ => by simp [Connection.EndsIn]⟩
  | cons p rest ih =>
    rw [disconnectPorts, Edit.run_bind, Edit.run_look]
    cases hlink : net.linkOf? p with
    | none =>
      have hself : net.IsCutAt [p] net := by
        refine h.isCutAt_self fun {c data} hc hends => ?_
        have hp : p = data.ports.1 ∨ p = data.ports.2 := by
          simpa [Connection.EndsIn, eq_comm] using hends
        rw [h.linkOf?_eq_some_iff.2 ⟨data, hc, hp⟩] at hlink
        cases hlink
      obtain ⟨after, hrun, hcut⟩ := ih h
      exact ⟨after, hrun, hself.trans hcut⟩
    | some c =>
      obtain ⟨data, hc, hp⟩ := h.linkOf?_eq_some_iff.1 hlink
      obtain ⟨after, hrun, hcut⟩ := ih (h.separate hc)
      refine ⟨after, ?_, (h.isCutAt_separate hc hp).trans hcut⟩
      rw [← hrun]
      show ((disconnect c) >>= fun _ => disconnectPorts rest).run net = _
      rw [Edit.run_bind, run_disconnect_of_some hc]

/-! ### Dropping the agent -/

/-- The connection of a port has a record that the port was hidden when it was connected. -/
def IsHiddenEnd (net : Net) (p : PortId) : Prop :=
  ∃ c data, net.connection? c = some data ∧
    ((p = data.ports.1 ∧ data.restore.1 = .hidden) ∨ (p = data.ports.2 ∧ data.restore.2 = .hidden))

/-- An agent is taken out of a net: it is gone with its ports and exactly the connections that touch
it. A port of another agent that was joined to it is unconnected, and it is on the interface unless
it was hidden when it was connected. Everything else is as it was, under its id, and what was on the
interface is there in the same order. -/
structure IsWithout (net : Net) (a : AgentId) (after : Net) : Prop where
  wellFormed : after.WellFormed
  tally : after.tally = net.tally
  agent?_eq : ∀ b, after.agent? b = if b = a then none else net.agent? b
  connection?_eq : ∀ c, after.connection? c =
    (net.connection? c).filter fun data => ¬ data.EndsIn (net.portsOf a)
  port?_own : ∀ p ∈ net.portsOf a, after.port? p = none
  port?_peer : ∀ p ∉ net.portsOf a, ∀ q ∈ net.portsOf a, net.Joined p q →
    after.port? p = (net.port? p).map fun port => { port with link := none }
  port?_other : ∀ p ∉ net.portsOf a, (∀ q ∈ net.portsOf a, ¬ net.Joined p q) →
    after.port? p = net.port? p
  mem_interface_iff : ∀ p, p ∈ after.interface ↔ p ∉ net.portsOf a ∧
    (p ∈ net.interface ∨ ∃ q ∈ net.portsOf a, net.Joined p q ∧ ¬ net.IsHiddenEnd p)
  sublist_interface : (net.interface.filter fun p => p ∉ net.portsOf a).Sublist after.interface

/-- Joined ports are the ends of a connection. -/
theorem Joined.exists_ends (h : net.Joined p q) : ∃ c data, net.connection? c = some data ∧
    (p = data.ports.1 ∨ p = data.ports.2) ∧ (q = data.ports.1 ∨ q = data.ports.2) := by
  obtain ⟨c, data, hc, hends | hends⟩ := h
  · exact ⟨c, data, hc, .inl (by rw [hends]), .inr (by rw [hends])⟩
  · exact ⟨c, data, hc, .inr (by rw [hends]), .inl (by rw [hends])⟩

/-- A port that is not among some ports is joined to one of them when its connection has an end
there. -/
theorem WellFormed.endsIn_iff (h : net.WellFormed) (hc : net.connection? c = some data)
    (hp : p = data.ports.1 ∨ p = data.ports.2) (hnot : p ∉ ports) :
    data.EndsIn ports ↔ ∃ q ∈ ports, net.Joined p q := by
  constructor
  · rintro (hfirst | hsecond)
    · have hp' : p = data.ports.2 := hp.resolve_left fun heq => hnot (heq ▸ hfirst)
      exact ⟨_, hfirst, c, data, hc, .inr (Prod.ext rfl hp'.symm)⟩
    · have hp' : p = data.ports.1 := hp.resolve_right fun heq => hnot (heq ▸ hsecond)
      exact ⟨_, hsecond, c, data, hc, .inl (Prod.ext hp'.symm rfl)⟩
  · rintro ⟨q, hq, hpq⟩
    obtain ⟨d, other, hd, hp', hq'⟩ := hpq.exists_ends
    obtain ⟨rfl, rfl⟩ := h.connection_unique hc hp hd hp'
    exact Connection.endsIn_of_mem hq' hq

/-- The ends of a connection go to the interface but for those that were hidden. -/
theorem WellFormed.releases_iff (h : net.WellFormed) (hc : net.connection? c = some data) :
    data.Releases p ↔ (p = data.ports.1 ∨ p = data.ports.2) ∧ ¬ net.IsHiddenEnd p := by
  have hne := h.ends_ne hc
  have hhidden : (p = data.ports.1 ∨ p = data.ports.2) → (net.IsHiddenEnd p ↔
      (p = data.ports.1 ∧ data.restore.1 = .hidden) ∨
        (p = data.ports.2 ∧ data.restore.2 = .hidden)) := by
    intro hp
    constructor
    · rintro ⟨d, other, hd, hends⟩
      obtain ⟨-, rfl⟩ := h.connection_unique hc hp hd (hends.imp And.left And.left)
      exact hends
    · exact fun hends => ⟨c, data, hc, hends⟩
  constructor
  · intro hreleased
    have hp := hreleased.imp And.left And.left
    refine ⟨hp, fun hend => ?_⟩
    rcases (hhidden hp).1 hend with ⟨rfl, hfirst⟩ | ⟨rfl, hsecond⟩
    · rcases hreleased with ⟨-, hnot⟩ | ⟨heq, -⟩
      · exact hnot hfirst
      · exact hne heq
    · rcases hreleased with ⟨heq, -⟩ | ⟨-, hnot⟩
      · exact hne heq.symm
      · exact hnot hsecond
  · rintro ⟨hp, hnot⟩
    rw [hhidden hp, not_or, not_and, not_and] at hnot
    exact hp.imp (fun heq => ⟨heq, hnot.1 heq⟩) fun heq => ⟨heq, hnot.2 heq⟩

/-- Dropping an agent of a net that is cut at its ports takes the agent out. -/
theorem IsCutAt.isWithout (h : net.WellFormed) (hcut : net.IsCutAt (net.portsOf a) mid) :
    net.IsWithout a (mid.dropAgent a) := by
  have hports : mid.portsOf a = net.portsOf a := by
    rw [portsOf, portsOf, agent?, agent?, hcut.agents]
  have hconnection : ∀ {c data}, mid.connection? c = some data ↔
      net.connection? c = some data ∧ ¬ data.EndsIn (net.portsOf a) := by
    intro c data
    rw [hcut.connection?_eq, Option.filter_eq_some_iff, decide_eq_true_eq]
  -- the connections that are left have no end among the ports of the agent
  have hloose : ∀ p ∈ mid.portsOf a, ∀ q, ¬ mid.Joined p q := by
    intro p hp q hpq
    obtain ⟨c, data, hc, hend, -⟩ := hpq.exists_ends
    rw [hports] at hp
    exact (hconnection.1 hc).2 (Connection.endsIn_of_mem hend hp)
  have hport : ∀ p ∉ net.portsOf a, (mid.dropAgent a).port? p = mid.port? p := by
    intro p hp
    rw [port?_dropAgent, hports, if_neg hp]
  refine ⟨hcut.wellFormed.dropAgent hloose, ?_, fun b => ?_, hcut.connection?_eq, fun p hp => ?_,
    fun p hp q hq hpq => ?_, fun p hp hnone => ?_, fun p => ?_, ?_⟩
  · rw [tally_dropAgent, hcut.tally]
  · rw [agent?_dropAgent, agent?, hcut.agents]
    rfl
  · rw [port?_dropAgent, hports, if_pos hp]
  · rw [hport p hp, hcut.port?_eq]
    obtain ⟨c, data, hc, hend, -⟩ := hpq.exists_ends
    obtain ⟨port, hport, hlink⟩ := h.port_of_listed hc hend
    have hgone : mid.connection? c = none := by
      have hin := (h.endsIn_iff hc hend hp).2 ⟨q, hq, hpq⟩
      simp [hcut.connection?_eq, hc, hin, Option.filter_some]
    simp [hport, hlink, hgone, Option.filter_some]
  · rw [hport p hp, hcut.port?_eq]
    cases hrecord : net.port? p with
    | none => rfl
    | some port =>
      obtain ⟨id, agent, position, principal, link⟩ := port
      cases link with
      | none => rfl
      | some c =>
        obtain ⟨data, hc, hend⟩ := h.end_of_link hrecord rfl
        have hkept : mid.connection? c = some data := by
          refine hconnection.2 ⟨hc, fun hin => ?_⟩
          obtain ⟨q, hq, hpq⟩ := (h.endsIn_iff hc (hend.imp And.left And.left) hp).1 hin
          exact hnone q hq hpq
        simp [hkept, Option.filter_some]
  · rw [interface_dropAgent, hports, foldl_erase_eq_filter hcut.wellFormed.interface_nodup,
      List.mem_filter, hcut.mem_interface_iff, decide_eq_true_eq, and_comm]
    refine and_congr_right fun hp => or_congr_right ?_
    constructor
    · rintro ⟨c, data, hc, hin, hreleased⟩
      obtain ⟨hend, hnot⟩ := (h.releases_iff hc).1 hreleased
      obtain ⟨q, hq, hpq⟩ := (h.endsIn_iff hc hend hp).1 hin
      exact ⟨q, hq, hpq, hnot⟩
    · rintro ⟨q, hq, hpq, hnot⟩
      obtain ⟨c, data, hc, hend, -⟩ := hpq.exists_ends
      exact ⟨c, data, hc, (h.endsIn_iff hc hend hp).2 ⟨q, hq, hpq⟩,
        (h.releases_iff hc).2 ⟨hend, hnot⟩⟩
  · rw [interface_dropAgent, hports, foldl_erase_eq_filter hcut.wellFormed.interface_nodup]
    exact hcut.sublist_interface.filter _

/-- An agent can be taken out. -/
theorem WellFormed.exists_isWithout (h : net.WellFormed) {agent : Agent}
    (ha : net.agent? a = some agent) :
    ∃ after, (removeAgent a).run net = (.ok agent.symbol, after) ∧ net.IsWithout a after := by
  obtain ⟨mid, hrun, hcut⟩ := h.exists_isCutAt agent.ports
  refine ⟨mid.dropAgent a, ?_, IsCutAt.isWithout h (portsOf_eq ha ▸ hcut)⟩
  rw [removeAgent, Edit.run_bind, Edit.run_look, ha]
  show (disconnectPorts agent.ports >>= fun _ => _).run net = _
  rw [Edit.run_bind, hrun]
  rfl

theorem WellFormed.run_removeAgent (h : net.WellFormed) (a : AgentId) :
    ((removeAgent a).run net).2.WellFormed := by
  cases ha : net.agent? a with
  | none =>
    rw [removeAgent, Edit.run_bind, Edit.run_look, ha]
    exact h
  | some agent =>
    obtain ⟨after, hrun, hafter⟩ := h.exists_isWithout ha
    rw [hrun]
    exact hafter.wellFormed

end Net

end InteractionNets
