import InteractionNets.Proofs.Net.Lookup
import InteractionNets.Proofs.Net.Walk
import InteractionNets.Proofs.Term.Cells

/-!
# Writing agents

Writing the term of an agent writes other agents on the way, marks them as written and gives names
to connections (`Net.Grows`). Because no agent is written twice, trees stand inside each other no
deeper than there are agents that are not written yet, and from that depth on the term is what is
seen of the agent (`Net.writesAgents`).
-/

namespace InteractionNets

namespace Net

variable {net : Net} {w w' w'' : InteractionNets.Written} {agents agents' : List Agent} {p : PortId}
  {a : AgentId} {fuel : Nat}

/-! ### What is written so far -/

/-- What is written so far are different agents of a net and different connections. -/
structure Tidy (net : Net) (w : InteractionNets.Written) : Prop where
  nodup_agents : w.agents.Nodup
  live : ∀ a ∈ w.agents, (net.agent? a).isSome
  nodup_names : w.names.Nodup

/-- Some agents are written, and connections get names. -/
structure Grows (net : Net) (w w' : InteractionNets.Written) (agents : List Agent) : Prop where
  tidy : net.Tidy w'
  perm : w'.agents.Perm (agents.map Agent.id ++ w.agents)
  live : ∀ data ∈ agents, net.agent? data.id = some data
  names : w.names <+: w'.names

theorem tidy_nothing (net : Net) : net.Tidy .nothing :=
  ⟨.nil, List.forall_mem_nil _, .nil⟩

theorem Tidy.length_le (h : net.Tidy w) : w.agents.length ≤ net.agents.size :=
  net.agents.length_le_size h.nodup_agents h.live

/-- An agent that is not written yet can be. -/
theorem Tidy.agent (h : net.Tidy w) {data : Agent} (hdata : net.agent? data.id = some data)
    (hnew : data.id ∉ w.agents) : net.Grows w (w.agent data.id) [data] where
  tidy := ⟨List.nodup_cons.2 ⟨hnew, h.nodup_agents⟩,
    List.forall_mem_cons.2 ⟨by rw [hdata]; rfl, h.live⟩, h.nodup_names⟩
  perm := .refl _
  live := List.forall_mem_singleton.2 hdata
  names := List.prefix_rfl

/-- The name of a connection. -/
theorem Tidy.name (h : net.Tidy w) (c : ConnectionId) :
    net.Grows w (w.name c).2 [] ∧ (w.name c).2.names[(w.name c).1]? = some c := by
  have hsame : net.Grows w w [] := ⟨h, .refl _, List.forall_mem_nil _, List.prefix_rfl⟩
  unfold Written.name
  split
  · rename_i n hn
    obtain ⟨hlt, hget, -⟩ := List.idxOf?_eq_some_iff.1 hn
    exact ⟨hsame, List.getElem?_eq_some_iff.2 ⟨hlt, hget⟩⟩
  · rename_i hnone
    have hnew : c ∉ w.names := List.idxOf?_eq_none_iff.1 hnone
    refine ⟨⟨⟨h.nodup_agents, h.live, ?_⟩, .refl _, List.forall_mem_nil _,
      List.prefix_append _ _⟩, List.getElem?_concat_length⟩
    exact List.concat_eq_append ▸ h.nodup_names.concat hnew

namespace Grows

theorem refl (h : net.Tidy w) : net.Grows w w [] :=
  ⟨h, .refl _, List.forall_mem_nil _, List.prefix_rfl⟩

theorem trans (h : net.Grows w w' agents) (h' : net.Grows w' w'' agents') :
    net.Grows w w'' (agents ++ agents') where
  tidy := h'.tidy
  perm := by
    rw [List.map_append, List.append_assoc]
    exact h'.perm.trans ((h.perm.append_left _).trans (List.perm_append_comm_assoc _ _ _))
  live := List.forall_mem_append.2 ⟨h.live, h'.live⟩
  names := h.names.trans h'.names

theorem mem_iff (h : net.Grows w w' agents) :
    a ∈ w'.agents ↔ a ∈ agents.map Agent.id ∨ a ∈ w.agents := by
  rw [h.perm.mem_iff, List.mem_append]

theorem mono (h : net.Grows w w' agents) (ha : a ∈ w.agents) : a ∈ w'.agents :=
  h.mem_iff.2 (.inr ha)

theorem length_le (h : net.Grows w w' agents) : w.agents.length ≤ w'.agents.length := by
  rw [h.perm.length_eq, List.length_append]
  exact Nat.le_add_left _ _

end Grows

/-- Something is written, and some agents for it, and from some depth on it does not depend on the
depth. -/
structure Yields {α : Type} (net : Net) (fuel : Nat)
    (run : Nat → InteractionNets.Written → α × InteractionNets.Written)
    (w : InteractionNets.Written) (agents : List Agent) (result : α)
    (after : InteractionNets.Written) : Prop where
  grows : net.Grows w after agents
  run_eq : ∀ depth, fuel ≤ depth → run depth w = (result, after)

/-! ### Looking out of a port -/

theorem ends_freeTerm {names : List ConnectionId} (hp : net.IsFree p) :
    Ends net names p (net.freeTerm p) := by
  unfold freeTerm
  split
  · rename_i i hi
    obtain ⟨hlt, hget, -⟩ := List.idxOf?_eq_some_iff.1 hi
    exact .free (List.getElem?_eq_some_iff.2 ⟨hlt, hget⟩)
  · rename_i hnone
    exact .hidden ⟨hp, List.idxOf?_eq_none_iff.1 hnone⟩

/-- The terms of agents are what is seen of them, as long as no more agents than some depth are not
written yet. -/
def WritesAgents (net : Net) (fuel : Nat) : Prop :=
  ∀ {w : InteractionNets.Written} {data : Agent}, net.Tidy w → net.agent? data.id = some data →
    net.agents.size < fuel + w.agents.length → ∃ args agents after,
      net.Yields fuel (fun depth => net.agentTerm depth data.id) w agents
        (.agent data.symbol.name args) after ∧
      ∀ path, ∃ marked, Shows net after.names path 0 data.auxiliary args agents marked

section LookOut

variable (h : net.WellFormed)

include h

/-- Nothing is stored about the other end of a port that is free. -/
theorem isFree_of_peerPort?_eq_none (hp : (net.port? p).isSome) (hpeer : net.peerPort? p = none) :
    net.IsFree p := by
  refine h.isFree_iff.2 ⟨hp, fun q hpq => ?_⟩
  obtain ⟨b, j, hq⟩ := h.port?_isSome_iff.1 (h.isSome_of_joined hpq.symm)
  rw [h.peerPort?_eq hpq hq] at hpeer
  cases hpeer

/-- When no agent is written for a port, something else is. -/
theorem exists_lookOut_ends (hw : net.Tidy w) (hp : (net.port? p).isSome)
    (hpair : ∀ q, net.Joined p q → ¬ (net.isPrincipal p ∧ net.isPrincipal q))
    (hwritten : ∀ peer, net.peerPort? p = some peer → peer.principal → peer.agent ∈ w.agents) :
    ∃ term after, net.Grows w after [] ∧ Ends net after.names p term ∧
      ∀ descend, net.lookOut descend p w = (term, after) := by
  cases hpeer : net.peerPort? p with
  | none =>
    refine ⟨net.freeTerm p, w, .refl hw,
      ends_freeTerm (isFree_of_peerPort?_eq_none h hp hpeer), fun descend => ?_⟩
    simp only [lookOut, hpeer]
  | some peer =>
    obtain ⟨q, hpq, -⟩ := h.joined_of_peerPort? hpeer
    obtain ⟨port, hport, hlinked⟩ := h.port_of_joined hpq
    obtain ⟨c, hc⟩ := Option.isSome_iff_exists.1 hlinked
    have hlink : net.linkOf? p = some c := by rw [linkOf?, hport, Option.bind_some, hc]
    have hnot : (peer.principal && !w.agents.contains peer.agent) = false := by
      cases hprincipal : peer.principal with
      | false => rfl
      | true => simpa using hwritten peer hpeer hprincipal
    obtain ⟨hgrows, hname⟩ := hw.name c
    refine ⟨.variable (w.name c).1, (w.name c).2, hgrows, .named hlink hname hpair,
      fun descend => ?_⟩
    simp only [lookOut, hpeer, hnot, hlink, Bool.false_eq_true, if_false]

/-- What is stored about the other end of a port, when that is a principal port. -/
theorem exists_agent_of_peerPort? {peer : Port} (hpeer : net.peerPort? p = some peer)
    (hprincipal : peer.principal) : ∃ data q aux, net.agent? data.id = some data ∧
      data.id = peer.agent ∧ data.ports = q :: aux ∧ net.Joined p q := by
  obtain ⟨q, hpq, hq⟩ := h.joined_of_peerPort? hpeer
  obtain ⟨data, hdata⟩ := Option.isSome_iff_exists.1 (isSome_agent?_of_getElem? hq)
  have hid := h.agent_id hdata
  have hrecord := hpeer.symm.trans (h.peerPort?_eq hpq hq)
  have hfirst : peer.position = 0 := by
    rw [Option.some.inj hrecord] at hprincipal
    exact eq_of_beq hprincipal
  rw [hfirst, getElem?_portsOf_zero hdata] at hq
  obtain ⟨aux, haux⟩ := List.head?_eq_some_iff.1 hq
  exact ⟨data, q, aux, hid ▸ hdata, hid, haux, hpq⟩

/-- What is written for an auxiliary port. -/
theorem exists_lookOut (hbelow : net.WritesAgents fuel) (hw : net.Tidy w)
    (hsize : net.agents.size ≤ fuel + w.agents.length) (hp : (net.port? p).isSome)
    (haux : net.isPrincipal p = false) : ∃ term agents after,
      net.Yields fuel (fun depth => net.lookOut (net.agentTerm depth) p) w agents term after ∧
      ∀ {names path k ports terms agents' marked'}, after.names <+: names →
        Shows net names path (k + 1) ports terms agents' marked' →
        ∃ marked,
          Shows net names path k (p :: ports) (term :: terms) (agents ++ agents') marked := by
  by_cases hnew : ∃ peer, net.peerPort? p = some peer ∧ peer.principal ∧ peer.agent ∉ w.agents
  · obtain ⟨peer, hpeer, hprincipal, hnew⟩ := hnew
    obtain ⟨data, q, aux, hdata, hid, hports, hpq⟩ :=
      exists_agent_of_peerPort? h hpeer hprincipal
    rw [← hid] at hnew
    have hfirst := hw.agent hdata hnew
    -- the agent at the other end is marked first, so one agent less is left for the next level
    obtain ⟨args, agents, after, hyields, hshows⟩ := hbelow hfirst.tidy hdata (by
      rw [Written.agent, List.length_cons]
      omega)
    refine ⟨.agent data.symbol.name args, data :: agents, after,
      ⟨hfirst.trans hyields.grows, fun depth hdepth => ?_⟩, fun hnames hrest => ?_⟩
    · have hcond : (peer.principal && !w.agents.contains data.id) = true := by
        simp [hprincipal, hnew]
      simp only [lookOut, hpeer, ← hid, hcond, if_true, hyields.run_eq depth hdepth]
    · obtain ⟨under, hunder⟩ := hshows (_ :: _)
      rw [Agent.auxiliary, hports, List.tail_cons] at hunder
      exact ⟨_, .agent hdata hports hpq haux (hunder.mono hnames) hrest⟩
  · have hpair : ∀ q, net.Joined p q → ¬ (net.isPrincipal p ∧ net.isPrincipal q) := by
      simp [haux]
    obtain ⟨term, after, hgrows, hends, hrun⟩ := exists_lookOut_ends h hw hp hpair
      fun peer hpeer hprincipal => by_contra fun hmem => hnew ⟨peer, hpeer, hprincipal, hmem⟩
    exact ⟨term, [], after, ⟨hgrows, fun depth _ => hrun _⟩,
      fun hnames hrest => ⟨_, .ends (hends.mono hnames) hrest⟩⟩

/-- What is written for some auxiliary ports. -/
theorem exists_lookOutAll (hbelow : net.WritesAgents fuel) {ports : List PortId}
    (hw : net.Tidy w) (hsize : net.agents.size ≤ fuel + w.agents.length)
    (hports : ∀ p ∈ ports, (net.port? p).isSome ∧ net.isPrincipal p = false) :
    ∃ terms agents after,
      net.Yields fuel (fun depth => lookOutAll (net.lookOut (net.agentTerm depth)) ports) w agents
        terms after ∧
      ∀ path k, ∃ marked, Shows net after.names path k ports terms agents marked := by
  induction ports generalizing w with
  | nil => exact ⟨[], [], w, ⟨.refl hw, fun _ _ => rfl⟩, fun _ _ => ⟨[], .nil⟩⟩
  | cons p ports ih =>
    obtain ⟨hp, hrest⟩ := List.forall_mem_cons.1 hports
    obtain ⟨term, agents, mid, hfirst, hshow⟩ := exists_lookOut h hbelow hw hsize hp.1 hp.2
    have hlength := hfirst.grows.length_le
    obtain ⟨terms, agents', after, hlast, hshows⟩ :=
      ih hfirst.grows.tidy (by omega) hrest
    refine ⟨term :: terms, agents ++ agents', after,
      ⟨hfirst.grows.trans hlast.grows, fun depth hdepth => ?_⟩, fun path k => ?_⟩
    · simp only [lookOutAll, hfirst.run_eq depth hdepth, hlast.run_eq depth hdepth]
    · obtain ⟨marked, hmarked⟩ := hshows path (k + 1)
      exact hshow hlast.grows.names hmarked

theorem isPrincipal_of_mem_auxiliary {data : Agent} (hdata : net.agent? data.id = some data)
    (hp : p ∈ data.auxiliary) : (net.port? p).isSome ∧ net.isPrincipal p = false := by
  obtain ⟨k, hk⟩ := List.mem_iff_getElem?.1 hp
  rw [Agent.auxiliary, List.getElem?_tail] at hk
  have hat : (net.portsOf data.id)[k + 1]? = some p := by rwa [portsOf_eq hdata]
  exact ⟨h.port?_isSome_iff.2 ⟨_, _, hat⟩, h.isPrincipal_eq hat⟩

/-- **The depth is enough.** The term of an agent is what is seen of it. It does not depend on the
depth, if the depth is more than the number of agents that are not written yet. -/
theorem writesAgents (fuel : Nat) : net.WritesAgents fuel := by
  induction fuel with
  | zero =>
    intro w data hw hdata hsize
    have hle := hw.length_le
    omega
  | succ fuel ih =>
    intro w data hw hdata hsize
    obtain ⟨args, agents, after, hyields, hshows⟩ := exists_lookOutAll h ih hw (by omega)
      fun p hp => isPrincipal_of_mem_auxiliary h hdata hp
    refine ⟨args, agents, after, ⟨hyields.grows, fun depth hdepth => ?_⟩, fun path => hshows path 0⟩
    obtain ⟨depth, rfl⟩ := Nat.exists_eq_add_of_le' (Nat.one_le_iff_ne_zero.2
      (Nat.ne_zero_of_lt hdepth))
    simp only [agentTerm, hdata, hyields.run_eq depth (Nat.le_of_succ_le_succ hdepth)]

end LookOut

end Net

end InteractionNets
