import InteractionNets.Proofs.Redex.Independence
import InteractionNets.Proofs.Term.Marks
import InteractionNets.Proofs.Term.Printing

/-!
# Writing whole nets

The equations of a net are written in three rounds: active pairs, trees with a free root, and what
hangs off cycles. Every round writes agents that are not written yet, and after the last one all
agents are (`Net.exists_equations`).
-/

namespace InteractionNets

namespace Net

variable {net : Net} {names names' : List ConnectionId} {w : InteractionNets.Written}
  {equations equations' : List Equation} {agents agents' : List Agent} {path : List Nat}
  {k : Nat} {ports : List PortId} {terms : List Term} {marked : List (PortId × Mark)}

/-! ### Lines that are seen of agents -/

/-- Some lines are what is seen of some agents, wherever the first one of them stands. -/
def Tells (net : Net) (names : List ConnectionId) (equations : List Equation)
    (agents : List Agent) : Prop :=
  ∀ line, ∃ marked, ShowsAll net names line equations agents marked

theorem tells_nil (net : Net) (names : List ConnectionId) : net.Tells names [] [] :=
  fun _ => ⟨[], .nil⟩

theorem Tells.cons {equation : Equation}
    (h : ∀ line, ∃ marked, ShowsLine net names line equation agents marked)
    (h' : net.Tells names' equations agents') (hnames : names <+: names') :
    net.Tells names' (equation :: equations) (agents ++ agents') := by
  intro line
  obtain ⟨marked, hline⟩ := h line
  obtain ⟨marked', hrest⟩ := h' (line + 1)
  exact ⟨_, .cons (hline.mono hnames) hrest⟩

theorem Tells.append (h : net.Tells names equations agents)
    (h' : net.Tells names' equations' agents') (hnames : names <+: names') :
    net.Tells names' (equations ++ equations') (agents ++ agents') := by
  have hfrom : ∀ {line marked}, ShowsAll net names line equations agents marked →
      ∃ marked', ShowsAll net names' line (equations ++ equations') (agents ++ agents')
        marked' := by
    intro line marked hall
    clear h
    induction hall with
    | nil => exact h' _
    | cons hline _ ih =>
      obtain ⟨marked', hrest⟩ := ih
      rw [List.append_assoc]
      exact ⟨_, .cons (hline.mono hnames) hrest⟩
  intro line
  obtain ⟨marked, hall⟩ := h line
  exact hfrom hall

/-- The principal port of an agent is connected to a principal port. -/
def IsFaced (net : Net) (a : AgentId) : Prop :=
  ∃ p q, (net.portsOf a)[0]? = some p ∧ net.Joined p q ∧ net.isPrincipal q

/-- An agent that stands inside another one hangs from an auxiliary port. -/
theorem Shows.not_isFaced (hwf : net.WellFormed)
    (h : Shows net names path k ports terms agents marked) :
    ∀ data ∈ agents, ¬ net.IsFaced data.id := by
  induction h with
  | nil => exact List.forall_mem_nil _
  | ends _ _ ih => exact ih
  | @agent _ _ p q data aux _ _ _ _ _ _ _ hdata hports hpq hp _ _ ihi ih =>
    refine List.forall_mem_cons.2 ⟨?_, List.forall_mem_append.2 ⟨ihi, ih⟩⟩
    rintro ⟨r, s, hr, hrs, hs⟩
    rw [portsOf_eq hdata, hports] at hr
    obtain rfl := Option.some.inj hr
    obtain rfl := hwf.joined_unique hpq.symm hrs
    rw [hp] at hs
    cases hs

/-! ### Active pairs -/

theorem Grows.perm_agents {w' : InteractionNets.Written} (h : net.Grows w w' agents)
    (hperm : agents.Perm agents') : net.Grows w w' agents' :=
  ⟨h.tidy, h.perm.trans ((hperm.map _).append_right _),
    fun data hdata => h.live data (hperm.mem_iff.2 hdata), h.names⟩

/-- Agents whose principal ports are connected to principal ports are not among those that hang from
auxiliary ports. -/
theorem Grows.mem_iff_of_isFaced {w' : InteractionNets.Written} (h : net.Grows w w' agents)
    (hinner : ∀ data ∈ agents, ¬ net.IsFaced data.id) {a : AgentId} (ha : net.IsFaced a) :
    a ∈ w'.agents ↔ a ∈ w.agents := by
  rw [h.mem_iff, or_iff_right]
  intro hmem
  obtain ⟨data, hdata, rfl⟩ := List.mem_map.1 hmem
  exact hinner data hdata ha

section Rounds

variable (h : net.WellFormed)

include h

theorem isFaced_of_mem_activePairs {pair : ActivePair} (hpair : pair ∈ net.activePairs)
    (side : Side) : net.IsFaced (pair.ends side) := by
  obtain ⟨p, q, hp, hq, hpq⟩ := meets_of_mem_activePairs h hpair
  cases side with
  | left => exact ⟨p, q, hp, hpq, h.isPrincipal_eq hq⟩
  | right => exact ⟨q, p, hq, hpq.symm, h.isPrincipal_eq hp⟩

/-- The terms of two agents that are not written yet. -/
theorem exists_terms (hw : net.Tidy w) {left right : Agent}
    (hl : net.agent? left.id = some left) (hr : net.agent? right.id = some right)
    (hne : left.id ≠ right.id) (hleft : left.id ∉ w.agents) (hright : right.id ∉ w.agents) :
    ∃ args ls mid args' rs after,
      net.Yields net.agents.size (fun depth => net.agentTerm depth left.id)
        ((w.agent left.id).agent right.id) ls (.agent left.symbol.name args) mid ∧
      net.Yields net.agents.size (fun depth => net.agentTerm depth right.id) mid rs
        (.agent right.symbol.name args') after ∧
      (∀ path, ∃ marked, Shows net mid.names path 0 left.auxiliary args ls marked) ∧
      (∀ path, ∃ marked, Shows net after.names path 0 right.auxiliary args' rs marked) ∧
      net.Grows w ((w.agent left.id).agent right.id) [left, right] := by
  have hfirst := hw.agent hl hleft
  have hnew : right.id ∉ (w.agent left.id).agents := by
    rw [Written.agent, List.mem_cons, not_or]
    exact ⟨hne.symm, hright⟩
  have hboth := hfirst.trans (hfirst.tidy.agent hr hnew)
  obtain ⟨args, ls, mid, hyields, hls⟩ := writesAgents h net.agents.size hboth.tidy hl (by
    simp only [Written.agent, List.length_cons]
    omega)
  obtain ⟨args', rs, after, hyields', hrs⟩ := writesAgents h net.agents.size hyields.grows.tidy hr
    (by
      have hle := hyields.grows.length_le
      simp only [Written.agent, List.length_cons] at hle
      omega)
  exact ⟨args, ls, mid, args', rs, after, hyields, hyields', hls, hrs, hboth⟩

/-- The line of an active pair, which is not written yet. -/
theorem exists_pairLine (hw : net.Tidy w) {pair : ActivePair} (hpair : pair ∈ net.activePairs)
    (hnew : ∀ side, pair.ends side ∉ w.agents) :
    ∃ left right agents mid after, net.Grows w after agents ∧
      (∀ depth, net.agents.size ≤ depth → net.agentTerm depth pair.agent₁
        ((w.agent pair.agent₁).agent pair.agent₂) = (left, mid) ∧
        net.agentTerm depth pair.agent₂ mid = (right, after)) ∧
      (∀ line, ∃ marked, ShowsLine net after.names line (.pair left right) agents marked) ∧
      ∀ a, net.IsFaced a → (a ∈ after.agents ↔ a ∈ w.agents ∨ ∃ side, pair.ends side = a) := by
  obtain ⟨data, left, right, hdata, hports, -, hl, hr, hpl, hpr, -⟩ :=
    Surroundings.activePair_spec h hpair
  obtain ⟨ps, hps⟩ := List.head?_eq_some_iff.1 hpl
  obtain ⟨qs, hqs⟩ := List.head?_eq_some_iff.1 hpr
  have hpq : net.Joined pair.port₁ pair.port₂ := ⟨_, data, hdata, .inl hports⟩
  have hlid := h.agent_id hl
  have hrid := h.agent_id hr
  have hne : left.id ≠ right.id := by
    rw [hlid, hrid]
    exact (meets_of_mem_activePairs h hpair).ne h
  rw [← hlid] at hl
  rw [← hrid] at hr
  -- both agents are marked before either of them is written
  obtain ⟨args, ls, mid, args', rs, after, hleft, hright, hls, hrs, hboth⟩ :=
    exists_terms h hw hl hr hne (hlid ▸ hnew .left) (hrid ▸ hnew .right)
  have hgrows := hboth.trans (hleft.grows.trans hright.grows)
  have hperm : (left :: right :: (ls ++ rs)).Perm (left :: (ls ++ (right :: rs))) :=
    List.perm_middle.symm.cons left
  refine ⟨.agent left.symbol.name args, .agent right.symbol.name args', _, mid, after,
    hgrows.perm_agents hperm, fun depth hdepth => ?_, fun line => ?_, fun a ha => ?_⟩
  · rw [← hlid, ← hrid]
    exact ⟨hleft.run_eq depth hdepth, hright.run_eq depth hdepth⟩
  · obtain ⟨marked, hmarked⟩ := hls [0, line]
    obtain ⟨marked', hmarked'⟩ := hrs [1, line]
    rw [Agent.auxiliary, hps] at hmarked
    rw [Agent.auxiliary, hqs] at hmarked'
    exact ⟨_, .pair hl hps hr hqs hpq (hmarked.mono hright.grows.names) hmarked'⟩
  · -- nothing that is written inside the two trees belongs to an active pair
    obtain ⟨_, hmarked⟩ := hls []
    obtain ⟨_, hmarked'⟩ := hrs []
    rw [hright.grows.mem_iff_of_isFaced (hmarked'.not_isFaced h) ha,
      hleft.grows.mem_iff_of_isFaced (hmarked.not_isFaced h) ha, hboth.mem_iff, or_comm,
      List.map_cons, List.map_singleton, List.mem_pair, hlid, hrid]
    refine or_congr_right ⟨?_, ?_⟩
    · rintro (rfl | rfl)
      · exact ⟨.left, rfl⟩
      · exact ⟨.right, rfl⟩
    · rintro ⟨side | side, rfl⟩
      · exact .inl rfl
      · exact .inr rfl

/-- The lines of some active pairs. -/
theorem exists_pairEquations {pairs : List ActivePair} (hw : net.Tidy w)
    (hpairs : ∀ pair ∈ pairs, pair ∈ net.activePairs)
    (hapart : pairs.Pairwise fun pair other => pair.isIndependentOf other)
    (hnew : ∀ pair ∈ pairs, ∀ side, pair.ends side ∉ w.agents) :
    ∃ equations agents after,
      net.Yields net.agents.size (fun depth => net.pairEquations depth pairs) w agents equations
        after ∧
      net.Tells after.names equations agents ∧
      ∀ pair ∈ pairs, ∀ side, pair.ends side ∈ after.agents := by
  induction pairs generalizing w with
  | nil => exact ⟨[], [], w, ⟨.refl hw, fun _ _ => rfl⟩, tells_nil _ _, List.forall_mem_nil _⟩
  | cons pair pairs ih =>
    obtain ⟨hpair, hpairs⟩ := List.forall_mem_cons.1 hpairs
    obtain ⟨hnewPair, hnewRest⟩ := List.forall_mem_cons.1 hnew
    obtain ⟨hindependent, hapart⟩ := List.pairwise_cons.1 hapart
    obtain ⟨left, right, agents, mid, next, hgrows, hrun, hline, hfaced⟩ :=
      exists_pairLine h hw hpair hnewPair
    obtain ⟨equations, agents', after, hyields, htells, hmem⟩ :=
      ih hgrows.tidy hpairs hapart fun other hother side hmem => by
        have hends := isFaced_of_mem_activePairs h (hpairs other hother) side
        rcases (hfaced _ hends).1 hmem with hmem | ⟨side', heq⟩
        · exact hnewRest other hother side hmem
        · exact ActivePair.isIndependentOf_iff.1 (hindependent other hother) side' side heq
    refine ⟨.pair left right :: equations, agents ++ agents', after,
      ⟨hgrows.trans hyields.grows, fun depth hdepth => ?_⟩,
      .cons hline htells hyields.grows.names, List.forall_mem_cons.2 ⟨fun side => ?_, hmem⟩⟩
    · obtain ⟨hleft, hright⟩ := hrun depth hdepth
      simp only [pairEquations, hleft, hright, hyields.run_eq depth hdepth]
    · have hends := isFaced_of_mem_activePairs h hpair side
      exact hyields.grows.mono ((hfaced _ hends).2 (.inr ⟨side, rfl⟩))

/-! ### Trees -/

/-- The tree of an agent that is not written yet. -/
theorem exists_tree (hw : net.Tidy w) {data : Agent} (hdata : net.agent? data.id = some data)
    (hnew : data.id ∉ w.agents) : ∃ args agents after,
      net.Yields net.agents.size (fun depth => net.tree depth data.id) w (data :: agents)
        (.agent data.symbol.name args) after ∧
      ∀ path, ∃ marked, Shows net after.names path 0 data.auxiliary args agents marked := by
  have hfirst := hw.agent hdata hnew
  obtain ⟨args, agents, after, hyields, hshows⟩ := writesAgents h net.agents.size hfirst.tidy hdata
    (by simp only [Written.agent, List.length_cons]; omega)
  exact ⟨args, agents, after, ⟨hfirst.trans hyields.grows, hyields.run_eq⟩, hshows⟩

omit h in
/-- A tree is told by a line with what its root is connected to. -/
theorem tells_root {data : Agent} {p : PortId} {label : Term} {args : List Term}
    (hdata : net.agent? data.id = some data) (hp : data.principal? = some p)
    (hlabel : Ends net names p label)
    (hshows : ∀ path, ∃ marked, Shows net names path 0 data.auxiliary args agents marked) :
    net.Tells names [.root label (.agent data.symbol.name args)] (data :: agents) := by
  obtain ⟨aux, haux⟩ := List.head?_eq_some_iff.1 hp
  refine (List.append_nil _).subst (Tells.cons (fun line => ?_) (tells_nil net names)
    List.prefix_rfl)
  obtain ⟨marked, hmarked⟩ := hshows [line]
  rw [Agent.auxiliary, haux] at hmarked
  exact ⟨_, .root hdata haux hlabel hmarked⟩

/-! ### Rounds -/

/-- An agent has its turn in a round: lines are written, and some agents, and the round goes on. -/
def Turn (net : Net) (run : Nat → List Agent → InteractionNets.Written →
    List Equation × InteractionNets.Written) (needed : Prop) (w : InteractionNets.Written)
    (data : Agent) : Prop :=
  ∃ equations agents after, net.Grows w after agents ∧ net.Tells after.names equations agents ∧
    (needed → data.id ∈ after.agents) ∧
    ∀ depth, net.agents.size ≤ depth → ∀ rest, run depth (data :: rest) w =
      (equations ++ (run depth rest after).1, (run depth rest after).2)

omit h in
/-- A round gives each of some agents its turn. -/
theorem exists_round (run : Nat → List Agent → InteractionNets.Written →
      List Equation × InteractionNets.Written) {needed : Agent → Prop} {listed : List Agent}
    (hnil : ∀ depth w, run depth [] w = ([], w)) (hw : net.Tidy w)
    (hturn : ∀ data ∈ listed, ∀ w', net.Tidy w' → w.agents ⊆ w'.agents →
      net.Turn run (needed data) w' data) :
    ∃ equations agents after,
      net.Yields net.agents.size (fun depth => run depth listed) w agents equations after ∧
      net.Tells after.names equations agents ∧
      ∀ data ∈ listed, needed data → data.id ∈ after.agents := by
  induction listed generalizing w with
  | nil =>
    exact ⟨[], [], w, ⟨.refl hw, fun depth _ => hnil depth w⟩, tells_nil _ _,
      List.forall_mem_nil _⟩
  | cons data listed ih =>
    obtain ⟨hdata, hrest⟩ := List.forall_mem_cons.1 hturn
    obtain ⟨first, agents, next, hgrows, htells, hneeded, hrun⟩ := hdata w hw (List.Subset.refl _)
    obtain ⟨equations, agents', after, hyields, htells', hmem⟩ :=
      ih hgrows.tidy fun other hother w' hw' hsub =>
        hrest other hother w' hw' fun a ha => hsub (hgrows.mono ha)
    refine ⟨first ++ equations, agents ++ agents', after,
      ⟨hgrows.trans hyields.grows, fun depth hdepth => ?_⟩,
      htells.append htells' hyields.grows.names, List.forall_mem_cons.2 ⟨fun hneed => ?_, hmem⟩⟩
    · simp only [hrun depth hdepth, hyields.run_eq depth hdepth]
    · exact hyields.grows.mono (hneeded hneed)

/-- The round of trees with a free root. An agent without ports is written. -/
theorem turn_rootEquations (hw : net.Tidy w) {data : Agent}
    (hdata : net.agent? data.id = some data) :
    net.Turn net.rootEquations (data.principal? = none) w data := by
  by_cases hwritten : data.id ∈ w.agents
  · refine ⟨[], [], w, .refl hw, tells_nil _ _, fun _ => hwritten, fun depth _ rest => ?_⟩
    simp [rootEquations, hwritten]
  · obtain ⟨args, agents, after, hyields, hshows⟩ := exists_tree h hw hdata hwritten
    have hmem : data.id ∈ after.agents := hyields.grows.mem_iff.2 (.inl List.mem_cons_self)
    cases hprincipal : data.principal? with
    | none =>
      have hports : data.ports = [] := List.head?_eq_none_iff.1 hprincipal
      obtain ⟨marked, hmarked⟩ := hshows []
      rw [Agent.auxiliary, hports] at hmarked
      cases hmarked
      refine ⟨[.lone (.agent data.symbol.name [])], [data], after, hyields.grows,
        .cons (fun line => ⟨[], .lone hdata hports⟩) (tells_nil _ _) List.prefix_rfl,
        fun _ => hmem, fun depth hdepth rest => ?_⟩
      simp [rootEquations, hwritten, hprincipal, hyields.run_eq depth hdepth]
    | some p =>
      by_cases hpeer : (net.peer? p).isSome
      · refine ⟨[], [], w, .refl hw, tells_nil _ _,
          fun hnone => absurd hnone (Option.some_ne_none p), fun depth _ rest => ?_⟩
        simp [rootEquations, hwritten, hprincipal, hpeer]
      · have hfirst := (getElem?_portsOf_zero hdata).trans hprincipal
        have hfree : net.IsFree p := by
          refine h.isFree_iff.2 ⟨h.port?_isSome_iff.2 ⟨_, _, hfirst⟩, fun q hpq => hpeer ?_⟩
          rw [h.peer?_eq_some_iff.2 hpq]
          rfl
        refine ⟨[.root (net.freeTerm p) (.agent data.symbol.name args)], data :: agents, after,
          hyields.grows, tells_root hdata hprincipal (ends_freeTerm hfree) hshows, fun _ => hmem,
          fun depth hdepth rest => ?_⟩
        simp [rootEquations, hwritten, hprincipal, hpeer, hyields.run_eq depth hdepth]

/-- The round of what hangs off cycles. Every agent is written. -/
theorem turn_cycleEquations (hw : net.Tidy w) {data : Agent}
    (hdata : net.agent? data.id = some data) (hport : data.principal? = none → data.id ∈ w.agents)
    (hfaced : net.IsFaced data.id → data.id ∈ w.agents) :
    net.Turn net.cycleEquations True w data := by
  by_cases hwritten : data.id ∈ w.agents
  · refine ⟨[], [], w, .refl hw, tells_nil _ _, fun _ => hwritten, fun depth _ rest => ?_⟩
    simp [cycleEquations, hwritten]
  · obtain ⟨p, hprincipal⟩ := Option.ne_none_iff_exists'.1 fun hnone => hwritten (hport hnone)
    have hfirst := (getElem?_portsOf_zero hdata).trans hprincipal
    have hapart : ∀ q, net.Joined p q → ¬ net.isPrincipal q := fun q hpq hq =>
      hwritten (hfaced ⟨p, q, hfirst, hpq, hq⟩)
    obtain ⟨label, mid, hnamed, hlabel, hlook⟩ := exists_lookOut_ends h hw
      (h.port?_isSome_iff.2 ⟨_, _, hfirst⟩) (fun q hpq hpair => hapart q hpq hpair.2)
      fun peer hpeer hpeerPrincipal => by
        obtain ⟨other, q, aux, hother, -, hports, hpq⟩ :=
          exists_agent_of_peerPort? h hpeer hpeerPrincipal
        exact absurd (isPrincipal_of_ports h hother hports) (hapart q hpq)
    have hnew : data.id ∉ mid.agents := by
      rw [hnamed.mem_iff]
      exact fun hmem => hwritten (hmem.resolve_left List.not_mem_nil)
    obtain ⟨args, agents, after, hyields, hshows⟩ := exists_tree h hnamed.tidy hdata hnew
    refine ⟨[.root label (.agent data.symbol.name args)], data :: agents, after,
      hnamed.trans hyields.grows,
      tells_root hdata hprincipal (hlabel.mono hyields.grows.names) hshows,
      fun _ => hyields.grows.mem_iff.2 (.inl List.mem_cons_self), fun depth hdepth rest => ?_⟩
    simp [cycleEquations, hwritten, hprincipal, hlook, hyields.run_eq depth hdepth]

/-! ### All rounds -/

/-- An agent whose principal port is connected to a principal port belongs to an active pair. -/
theorem exists_pair_of_isFaced {a : AgentId} (ha : net.IsFaced a) :
    ∃ pair ∈ net.activePairs, ∃ side, pair.ends side = a := by
  obtain ⟨p, q, hp, hpq, hq⟩ := ha
  obtain ⟨b, k, hk⟩ := h.port?_isSome_iff.1 (h.isSome_of_joined hpq.symm)
  obtain rfl : k = 0 := eq_of_beq ((h.isPrincipal_eq hk).symm.trans hq)
  have hmeets : net.Meets fun side => if side = .left then a else b := ⟨p, q, hp, hk, hpq⟩
  obtain ⟨pair, hpair, hsame⟩ := exists_pair_of_meets h hmeets
  obtain ⟨side, hside⟩ := hsame.symm.exists_side .left
  exact ⟨pair, hpair, side, hside.symm⟩

/-- Agents that are all written, starting from nothing, are the agents of the net. -/
theorem Grows.perm_agentList {after : InteractionNets.Written}
    (hgrows : net.Grows .nothing after agents)
    (hall : ∀ data ∈ net.agentList, data.id ∈ after.agents) : net.agentList.Perm agents := by
  have hperm : after.agents.Perm (agents.map Agent.id) := by
    have hperm := hgrows.perm
    rwa [Written.nothing, List.append_nil] at hperm
  refine h.perm_agents (hperm.nodup_iff.1 hgrows.tidy.nodup_agents) fun {data} =>
    ⟨hgrows.live data, fun hdata => ?_⟩
  have hmem := hperm.mem_iff.1 (hall data (h.mem_agentList_iff.2 hdata))
  obtain ⟨other, hother, hid⟩ := List.mem_map.1 hmem
  have hlive := hgrows.live other hother
  rw [hid, hdata] at hlive
  exact Option.some.inj hlive ▸ hother

/-- **Every agent is written once.** The equations of a net are what is seen of all its agents. They
do not depend on the depth, if that is at least the number of agents. -/
theorem exists_equations : ∃ agents names marked, names.Nodup ∧ net.agentList.Perm agents ∧
    ShowsAll net names 0 net.equations agents marked ∧
    ∀ depth, net.agents.size ≤ depth → net.equationsWithin depth = net.equations := by
  obtain ⟨pairs, agents₁, w₁, hyields₁, htells₁, hpairs⟩ := exists_pairEquations h
    (tidy_nothing net) (fun _ hpair => hpair) h.pairwise_activePairs
    fun _ _ _ => List.not_mem_nil
  have hlive : ∀ data ∈ net.agentList, net.agent? data.id = some data := fun data hdata =>
    h.mem_agentList_iff.1 hdata
  obtain ⟨roots, agents₂, w₂, hyields₂, htells₂, hroots⟩ :=
    exists_round net.rootEquations (fun _ _ => rfl) hyields₁.grows.tidy
      fun data hdata w hw _ => turn_rootEquations h hw (hlive data hdata)
  -- what the last round finds has a principal port that is connected to an auxiliary one
  have hfaced : ∀ a, net.IsFaced a → a ∈ w₂.agents := by
    intro a ha
    obtain ⟨pair, hpair, side, rfl⟩ := exists_pair_of_isFaced h ha
    exact hyields₂.grows.mono (hpairs pair hpair side)
  obtain ⟨cycles, agents₃, w₃, hyields₃, htells₃, hall⟩ :=
    exists_round net.cycleEquations (fun _ _ => rfl) hyields₂.grows.tidy
      fun data hdata w hw hsub => turn_cycleEquations h hw (hlive data hdata)
        (fun hnone => hsub (hroots data hdata hnone)) fun hface => hsub (hfaced _ hface)
  have hequations : ∀ depth, net.agents.size ≤ depth →
      net.equationsWithin depth = pairs ++ roots ++ cycles := fun depth hdepth => by
    simp only [equationsWithin, hyields₁.run_eq depth hdepth, hyields₂.run_eq depth hdepth,
      hyields₃.run_eq depth hdepth]
  have hgrows := (hyields₁.grows.trans hyields₂.grows).trans hyields₃.grows
  have htells := (htells₁.append htells₂ hyields₂.grows.names).append htells₃ hyields₃.grows.names
  obtain ⟨marked, hmarked⟩ := htells 0
  rw [← hequations _ (Nat.le_refl _)] at hmarked
  exact ⟨_, w₃.names, marked, hyields₃.grows.tidy.nodup_names,
    hgrows.perm_agentList h fun data hdata => hall data hdata trivial, hmarked,
    fun depth hdepth => (hequations depth hdepth).trans (hequations _ (Nat.le_refl _)).symm⟩

end Rounds

end Net

end InteractionNets
