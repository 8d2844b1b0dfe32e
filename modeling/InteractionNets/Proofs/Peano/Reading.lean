import InteractionNets.Proofs.Net.Component
import InteractionNets.Proofs.Peano.Arithmetic

/-!
# Reading numbers

A number is read by going from agent to agent, with no record of the agents that were passed. In a
well-formed net no agent is passed twice on the way from a free port (`reads_readFrom`): the way
goes along connections, so two ways meet only if they come from one port, and nothing leads back to
where it began. Reading ends with a number exactly when the port is the root of a chain that is this
number, or, what is the same, when the component of the port is the net of the number
(`readNat_exact`). A way that begins on a cycle does not end (`not_reads_of_readStep_self`).
-/

namespace InteractionNets.Peano

open Net Relation

/-- Look at one port: reading ends there with a result, or it goes on at another port with one more
successor. -/
def readStep (net : Net) (port : PortId) : Option Nat ⊕ PortId :=
  match net.port? port with
  | none => .inl none
  | some data =>
    if data.principal then
      match net.agent? data.agent with
      | none => .inl none
      | some agent =>
        if agent.symbol = zero then .inl (some 0)
        else if agent.symbol = succ then
          match agent.auxiliary.head?.bind net.peer? with
          | none => .inl none
          | some next => .inr next
        else .inl none
    else .inl none

/-- Reading from a port ends, without any limit, with a result. -/
inductive Reads (net : Net) : PortId → Option Nat → Prop
  | stop {port : PortId} {result : Option Nat} : readStep net port = .inl result →
      Reads net port result
  | next {port next : PortId} {result : Option Nat} : readStep net port = .inr next →
      Reads net next result → Reads net port (result.map (· + 1))

variable {net : Net} {n m : Nat} {p q r : PortId} {result result' : Option Nat}
  {agents : List Agent}

/-- Reading with a limit goes step by step. -/
theorem readFrom_succ (net : Net) (fuel : Nat) (p : PortId) : readFrom net (fuel + 1) p =
    match readStep net p with
    | .inl result => result
    | .inr next => (readFrom net fuel next).map (· + 1) := by
  rw [readFrom, readStep]
  cases net.port? p with
  | none => rfl
  | some data =>
    cases hprincipal : data.principal with
    | false => simp [hprincipal]
    | true =>
      cases hagent : net.agent? data.agent with
      | none => simp [hprincipal, hagent]
      | some agent =>
        by_cases hzero : agent.symbol = zero
        · simp [hprincipal, hagent, hzero]
        · by_cases hsucc : agent.symbol = succ
          · have hne : succ ≠ zero := by decide
            cases hnext : agent.auxiliary.head? with
            | none => simp [hprincipal, hagent, hsucc, hne, hnext]
            | some x =>
              cases hpeer : net.peer? x with
              | none => simp [hprincipal, hagent, hsucc, hne, hnext, hpeer]
              | some root =>
                cases hrest : readFrom net fuel root <;>
                  simp [hprincipal, hagent, hsucc, hne, hnext, hpeer, hrest]
          · simp [hprincipal, hagent, hzero, hsucc]

theorem Reads.unique (h : Reads net p result) (h' : Reads net p result') : result = result' := by
  induction h generalizing result' with
  | stop hstop =>
    cases h' with
    | stop hstop' => exact Sum.inl.inj (hstop.symm.trans hstop')
    | next hnext' _ => cases hstop.symm.trans hnext'
  | next hnext _ ih =>
    cases h' with
    | stop hstop' => cases hnext.symm.trans hstop'
    | next hnext' hrest' =>
      obtain rfl := Sum.inr.inj (hnext.symm.trans hnext')
      rw [ih hrest']

/-- A way that comes back to a port does not end. -/
theorem not_reads_of_readStep_self (hcycle : TransGen (fun p q => readStep net p = .inr q) p p) :
    ¬ Reads net p result := by
  intro h
  induction h with
  | stop hstop =>
    obtain ⟨q, hq, -⟩ := TransGen.head'_iff.1 hcycle
    cases hstop.symm.trans hq
  | next hnext _ ih =>
    obtain ⟨q, hq, hback⟩ := TransGen.head'_iff.1 hcycle
    obtain rfl := Sum.inr.inj (hnext.symm.trans hq)
    exact ih (TransGen.tail' hback hnext)

/-! ### Steps in well-formed nets -/

section Steps

variable (h : net.WellFormed)

include h

theorem exists_ports_of_succ {data : Agent} (hdata : net.agent? data.id = some data)
    (hsymbol : data.symbol = succ) (hhead : data.ports.head? = some p) :
    ∃ x, data.ports = [p, x] := by
  have hlength := h.arity hdata
  rw [hsymbol] at hlength
  obtain ⟨a, x, hports⟩ := List.length_eq_two.1 hlength
  rw [hports] at hhead
  obtain rfl : a = p := Option.some.inj hhead
  exact ⟨x, hports⟩

theorem ports_of_zero {data : Agent} (hdata : net.agent? data.id = some data)
    (hsymbol : data.symbol = zero) (hhead : data.ports.head? = some p) : data.ports = [p] := by
  have hlength := h.arity hdata
  rw [hsymbol] at hlength
  obtain ⟨a, hports⟩ := List.length_eq_one_iff.1 hlength
  rw [hports] at hhead ⊢
  rw [Option.some.inj hhead]

/-- What there is to see at the principal port of an agent. -/
theorem readStep_of_head {data : Agent} (hdata : net.agent? data.id = some data)
    (hhead : data.ports.head? = some p) : readStep net p =
      if data.symbol = zero then .inl (some 0)
      else if data.symbol = succ then
        match data.auxiliary.head?.bind net.peer? with
        | none => .inl none
        | some next => .inr next
      else .inl none := by
  have hfirst := (getElem?_portsOf_zero hdata).trans hhead
  rw [readStep, h.port?_eq hfirst]
  simp only [beq_self_eq_true, if_true, hdata]

/-- Reading ends at once, except at the principal port of an agent. -/
theorem readStep_cases (p : PortId) : readStep net p = .inl none ∨
    ∃ data : Agent, net.agent? data.id = some data ∧ data.ports.head? = some p := by
  cases hport : net.port? p with
  | none => exact .inl (by rw [readStep, hport])
  | some port =>
    have hat := h.agent_of_port hport
    obtain ⟨port', hport', -, -, hprincipal⟩ := h.port_of_agent hat
    obtain rfl := Option.some.inj (hport.symm.trans hport')
    by_cases hp : port.principal = true
    · obtain ⟨data, hdata⟩ := Option.isSome_iff_exists.1 (isSome_agent?_of_getElem? hat)
      have hid := h.agent_id hdata
      rw [hprincipal.1 hp, getElem?_portsOf_zero hdata] at hat
      exact .inr ⟨data, by rw [hid]; exact hdata, hat⟩
    · exact .inl (by simp [readStep, hport, hp])

/-- Reading goes on from a successor, at the port that its auxiliary port is joined to. -/
theorem readStep_eq_inr_iff : readStep net p = .inr q ↔ ∃ (data : Agent) (x : PortId),
    net.agent? data.id = some data ∧ data.symbol = succ ∧ data.ports = [p, x] ∧
      net.Joined x q := by
  constructor
  · intro hstep
    rcases readStep_cases h p with hstop | ⟨data, hdata, hhead⟩
    · cases hstep.symm.trans hstop
    · rw [readStep_of_head h hdata hhead] at hstep
      split at hstep
      · cases hstep
      · split at hstep
        · rename_i hsymbol
          obtain ⟨x, hports⟩ := exists_ports_of_succ h hdata hsymbol hhead
          rw [Agent.auxiliary, hports, List.tail_cons, List.head?_cons, Option.bind_some] at hstep
          cases hpeer : net.peer? x with
          | none => simp [hpeer] at hstep
          | some r =>
            obtain rfl : r = q := by simpa [hpeer] using hstep
            exact ⟨data, x, hdata, hsymbol, hports, h.peer?_eq_some_iff.1 hpeer⟩
        · cases hstep
  · rintro ⟨data, x, hdata, hsymbol, hports, hjoined⟩
    have hne : succ ≠ zero := by decide
    rw [readStep_of_head h hdata (by rw [hports]; rfl), hsymbol, if_neg hne, if_pos rfl,
      Agent.auxiliary, hports, List.tail_cons, List.head?_cons, Option.bind_some,
      h.peer?_eq_some_iff.2 hjoined]

/-- Reading ends with a number at a zero. -/
theorem readStep_eq_some_iff : readStep net p = .inl (some n) ↔ n = 0 ∧ ∃ data : Agent,
    net.agent? data.id = some data ∧ data.symbol = zero ∧ data.ports = [p] := by
  constructor
  · intro hstep
    rcases readStep_cases h p with hstop | ⟨data, hdata, hhead⟩
    · cases hstep.symm.trans hstop
    · rw [readStep_of_head h hdata hhead] at hstep
      split at hstep
      · rename_i hsymbol
        cases hstep
        exact ⟨rfl, data, hdata, hsymbol, ports_of_zero h hdata hsymbol hhead⟩
      · split at hstep
        · split at hstep <;> cases hstep
        · cases hstep
  · rintro ⟨rfl, data, hdata, hsymbol, hports⟩
    rw [readStep_of_head h hdata (by rw [hports]; rfl), if_pos hsymbol]

/-! ### Reading ends -/

/-- Two ways do not meet unless they come from one port. -/
theorem readStep_injective (hp : readStep net p = .inr r) (hq : readStep net q = .inr r) :
    p = q := by
  obtain ⟨data, x, hdata, -, hports, hxr⟩ := (readStep_eq_inr_iff h).1 hp
  obtain ⟨data', x', hdata', -, hports', hxr'⟩ := (readStep_eq_inr_iff h).1 hq
  obtain rfl := h.joined_unique hxr.symm hxr'.symm
  have hat : (net.portsOf data.id)[1]? = some x := by rw [portsOf_eq hdata, hports]; rfl
  have hat' : (net.portsOf data'.id)[1]? = some x := by rw [portsOf_eq hdata', hports']; rfl
  obtain ⟨hid, -⟩ := h.port_unique hat hat'
  rw [hid, hdata', Option.some.injEq] at hdata
  rw [hdata, hports] at hports'
  exact (List.cons.inj hports').1

/-- The principal ports of agents are not more than the agents. -/
theorem length_le_of_heads {ports : List PortId} (hnodup : ports.Nodup)
    (hheads : ∀ q ∈ ports, ∃ data : Agent, net.agent? data.id = some data ∧
      data.ports.head? = some q) : ports.length ≤ net.agents.size := by
  have howner : ∀ q ∈ ports, (net.portsOf (net.ownerOf q))[0]? = some q := by
    intro q hq
    obtain ⟨data, hdata, hhead⟩ := hheads q hq
    have hat := (getElem?_portsOf_zero hdata).trans hhead
    rwa [ownerOf_eq (h.port?_eq hat)]
  have hids : (ports.map net.ownerOf).Nodup := by
    refine hnodup.map_on fun q hq q' hq' heq => ?_
    have hat := howner q hq
    rw [heq, howner q' hq'] at hat
    exact (Option.some.inj hat).symm
  rw [← List.length_map net.ownerOf]
  refine net.agents.length_le_size hids fun a ha => ?_
  obtain ⟨q, hq, rfl⟩ := List.mem_map.1 ha
  exact isSome_agent?_of_getElem? (howner q hq)

/-- **Reading ends.** When nothing leads to the present port and to the ports that were passed but
the ports that were passed, and there is fuel for all other agents, the limit is not reached. -/
theorem reads_readFrom {fuel : Nat} {passed : List PortId} (hnodup : (p :: passed).Nodup)
    (hheads : ∀ q ∈ passed, ∃ data : Agent, net.agent? data.id = some data ∧
      data.ports.head? = some q)
    (hback : ∀ {q r}, readStep net q = .inr r → r ∈ p :: passed → q ∈ passed)
    (hfuel : net.agents.size ≤ fuel + passed.length) : Reads net p (readFrom net fuel p) := by
  induction fuel generalizing p passed with
  | zero =>
    rcases readStep_cases h p with hstop | hhead
    · exact .stop hstop
    · have hlength := length_le_of_heads h hnodup (List.forall_mem_cons.2 ⟨hhead, hheads⟩)
      rw [List.length_cons] at hlength
      omega
  | succ fuel ih =>
    rw [readFrom_succ]
    cases hp : readStep net p with
    | inl result => exact .stop hp
    | inr q =>
      have hhead : ∃ data : Agent, net.agent? data.id = some data ∧ data.ports.head? = some p := by
        obtain ⟨data, x, hdata, -, hports, -⟩ := (readStep_eq_inr_iff h).1 hp
        exact ⟨data, hdata, by rw [hports]; rfl⟩
      -- the next port is new: only ports that were passed before lead to the others
      have hnew : q ∉ p :: passed := fun hmem => (List.nodup_cons.1 hnodup).1 (hback hp hmem)
      refine .next hp (ih (List.nodup_cons.2 ⟨hnew, hnodup⟩)
        (List.forall_mem_cons.2 ⟨hhead, hheads⟩) (fun {q' r} hq' hr => ?_) ?_)
      · rcases List.mem_cons.1 hr with rfl | hr
        · rw [readStep_injective h hq' hp]
          exact List.mem_cons_self
        · exact List.mem_cons_of_mem p (hback hq' hr)
      · rw [List.length_cons]
        omega

/-- Reading from a free port ends, and a limit of as many agents as there are is not reached. -/
theorem reads_of_isFree (hp : net.IsFree p) : Reads net p (readFrom net net.agents.size p) := by
  refine reads_readFrom h (List.nodup_singleton p) (by simp) (fun {q r} hq hr => ?_)
    (Nat.le_add_right _ _)
  obtain rfl := List.mem_singleton.1 hr
  obtain ⟨data, x, -, -, -, hjoined⟩ := (readStep_eq_inr_iff h).1 hq
  exact absurd hjoined.symm ((h.isFree_iff.1 hp).2 x)

/-! ### What is read -/

/-- What is read is the chain that begins at the port. -/
theorem reads_some_iff : Reads net p (some n) ↔
    ∃ agents, IsChain net n p agents ∧ ∀ data ∈ agents, net.agent? data.id = some data := by
  constructor
  · intro hreads
    generalize hresult : some n = result at hreads
    induction hreads generalizing n with
    | stop hstop =>
      subst hresult
      obtain ⟨rfl, data, hdata, hsymbol, hports⟩ := (readStep_eq_some_iff h).1 hstop
      exact ⟨[data], .zero hsymbol hports, by simpa using hdata⟩
    | next hnext _ ih =>
      obtain ⟨m, rfl, rfl⟩ := Option.map_eq_some_iff.1 hresult.symm
      obtain ⟨data, x, hdata, hsymbol, hports, hjoined⟩ := (readStep_eq_inr_iff h).1 hnext
      obtain ⟨agents, hchain, hlive⟩ := ih rfl
      exact ⟨data :: agents, .succ hsymbol hports hjoined hchain,
        List.forall_mem_cons.2 ⟨hdata, hlive⟩⟩
  · rintro ⟨agents, hchain, hlive⟩
    induction hchain with
    | zero hsymbol hports =>
      exact .stop ((readStep_eq_some_iff h).2 ⟨rfl, _, hlive _ List.mem_cons_self, hsymbol, hports⟩)
    | succ hsymbol hports hjoined _ ih =>
      obtain ⟨hdata, hlive⟩ := List.forall_mem_cons.1 hlive
      exact .next ((readStep_eq_inr_iff h).2 ⟨_, _, hdata, hsymbol, hports, hjoined⟩) (ih hlive)

/-! ### Chains and components -/

omit h in
/-- From every agent of a chain on there is a chain. -/
theorem IsChain.exists_suffix (hchain : IsChain net n p agents) {data : Agent}
    (hdata : data ∈ agents) : ∃ m q suffix, m ≤ n ∧ data.ports.head? = some q ∧
      suffix ⊆ agents ∧ IsChain net m q suffix := by
  induction hchain with
  | @zero data' p hsymbol hports =>
    obtain rfl := List.mem_singleton.1 hdata
    exact ⟨0, p, [data], Nat.le_refl 0, by rw [hports]; rfl, List.Subset.refl _,
      .zero hsymbol hports⟩
  | @succ data' n p x r agents hsymbol hports hjoined hchain ih =>
    rcases List.mem_cons.1 hdata with rfl | hdata
    · exact ⟨n + 1, p, data :: agents, Nat.le_refl _, by rw [hports]; rfl, List.Subset.refl _,
        .succ hsymbol hports hjoined hchain⟩
    · obtain ⟨m, q, suffix, hle, hhead, hsubset, hsuffix⟩ := ih hdata
      exact ⟨m, q, suffix, hle.trans (Nat.le_succ n), hhead,
        List.Subset.trans hsubset (List.subset_cons_self _ _), hsuffix⟩

/-- The agents of a chain are different from each other: what is read at an agent is less than what
is read at the agents before it. -/
theorem IsChain.nodup_ids (hchain : IsChain net n p agents)
    (hlive : ∀ data ∈ agents, net.agent? data.id = some data) : (agents.map Agent.id).Nodup := by
  induction hchain with
  | zero => exact List.nodup_singleton _
  | @succ data n p x r agents hsymbol hports hjoined hchain ih =>
    have hwhole : Reads net p (some (n + 1)) :=
      (reads_some_iff h).2 ⟨_, .succ hsymbol hports hjoined hchain, hlive⟩
    obtain ⟨hdata, hrest⟩ := List.forall_mem_cons.1 hlive
    refine List.nodup_cons.2 ⟨fun hmem => ?_, ih hrest⟩
    obtain ⟨data', hdata', hid⟩ := List.mem_map.1 hmem
    obtain rfl : data' = data :=
      Option.some.inj ((hrest data' hdata').symm.trans (hid ▸ hdata))
    -- an agent that comes again would be read as two different numbers
    obtain ⟨m, q, suffix, hle, hhead, hsubset, hsuffix⟩ := hchain.exists_suffix hdata'
    rw [hports] at hhead
    obtain rfl := Option.some.inj hhead
    have hpart : Reads net p (some m) :=
      (reads_some_iff h).2 ⟨suffix, hsuffix, fun data hdata => hrest data (hsubset hdata)⟩
    have hsame := Option.some.inj (hpart.unique hwhole)
    omega

/-- The ports of a chain are joined to ports of the chain, except for the root. -/
theorem IsChain.joined_cases (hchain : IsChain net n p agents) {data : Agent}
    (hdata : data ∈ agents) (hq : q ∈ data.ports) (hqr : net.Joined q r) :
    q = p ∨ ∃ data' ∈ agents, r ∈ data'.ports := by
  induction hchain with
  | zero _ hports =>
    obtain rfl := List.mem_singleton.1 hdata
    rw [hports] at hq
    exact .inl (List.mem_singleton.1 hq)
  | @succ data' n p x y agents _ hports hjoined hchain ih =>
    rcases List.mem_cons.1 hdata with rfl | hdata
    · rw [hports, List.mem_pair] at hq
      rcases hq with rfl | rfl
      · exact .inl rfl
      · obtain ⟨next, hnext, hhead⟩ := hchain.exists_head
        rw [h.joined_unique hqr hjoined]
        exact .inr ⟨next, List.mem_cons_of_mem _ hnext, List.mem_of_head? hhead⟩
    · rcases ih hdata with rfl | ⟨next, hnext, hr⟩
      · rw [h.joined_unique hqr hjoined.symm]
        exact .inr ⟨data', List.mem_cons_self, by simp [hports]⟩
      · exact .inr ⟨next, List.mem_cons_of_mem _ hnext, hr⟩

/-- The agents of a chain with a free root are those that can be reached from it. -/
theorem IsChain.mem_iff_reaches (hchain : IsChain net n p agents)
    (hlive : ∀ data ∈ agents, net.agent? data.id = some data) (hfree : net.IsFree p)
    {data : Agent} : data ∈ agents ↔ net.agent? data.id = some data ∧ net.Reaches p data.id := by
  have hmem : ∀ {data : Agent} {q}, data ∈ agents → (q ∈ data.ports ↔ q ∈ net.portsOf data.id) :=
    fun hdata => by rw [portsOf_eq (hlive _ hdata)]
  constructor
  · refine fun hdata => ⟨hlive data hdata, ?_⟩
    clear hfree hmem
    induction hchain with
    | @zero data' p _ hports =>
      obtain rfl := List.mem_singleton.1 hdata
      exact ⟨data.id, by simp [portsOf_eq (hlive data hdata), hports], .refl⟩
    | @succ data' n p x r agents _ hports hjoined hchain ih =>
      obtain ⟨hdata', hrest⟩ := List.forall_mem_cons.1 hlive
      have hp : p ∈ net.portsOf data'.id := by simp [portsOf_eq hdata', hports]
      rcases List.mem_cons.1 hdata with rfl | hdata
      · exact ⟨_, hp, .refl⟩
      · obtain ⟨b, hr, hreach⟩ := ih hrest hdata
        exact ⟨_, hp, hreach.head ⟨x, by simp [portsOf_eq hdata', hports], r, hr, hjoined⟩⟩
  · rintro ⟨hdata, b, hb, hreach⟩
    -- by induction on the way: a link leads out of the chain at the root only, which is free
    have hids : ∀ a, ReflTransGen net.Linked b a → a ∈ agents.map Agent.id := by
      intro a hreach
      induction hreach with
      | refl =>
        obtain ⟨first, hfirst, hhead⟩ := hchain.exists_head
        have hp := (hmem hfirst).1 (List.mem_of_head? hhead)
        obtain rfl := h.agent_unique hb hp
        exact List.mem_map_of_mem hfirst
      | tail _ hlinked ih =>
        obtain ⟨last, hlast, rfl⟩ := List.mem_map.1 ih
        obtain ⟨q, hq, r, hr, hqr⟩ := hlinked
        rcases hchain.joined_cases h hlast ((hmem hlast).2 hq) hqr with rfl | ⟨next, hnext, hr'⟩
        · exact absurd hqr ((h.isFree_iff.1 hfree).2 r)
        · obtain rfl := h.agent_unique hr ((hmem hnext).1 hr')
          exact List.mem_map_of_mem hnext
    obtain ⟨data', hdata', hid⟩ := List.mem_map.1 (hids data.id hreach)
    obtain rfl : data' = data :=
      Option.some.inj ((hlive data' hdata').symm.trans (hid ▸ hdata))
    exact hdata'

/-- A chain with a free root is a component that is the net of a number. -/
theorem isomorphic_number_iff {part number : Net} (hp : net.IsFree p)
    (hpart : net.IsComponent p part) (hnumber : nat n = .ok number) :
    part.Isomorphic number ↔
      ∃ agents, IsChain net n p agents ∧ ∀ data ∈ agents, net.agent? data.id = some data := by
  obtain ⟨number', -, hnumber', -, root, cells, hw, hcells⟩ := exists_nat n
  obtain rfl := Except.ok.inj (hnumber.symm.trans hnumber')
  constructor
  · intro hiso
    have hiso' := hpart.wellFormed.isomorphic_symm hw.wellFormed hiso
    obtain ⟨q, agents, hq, hagents, hchain⟩ :=
      exists_isChain (hw.of_isomorphic hpart.wellFormed hiso') hcells
    obtain rfl : q = p := (List.cons.inj (hq.symm.trans hpart.interface_eq)).1
    refine ⟨agents, hchain.mono fun hqr => (hpart.joined_iff.1 hqr).1, fun data hdata => ?_⟩
    exact (hpart.agent?_iff.1 ((hpart.wellFormed.mem_agents_iff hagents).1 hdata)).1
  · rintro ⟨agents, hchain, hlive⟩
    have hmem : ∀ {data : Agent}, data ∈ agents ↔ part.agent? data.id = some data :=
      (hchain.mem_iff_reaches h hlive hp).trans hpart.agent?_iff.symm
    have hagents := hpart.wellFormed.perm_agents (hchain.nodup_ids h hlive) hmem
    have hchain' : IsChain part n p agents := hchain.of_joined fun data hdata q hq r hqr =>
      hpart.joined_iff.2 ⟨hqr, data.id, ((hchain.mem_iff_reaches h hlive hp).1 hdata).2,
        by rwa [portsOf_eq (hlive data hdata)]⟩
    obtain ⟨name, hname⟩ := hpart.wellFormed.exists_isNaming
    have hw' : part.Written (agents.map (Cell.of name)) [name p] :=
      ⟨hpart.wellFormed, name, agents, hname, hagents, rfl, by rw [hpart.interface_eq]; rfl⟩
    exact isomorphic_of_isNumeral hw' (hchain'.isNumeral hpart.wellFormed hname) hw hcells

/-- **Reading a number always ends and is exact.** From the first port on the interface the way ends
by itself, with the answer. The answer is a number exactly when the port is the root of a chain of
as many successors on top of a zero, and exactly when the component of the port, with the port alone
as its boundary, is isomorphic to the net of the number. -/
theorem readNat_exact :
    (∀ p, net.interface.head? = some p → ∀ result, Reads net p result ↔ result = readNat net) ∧
    ∀ n, (readNat net = some n ↔ ∃ p agents, net.interface.head? = some p ∧
        IsChain net n p agents ∧ ∀ data ∈ agents, net.agent? data.id = some data) ∧
      (readNat net = some n ↔ ∃ p part number, net.interface.head? = some p ∧
        net.IsComponent p part ∧ nat n = .ok number ∧ part.Isomorphic number) := by
  have hfree : ∀ {p}, net.interface.head? = some p → net.IsFree p := fun hp =>
    h.isFree_of_mem_interface (List.mem_of_head? hp)
  have hends : ∀ {p}, net.interface.head? = some p → Reads net p (readNat net) := by
    intro p hp
    rw [readNat, hp]
    exact reads_of_isFree h (hfree hp)
  have hchain : ∀ n, readNat net = some n ↔ ∃ p agents, net.interface.head? = some p ∧
      IsChain net n p agents ∧ ∀ data ∈ agents, net.agent? data.id = some data := by
    intro n
    constructor
    · intro hread
      cases hp : net.interface.head? with
      | none => simp [readNat, hp] at hread
      | some p =>
        obtain ⟨agents, hchain⟩ := (reads_some_iff h).1 (hread ▸ hends hp)
        exact ⟨p, agents, rfl, hchain⟩
    · rintro ⟨p, agents, hp, hchain⟩
      exact (hends hp).unique ((reads_some_iff h).2 ⟨agents, hchain⟩)
  refine ⟨fun p hp result => ⟨fun hreads => hreads.unique (hends hp), ?_⟩, fun n => ⟨hchain n, ?_⟩⟩
  · rintro rfl
    exact hends hp
  · rw [hchain]
    constructor
    · rintro ⟨p, agents, hp, hagents⟩
      obtain ⟨part, hpart⟩ := h.exists_isComponent (hfree hp)
      exact ⟨p, part, numberNet n, hp, hpart, nat_eq n,
        (isomorphic_number_iff h (hfree hp) hpart (nat_eq n)).2 ⟨agents, hagents⟩⟩
    · rintro ⟨p, part, number, hp, hpart, hnumber, hiso⟩
      obtain ⟨agents, hagents⟩ := (isomorphic_number_iff h (hfree hp) hpart hnumber).1 hiso
      exact ⟨p, agents, hp, hagents⟩

end Steps

/-- A one with its root on the interface, beside a successor that is connected to itself. -/
def besideCycle : Net :=
  ((connectPairs [(1, 0), (3, 4)]).run (((single succ).newAgent succ).2.newAgent zero).2).2

theorem wellFormed_besideCycle : besideCycle.WellFormed :=
  (((wellFormed_single succ).newAgent succ).newAgent zero).run_connectPairs [(1, 0), (3, 4)]

/-- The one is read, although reading from the cycle beside it would not end. -/
theorem readNat_besideCycle : besideCycle.interface.head? = some 2 ∧
    readNat besideCycle = some 1 ∧
    (∀ result, Reads besideCycle 2 result ↔ result = some 1) ∧
    (∀ result, ¬ Reads besideCycle 0 result) ∧
    ∃ part number, besideCycle.IsComponent 2 part ∧ nat 1 = .ok number ∧
      part.Isomorphic number := by
  obtain ⟨hends, hexact⟩ := readNat_exact wellFormed_besideCycle
  have hhead : besideCycle.interface.head? = some 2 := by decide +kernel
  have hread : readNat besideCycle = some 1 := by decide +kernel
  have hcycle : readStep besideCycle 0 = .inr 0 := by decide +kernel
  obtain ⟨p, part, number, hp, hpart, hnumber, hiso⟩ := (hexact 1).2.1 hread
  obtain rfl := Option.some.inj (hhead.symm.trans hp)
  refine ⟨hhead, hread, ?_, fun _ => not_reads_of_readStep_self (.single hcycle), part, number,
    hpart, hnumber, hiso⟩
  rw [← hread]
  exact hends 2 hhead

end InteractionNets.Peano
