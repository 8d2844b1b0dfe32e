import InteractionNets.Proofs.Peano.Nets

/-!
# Chains

A number in a net is a chain of agents: successors, one connected to the next, on top of a zero. A
chain stays a chain when the net grows (`IsChain.mono`) and when it is copied (`IsChain.copy`). Its
agents can be written down as the number (`IsChain.isNumeral`), and the other way around
(`exists_isChain`). So the number can be read back from the net (`readNat_eq`).
-/

namespace InteractionNets.Peano

open Net

variable {net other : Net} {n root : Nat} {cells : List (Cell Nat)} {p : PortId}
  {agents : List Agent}

/-- Some agents of a net are a number, and a port is its root. -/
inductive IsChain (net : Net) : Nat → PortId → List Agent → Prop
  | zero {data : Agent} {p : PortId} : data.symbol = Peano.zero → data.ports = [p] →
      IsChain net 0 p [data]
  | succ {data : Agent} {n : Nat} {p q r : PortId} {agents : List Agent} :
      data.symbol = Peano.succ → data.ports = [p, q] → net.Joined q r →
      IsChain net n r agents → IsChain net (n + 1) p (data :: agents)

namespace IsChain

/-- A chain is still there when its own ports stay joined. -/
theorem of_joined (h : IsChain net n p agents)
    (hjoined : ∀ data ∈ agents, ∀ q ∈ data.ports, ∀ r, net.Joined q r → other.Joined q r) :
    IsChain other n p agents := by
  induction h with
  | zero hsymbol hports => exact .zero hsymbol hports
  | succ hsymbol hports hqr _ ih =>
    obtain ⟨hdata, hrest⟩ := List.forall_mem_cons.1 hjoined
    exact .succ hsymbol hports (hdata _ (by simp [hports]) _ hqr) (ih hrest)

/-- A chain is still there when ports stay joined. -/
theorem mono (h : IsChain net n p agents) (hjoined : ∀ {q r}, net.Joined q r → other.Joined q r) :
    IsChain other n p agents :=
  h.of_joined fun _ _ _ _ _ => hjoined

/-- A copy of a chain is a chain. -/
theorem copy {host after : Net} {copy : AgentId → AgentId} {port : PortId → PortId}
    (hcopy : IsCopy net host after copy port) (h : IsChain net n p agents) :
    IsChain after n (port p) (agents.map (copyAgent copy port)) := by
  induction h with
  | zero hsymbol hports => exact .zero hsymbol (congrArg (List.map port) hports)
  | succ hsymbol hports hqr _ ih =>
    exact .succ hsymbol (congrArg (List.map port) hports)
      (hcopy.joined.2 (.inr ⟨_, _, hqr, rfl, rfl⟩)) ih

/-- A chain is written down as the number. -/
theorem isNumeral (h : net.WellFormed) {name : PortId → Nat} (hname : net.IsNaming name)
    (hchain : IsChain net n p agents) : IsNumeral n (name p) (agents.map (Cell.of name)) := by
  induction hchain with
  | @zero data p hsymbol hports =>
    rw [List.map_singleton, Cell.of, hsymbol, hports]
    exact .zero (name p)
  | @succ data n p q r agents hsymbol hports hqr _ ih =>
    have hsame : name q = name r := hname.eq_of_joined h hqr
    rw [List.map_cons, Cell.of, hsymbol, hports, List.map_cons, List.map_singleton, hsame]
    exact .succ (name p) ih

theorem length_eq (h : IsChain net n p agents) : agents.length = n + 1 := by
  induction h with
  | zero => rfl
  | succ _ _ _ _ ih => exact congrArg Nat.succ ih

/-- The root of a chain is the principal port of its first agent. -/
theorem exists_head (h : IsChain net n p agents) :
    ∃ data ∈ agents, data.ports.head? = some p := by
  cases h with
  | zero _ hports => exact ⟨_, List.mem_cons_self, by rw [hports]; rfl⟩
  | succ _ hports => exact ⟨_, List.mem_cons_self, by rw [hports]; rfl⟩

end IsChain

/-- Agents of a net that are written down as a number are a chain. -/
theorem IsNumeral.exists_isChain (h : net.WellFormed) {name : PortId → Nat}
    (hname : net.IsNaming name) (hcells : IsNumeral n root cells)
    (hlive : ∀ data ∈ agents, net.agent? data.id = some data)
    (hmap : agents.map (Cell.of name) = cells) : ∃ p, name p = root ∧ IsChain net n p agents := by
  induction hcells generalizing agents with
  | zero root =>
    obtain ⟨data, rfl, hcell⟩ := List.map_eq_singleton_iff.1 hmap
    obtain ⟨hsymbol, hports⟩ := Cell.mk.inj hcell
    obtain ⟨p, hports, hp⟩ := List.map_eq_singleton_iff.1 hports
    exact ⟨p, hp, .zero hsymbol hports⟩
  | @succ root n x cells _ ih =>
    obtain ⟨data, rest, rfl, hcell, hrest⟩ := List.map_eq_cons_iff.1 hmap
    obtain ⟨hsymbol, hwires⟩ := Cell.mk.inj hcell
    obtain ⟨p, ports, hports, hp, htail⟩ := List.map_eq_cons_iff.1 hwires
    obtain ⟨q, rfl, hq⟩ := List.map_eq_singleton_iff.1 htail
    have hlive' : ∀ data ∈ rest, net.agent? data.id = some data :=
      fun data hdata => hlive data (List.mem_cons_of_mem _ hdata)
    obtain ⟨r, hr, hchain⟩ := ih hlive' hrest
    obtain ⟨next, hnext, hhead⟩ := hchain.exists_head
    have hqAt : (net.portsOf data.id)[1]? = some q := by
      rw [portsOf_eq (hlive data List.mem_cons_self), hports]
      rfl
    have hrAt := (getElem?_portsOf_zero (hlive' next hnext)).trans hhead
    -- ports of one name are joined unless they are the same, which their positions forbid
    have hqr := (hname (h.port?_isSome_iff.2 ⟨_, _, hqAt⟩) (h.port?_isSome_iff.2 ⟨_, _, hrAt⟩)).1
      (hq.trans hr.symm)
    refine ⟨p, hp, .succ hsymbol hports (hqr.resolve_left ?_) hchain⟩
    rintro rfl
    cases (h.port_unique hqAt hrAt).2

/-- A net that is written down as a number is a chain with its root on the interface. -/
theorem exists_isChain (hw : net.Written cells [root]) (h : IsNumeral n root cells) :
    ∃ p agents, net.interface = [p] ∧ net.agentList.Perm agents ∧ IsChain net n p agents := by
  obtain ⟨name, agents, hname, hagents, hmap, hfree⟩ := hw.exists_agents
  have hwf := hw.wellFormed
  obtain ⟨p, hp, hpName⟩ := List.map_eq_singleton_iff.1 hfree
  obtain ⟨r, hr, hchain⟩ := h.exists_isChain hwf hname
    (fun data hdata => (hwf.mem_agents_iff hagents).1 hdata) hmap
  obtain ⟨data, hdata, hhead⟩ := hchain.exists_head
  -- no other port has the name of the one on the interface
  obtain rfl : r = p := hname.eq_of_mem_interface hwf (by simp [hp])
    (hwf.isSome_of_mem_ports hagents hdata (List.mem_of_head? hhead)) (hr.trans hpName.symm)
  exact ⟨r, agents, hp, hagents, hchain⟩

/-! ### Reading numbers -/

/-- What is read at the principal port of an agent. -/
theorem readFrom_of_head (h : net.WellFormed) {data : Agent}
    (hdata : net.agent? data.id = some data) (hp : data.ports.head? = some p)
    (fuel : Nat) : readFrom net (fuel + 1) p =
      if data.symbol = zero then some 0
      else if data.symbol = succ then do
        let next ← data.auxiliary.head?
        let root ← net.peer? next
        return (← readFrom net fuel root) + 1
      else none := by
  have hfirst := (getElem?_portsOf_zero hdata).trans hp
  rw [readFrom, h.port?_eq hfirst]
  simp [hdata]

/-- A chain is read from its root, with fuel for all of its agents. -/
theorem IsChain.readFrom_eq (h : net.WellFormed) (hchain : IsChain net n p agents)
    (hlive : ∀ data ∈ agents, net.agent? data.id = some data) :
    readFrom net agents.length p = some n := by
  induction hchain with
  | @zero data p hsymbol hports =>
    have hdata := hlive data List.mem_cons_self
    rw [List.length_singleton, readFrom_of_head h hdata (by rw [hports]; rfl), if_pos hsymbol]
  | @succ data n p q r agents hsymbol hports hqr _ ih =>
    have hdata := hlive data List.mem_cons_self
    have hrest := ih fun data hmem => hlive data (List.mem_cons_of_mem _ hmem)
    rw [List.length_cons, readFrom_of_head h hdata (by rw [hports]; rfl), hsymbol,
      if_neg (by decide), if_pos rfl, Agent.auxiliary, hports]
    simp [h.peer?_eq_some_iff.2 hqr, hrest]

/-- A number is read back. -/
theorem readNat_eq (hw : net.Written cells [root]) (h : IsNumeral n root cells) :
    readNat net = some n := by
  obtain ⟨p, agents, hp, hagents, hchain⟩ := exists_isChain hw h
  have hwf := hw.wellFormed
  rw [readNat, hp, size_agents_eq hagents]
  exact hchain.readFrom_eq hwf fun data hdata => (hwf.mem_agents_iff hagents).1 hdata

end InteractionNets.Peano
