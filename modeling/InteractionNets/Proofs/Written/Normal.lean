import InteractionNets.Proofs.Net.Invariance
import InteractionNets.Proofs.Reduction.Strategies
import InteractionNets.Proofs.Written.Turning

/-!
# Normal forms that are written down

A net is in normal form when no two of its cells face each other (`Net.Written.isNormal`). An engine
that comes to a normal form comes to one that is written down in the same way, because isomorphic
nets are (`Net.Written.of_isomorphic`).
-/

namespace InteractionNets

namespace Net

variable {N : Type} {net other : Net} {cells : List (Cell N)} {free : List N}

section Renames

variable {f : AgentId → AgentId} (hf : net.Renames other f) (h : net.WellFormed)
  (hother : other.WellFormed)

include hf h hother

/-- The names of ports can be given to the ports that correspond to them. -/
theorem Renames.exists_name (name : PortId → N) :
    ∃ name' : PortId → N, ∀ {p p'}, net.SamePlace other f p p' → name' p' = name p := by
  have hall : ∀ p', ∃ n, ∀ p, net.SamePlace other f p p' → n = name p := by
    intro p'
    by_cases hp : ∃ p, net.SamePlace other f p p'
    · obtain ⟨p, hp⟩ := hp
      exact ⟨name p, fun q hq => congrArg name ((hf.biUnique_samePlace h hother).1 hp hq)⟩
    · exact ⟨name 0, fun p hp' => absurd ⟨p, hp'⟩ hp⟩
  choose name' hname' using hall
  exact ⟨name', fun hp => hname' _ _ hp⟩

/-- Every live port corresponds to a live port. -/
theorem Renames.exists_live_samePlace {p' : PortId} (hp' : (other.port? p').isSome) :
    ∃ p, (net.port? p).isSome ∧ net.SamePlace other f p p' := by
  obtain ⟨b, k, hk⟩ := hother.port?_isSome_iff.1 hp'
  obtain ⟨a, p, -, hp, hpp'⟩ := hf.exists_samePlace_left h hother hk
  exact ⟨p, h.port?_isSome_iff.2 ⟨a, k, hp⟩, hpp'⟩

/-- Names that tell ports apart up to connections still do when corresponding ports have them. -/
theorem Renames.isNaming {name name' : PortId → N} (hname : net.IsNaming name)
    (hsame : ∀ {p p'}, net.SamePlace other f p p' → name' p' = name p) : other.IsNaming name' := by
  intro p' q' hp' hq'
  obtain ⟨p, hp, hpp'⟩ := hf.exists_live_samePlace h hother hp'
  obtain ⟨q, hq, hqq'⟩ := hf.exists_live_samePlace h hother hq'
  rw [hsame hpp', hsame hqq', hname hp hq, hf.joined hpp' hqq']
  refine or_congr_left ⟨?_, ?_⟩
  · rintro rfl
    exact (hf.biUnique_samePlace h hother).2 hpp' hqq'
  · rintro rfl
    exact (hf.biUnique_samePlace h hother).1 hpp' hqq'

/-- The agents of an isomorphic net are those that correspond to the agents of the net. -/
theorem Renames.perm_agents {agents : List Agent} (hagents : net.agentList.Perm agents)
    {agentAt : Agent → Agent}
    (hagentAt : ∀ data ∈ agents, other.agent? (f data.id) = some (agentAt data)) :
    other.agentList.Perm (agents.map agentAt) := by
  have hid : ∀ data ∈ agents, (agentAt data).id = f data.id := fun data hdata =>
    hother.agent_id (hagentAt data hdata)
  refine hother.perm_agents ?_ fun {data'} => ?_
  · have hids : (agents.map agentAt).map Agent.id = (agents.map Agent.id).map f := by
      rw [List.map_map, List.map_map]
      exact List.map_congr_left hid
    rw [hids]
    refine (h.nodup_map_id hagents).map_on fun a ha b hb => ?_
    exact hf.bijOn.injOn ((h.mem_map_id_iff hagents).1 ha) ((h.mem_map_id_iff hagents).1 hb)
  · rw [List.mem_map]
    constructor
    · rintro ⟨data, hdata, rfl⟩
      rw [hid data hdata]
      exact hagentAt data hdata
    · intro hdata'
      have hlive : (other.agent? data'.id).isSome := by rw [hdata']; rfl
      obtain ⟨a, ha, hfa⟩ := hf.bijOn.surjOn hlive
      obtain ⟨data, hdata⟩ := Option.isSome_iff_exists.1 ha
      obtain rfl := h.agent_id hdata
      have hmem := (h.mem_agents_iff hagents).2 hdata
      have hat := hagentAt data hmem
      rw [hfa, hdata', Option.some.injEq] at hat
      exact ⟨data, hmem, hat.symm⟩

end Renames

/-- Isomorphic nets can be written down in the same way. -/
theorem Written.of_isomorphic (hw : net.Written cells free) (hother : other.WellFormed)
    (hiso : net.Isomorphic other) : other.Written cells free := by
  obtain ⟨name, agents, hname, hagents, rfl, rfl⟩ := hw.exists_agents
  obtain ⟨f, hf, hinterface⟩ := hiso
  have h := hw.wellFormed
  obtain ⟨name', hsame⟩ := hf.exists_name h hother name
  have hmap : ∀ {l l' : List PortId}, List.Forall₂ (net.SamePlace other f) l l' →
      l'.map name' = l.map name := by
    intro l l' hl
    induction hl with
    | nil => rfl
    | cons hp _ ih => rw [List.map_cons, List.map_cons, ih, hsame hp]
  let agentAt : Agent → Agent := fun data => (other.agent? (f data.id)).getD default
  have hagent : ∀ data ∈ agents, other.agent? (f data.id) = some (agentAt data) ∧
      Cell.of name' (agentAt data) = Cell.of name data := by
    intro data hdata
    have hlive := (h.mem_agents_iff hagents).1 hdata
    obtain ⟨data', hdata', hsymbol⟩ := hf.symbol hlive
    have hat : agentAt data = data' := by simp only [agentAt, hdata', Option.getD_some]
    refine ⟨hat ▸ hdata', ?_⟩
    have hports := hf.forall₂_portsOf h hother (a := data.id) (by rw [hlive]; rfl)
    rw [portsOf_eq hlive, portsOf_eq hdata'] at hports
    rw [hat, Cell.of, Cell.of, hsymbol, hmap hports]
  refine ⟨hother, name', agents.map agentAt, hf.isNaming h hother hname hsame,
    hf.perm_agents h hother hagents fun data hdata => (hagent data hdata).1, ?_, hmap hinterface⟩
  rw [List.map_map]
  exact List.map_congr_left fun data hdata => (hagent data hdata).2

/-- The first names of some cells. -/
def headsOf (cells : List (Cell N)) : List N :=
  cells.filterMap fun cell => cell.wires.head?

/-- Nets in which no two cells face each other are in normal form. -/
theorem Written.isNormal (hw : net.Written cells free) (hheads : (headsOf cells).Nodup) :
    net.isNormal := by
  obtain ⟨name, agents, hname, hagents, rfl, -⟩ := hw.exists_agents
  have h := hw.wellFormed
  refine isNormal_iff.2 fun pair hpair => ?_
  obtain ⟨p, q, hp, hq, hpq⟩ := meets_of_mem_activePairs h hpair
  have hlisted : ∀ {a r}, (net.portsOf a)[0]? = some r →
      ∃ data ∈ agents, data.ports.head? = some r := by
    intro a r hr
    obtain ⟨data, hdata⟩ := Option.isSome_iff_exists.1 (isSome_agent?_of_getElem? hr)
    obtain rfl := h.agent_id hdata
    rw [getElem?_portsOf_zero hdata] at hr
    exact ⟨data, (h.mem_agents_iff hagents).2 hdata, hr⟩
  obtain ⟨left, hleft, hp'⟩ := hlisted hp
  obtain ⟨right, hright, hq'⟩ := hlisted hq
  have hne : left ≠ right := by
    rintro rfl
    exact h.joined_ne hpq (Option.some.inj (hp'.symm.trans hq'))
  have hheadOf : ∀ {data : Agent} {r}, data.ports.head? = some r →
      (Cell.of name data).wires.head? = some (name r) := fun {data r} hr => by
    rw [Cell.of, List.head?_map, hr]
    rfl
  -- two agents that face each other have one name at their heads
  rw [headsOf, List.filterMap_map, List.nodup_iff_pairwise_ne, List.pairwise_filterMap] at hheads
  simp only [Function.comp_apply] at hheads
  have hsymm : Std.Symm fun data data' => ∀ m, (Cell.of name data).wires.head? = some m →
      ∀ m', (Cell.of name data').wires.head? = some m' → m ≠ m' :=
    ⟨fun _ _ hab m hm m' hm' => (hab m' hm' m hm).symm⟩
  have hnames : name p ≠ name q :=
    hheads.forall hleft hright hne _ (hheadOf hp') _ (hheadOf hq')
  exact hnames (hname.eq_of_joined h hpq)

/-- The names in some cells other than the first ones. -/
def auxiliariesOf (cells : List (Cell N)) : List N :=
  cells.flatMap fun cell => cell.wires.tail

@[simp] theorem auxiliariesOf_cons (cell : Cell N) (cells : List (Cell N)) :
    auxiliariesOf (cell :: cells) = cell.wires.tail ++ auxiliariesOf cells := rfl

@[simp] theorem auxiliariesOf_append (cells cells' : List (Cell N)) :
    auxiliariesOf (cells ++ cells') = auxiliariesOf cells ++ auxiliariesOf cells' :=
  List.flatMap_append

@[simp] theorem headsOf_cons (cell : Cell N) (cells : List (Cell N)) :
    headsOf (cell :: cells) = cell.wires.head?.toList ++ headsOf cells := by
  rw [headsOf, List.filterMap_cons]
  cases cell.wires.head? <;> rfl

@[simp] theorem headsOf_append (cells cells' : List (Cell N)) :
    headsOf (cells ++ cells') = headsOf cells ++ headsOf cells' :=
  List.filterMap_append

/-- The names in some cells are the first ones and the others. -/
theorem perm_wiresOf (cells : List (Cell N)) :
    (wiresOf cells).Perm (headsOf cells ++ auxiliariesOf cells) := by
  induction cells with
  | nil => exact .refl _
  | cons cell cells ih =>
    obtain ⟨symbol, _ | ⟨w, ws⟩⟩ := cell
    · exact ih
    · have hrest := (ih.append_left ws).trans (List.perm_append_comm_assoc ws _ _)
      simpa using hrest.cons w

/-- First names that occur elsewhere, too, in cells or on the interface, are different. -/
theorem Written.nodup_headsOf [DecidableEq N] (hw : net.Written cells free)
    (hheads : headsOf cells ⊆ auxiliariesOf cells ++ free) : (headsOf cells).Nodup := by
  refine List.nodup_iff_count_le_one.2 fun n => ?_
  by_cases hn : n ∈ headsOf cells
  · have htwice := hw.count_le_two n
    have helsewhere := List.count_pos_iff.2 (hheads hn)
    rw [List.count_append, (perm_wiresOf cells).count_eq, List.count_append] at htwice
    rw [List.count_append] at helsewhere
    omega
  · rw [List.count_eq_zero_of_not_mem hn]
    exact Nat.zero_le 1

end Net

/-- **An engine without a limit** makes the interactions of a reduction that ends with a normal
form, and comes to a net that is written down in the same way, on both strategies. -/
theorem Engine.exists_run_of_reduces {N : Type} {rules : RuleSet} (hrules : rules.Lawful)
    {net normal : Net} (h : net.WellFormed) {n : Nat} (hreduces : rules.Reduces n net normal)
    {cells : List (Cell N)} {free : List N} (hw : normal.Written cells free)
    (hheads : (Net.headsOf cells).Nodup) (strategy : Strategy)
    (watch : Stopwatch) {fuel : Nat} (hfuel : n ≤ fuel) :
    ∃ after, ((Engine.mk ⟨none, strategy⟩ ⟨rules, watch⟩).run fuel).run net =
      (.ok (some ⟨.normalForm, n⟩), after) ∧ after.Written cells free := by
  have haway := RuleSet.IsAway.of_reduces hrules h hreduces (hw.isNormal hheads)
  obtain ⟨after, hrun, hleft⟩ :=
    exists_drive (e := ⟨⟨none, strategy⟩, ⟨rules, watch⟩⟩) hrules haway fuel
  rw [Nat.sub_eq_zero_of_le hfuel] at hleft
  refine ⟨after, run_eq_normalForm_iff.2 ?_, hw.of_isomorphic hleft.wellFormed ?_⟩
  · rw [Option.getD_none, hrun, Run.within, if_pos hfuel, Nat.min_eq_left hfuel, Nat.zero_add]
  · exact hleft.isomorphic

/-- An engine without a limit takes a net to what its cells turn into, if no two of these face each
other. -/
theorem Engine.exists_run_of_turns {rules : RuleSet} (hrules : rules.Lawful) {net : Net}
    {cells : List (Cell Nat)} {free : List Nat} (hw : net.Written cells free) {n : Nat}
    {goal : List (Cell Nat) → Prop} (hturns : rules.Turns n cells goal)
    (hheads : ∀ {normal : Net} {result}, goal result → normal.Written result free →
      (Net.headsOf result).Nodup) :
    ∃ result, goal result ∧ ∀ (strategy : Strategy) (watch : Stopwatch) (spare : Nat), ∃ after,
      ((Engine.mk ⟨none, strategy⟩ ⟨rules, watch⟩).run (n + spare)).run net =
        (.ok (some ⟨.normalForm, n⟩), after) ∧ after.Written result free := by
  obtain ⟨normal, result, hresult, hreduces, hnormal⟩ :=
    hturns net [] free (by rwa [List.append_nil])
  rw [List.append_nil] at hnormal
  exact ⟨result, hresult, fun strategy watch spare => exists_run_of_reduces hrules hw.wellFormed
    hreduces hnormal (hheads hresult hnormal) strategy watch (Nat.le_add_right n spare)⟩

end InteractionNets
