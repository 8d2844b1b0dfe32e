import InteractionNets.Proofs.Term.Coverage
import InteractionNets.Proofs.Term.Reading

/-!
# The printed form determines the net

The equations of a net say how it can be written down (`Net.written_equations`), so nets with the
same equations are isomorphic. When the names of their agents are plain, the equations are known
from the text, and nets with the same text are isomorphic (`Net.exists_renames_of_text`).
-/

namespace InteractionNets

namespace Net

variable {net other : Net}

/-- The names of all agents are plain. -/
def HasPlainNames (net : Net) : Prop :=
  ∀ data ∈ net.agentList, IsPlain data.symbol.name

instance (net : Net) : Decidable net.HasPlainNames :=
  inferInstanceAs (Decidable (∀ data ∈ net.agentList, _))

/-! ### What is printed can be read back -/

section Legible

variable {names : List ConnectionId} {path : List Nat} {k line : Nat} {p : PortId} {t : Term}
  {ports : List PortId} {terms : List Term} {equations : List Equation} {agents : List Agent}
  {marked : List (PortId × Mark)}

theorem Ends.legible (h : Ends net names p t) : Term.Legible [t] := by
  cases h <;> exact .cons trivial .nil .nil

variable (hwf : net.WellFormed) (hplain : net.HasPlainNames)

include hwf hplain

theorem HasPlainNames.legible_agent {data : Agent} {args : List Term}
    (hdata : net.agent? data.id = some data) (hargs : Term.Legible args)
    (hterms : Term.Legible terms) :
    Term.Legible (.agent data.symbol.name args :: terms) :=
  .cons (hplain data (hwf.mem_agentList_iff.2 hdata)) hargs hterms

theorem Shows.legible (h : Shows net names path k ports terms agents marked) :
    Term.Legible terms := by
  induction h with
  | nil => exact .nil
  | ends hend _ ih =>
    cases hend.legible with
    | cons hread hargs _ => exact .cons hread hargs ih
  | agent hdata _ _ _ _ _ ihi ih => exact hplain.legible_agent hwf hdata ihi ih

theorem ShowsLine.isLegible {equation : Equation}
    (h : ShowsLine net names line equation agents marked) : equation.IsLegible := by
  cases h with
  | pair hl _ hr _ _ hleft hright =>
    refine ⟨hplain.legible_agent hwf hl (hleft.legible hwf hplain) .nil, fun side hside => ?_⟩
    obtain rfl := Option.some.inj hside
    exact hplain.legible_agent hwf hr (hright.legible hwf hplain) .nil
  | root hdata _ hend hargs =>
    refine ⟨hend.legible, fun side hside => ?_⟩
    obtain rfl := Option.some.inj hside
    exact hplain.legible_agent hwf hdata (hargs.legible hwf hplain) .nil
  | lone hdata _ => exact ⟨hplain.legible_agent hwf hdata .nil .nil, fun _ hside => nomatch hside⟩

theorem ShowsAll.isLegible (h : ShowsAll net names line equations agents marked) :
    ∀ equation ∈ equations, equation.IsLegible := by
  induction h with
  | nil => exact List.forall_mem_nil _
  | cons hline _ ih => exact List.forall_mem_cons.2 ⟨hline.isLegible hwf hplain, ih⟩

end Legible

/-! ### What can be read back is the net -/

/-- The equations of a net say how it can be written down, and which places its interface has. -/
theorem written_equations (h : net.WellFormed) :
    net.Written (Equation.cellsAll 0 net.equations)
      ((List.range net.interface.length).map Mark.free) ∧
    ∀ i, Mark.free i ∈ wiresOf (Equation.cellsAll 0 net.equations) ↔ i < net.interface.length := by
  obtain ⟨agents, names, marked, hnames, hagents, hshows, -⟩ := exists_equations h
  obtain ⟨mark, hcells, -, hname, hsuits⟩ := hshows.exists_mark h hnames hagents
  have hfree : net.interface.map mark = (List.range net.interface.length).map Mark.free := by
    refine List.ext_getElem (by rw [List.length_map, List.length_map, List.length_range]) ?_
    intro i hi _
    rw [List.length_map] at hi
    have hp := List.getElem?_eq_getElem hi
    have hmark := (free_mark h hsuits (h.isFree_of_mem_interface (List.mem_of_getElem? hp))).1 i hp
    rw [List.getElem_map, List.getElem_map, List.getElem_range, hmark]
  have hw : net.Written (Equation.cellsAll 0 net.equations)
      ((List.range net.interface.length).map Mark.free) :=
    ⟨h, mark, agents, hname, hagents, hcells, hfree⟩
  refine ⟨hw, fun i => ⟨fun hmem => ?_, fun hi => ?_⟩⟩
  · rw [← hcells, wiresOf_map_of] at hmem
    obtain ⟨p, hp, heq⟩ := List.mem_map.1 hmem
    have hsuit := hsuits p ((h.mem_ports_iff hagents).1 hp)
    rw [heq] at hsuit
    exact (List.getElem?_eq_some_iff.1 hsuit).1
  · exact hw.mem_wiresOf (List.mem_map_of_mem (List.mem_range.2 hi))

/-- Nets with the same equations are isomorphic. -/
theorem isomorphic_of_equations (h : net.WellFormed) (hother : other.WellFormed)
    (heq : net.equations = other.equations) : net.Isomorphic other := by
  obtain ⟨hw, hplaces⟩ := written_equations h
  obtain ⟨hw', hplaces'⟩ := written_equations hother
  rw [heq] at hw hplaces
  -- a place on the interface is in the cells, so the two interfaces have the same places
  have hlength : net.interface.length = other.interface.length :=
    eq_of_forall_lt_iff fun i => (hplaces i).symm.trans (hplaces' i)
  rw [hlength] at hw
  exact hw.isomorphic hw'

/-- **The printed form determines the net.** Nets whose agents have plain names and that are printed
in the same way are equal up to the choice of ids: a bijection between their agents keeps symbols
with their arities, joined ports, the interface with its order, and hidden ports. -/
theorem exists_renames_of_text (h : net.WellFormed) (hother : other.WellFormed)
    (hplain : net.HasPlainNames) (hplain' : other.HasPlainNames) {indent : Nat}
    (htext : net.text indent = other.text indent) :
    ∃ f : AgentId → AgentId, net.Renames other f ∧
      List.Forall₂ (net.SamePlace other f) net.interface other.interface ∧
      ∀ p p', net.SamePlace other f p p' → (net.IsHidden p ↔ other.IsHidden p') := by
  obtain ⟨_, _, _, -, -, hshows, -⟩ := exists_equations h
  obtain ⟨_, _, _, -, -, hshows', -⟩ := exists_equations hother
  have heq : net.equations = other.equations :=
    equations_eq_of_text (hshows.isLegible h hplain) (hshows'.isLegible hother hplain') htext
  obtain ⟨f, hf, hinterface⟩ := isomorphic_of_equations h hother heq
  exact ⟨f, hf, hinterface, fun p p' hp => hf.isHidden_iff h hother hinterface hp⟩

/-- The same net as `tangle`, with other ids. -/
def entanglement : Net :=
  ((restrictInterface [6]).run ((connectPairs [(7, 8), (2, 4), (1, 9), (0, 3)]).run
    ((((((single ⟨"F", 3⟩).newAgent ⟨"G", 3⟩).2.newAgent ⟨"H", 1⟩).2.newAgent ⟨"L", 2⟩).2.newAgent
      ⟨"Z", 1⟩).2)).2).2

theorem wellFormed_entanglement : entanglement.WellFormed :=
  (((((((wellFormed_single _).newAgent _).newAgent _).newAgent _).newAgent _).run_connectPairs
    [(7, 8), (2, 4), (1, 9), (0, 3)]).run_restrictInterface [6])

theorem exists_renames_of_text_entanglement : tangle.text 0 = entanglement.text 0 ∧
    (tangle.agent? 2).map Agent.symbol = some ⟨"Z", 1⟩ ∧
    (entanglement.agent? 2).map Agent.symbol = some ⟨"H", 1⟩ ∧
    ∃ f : AgentId → AgentId, tangle.Renames entanglement f ∧
      List.Forall₂ (tangle.SamePlace entanglement f) tangle.interface entanglement.interface ∧
      ∀ p p', tangle.SamePlace entanglement f p p' →
        (tangle.IsHidden p ↔ entanglement.IsHidden p') := by
  have htext : tangle.text 0 = entanglement.text 0 := by decide +kernel
  exact ⟨htext, by decide +kernel, by decide +kernel, exists_renames_of_text wellFormed_tangle
    wellFormed_entanglement (by decide +kernel) (by decide +kernel) htext⟩

/-- Names that are not plain can look like a place on the interface. -/
example : (single ⟨"#0 = F", 0⟩).text 0 = (single ⟨"F", 1⟩).text 0 := by decide +kernel

end Net

end InteractionNets
