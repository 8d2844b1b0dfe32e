import InteractionNets.Net.Term
import InteractionNets.Proofs.Net.Invariance
import InteractionNets.Proofs.Written.Cells

/-!
# Reading equations

The equations of a net are read as cells (`Equation.cellsAll`), one for each agent that is written
in them. The ports of a cell are marked by what is written for them: two ports have the same mark
when one agent stands inside the other, when the two agents stand on the two sides of a line, or
when the same variable is written for both. Every other mark says where in the equations it stands.

What equations say about a net is said port by port and agent by agent (`Net.Shows`,
`Net.ShowsAll`). The cells of the equations are then those of the agents that are written
(`Net.ShowsAll.cells_eq`), whose ports are marked once for each time they are written
(`Net.ShowsAll.perm_ports`).
-/

namespace InteractionNets

/-- What is written for a port. A path leads to a place in the equations, from the inside to the
line. -/
inductive Mark
  /-- A variable. -/
  | named (number : Nat)
  /-- A place on the interface. -/
  | free (index : Nat)
  /-- A hidden end that is written at some place. -/
  | hidden (path : List Nat)
  /-- The connection on top of an agent that stands inside another one, at some place. -/
  | nested (path : List Nat)
  /-- The connection between the two sides of a line. -/
  | facing (line : Nat)
deriving DecidableEq

/-- The place in the equations that a mark names. -/
def Mark.place? : Mark → Option (List Nat)
  | hidden path | nested path => some path
  | facing line => some [line]
  | _ => none

/-- What is written for a mark itself. Nothing is for agents inside each other or on two sides of a
line. -/
def Mark.leaf? : Mark → Option Term
  | named number => some (.variable number)
  | free index => some (.free index)
  | hidden _ => some .hidden
  | _ => none

/-! ### Cells of equations -/

namespace Term

/-- The mark of a port for which a term is written at some place. -/
def mark (path : List Nat) : Term → Mark
  | .agent _ _ => .nested path
  | .variable number => .named number
  | .free index => .free index
  | .hidden | .missing => .hidden path

theorem place?_mark {path place : List Nat} {t : Term} (h : (t.mark path).place? = some place) :
    place = path := by
  cases t <;> simp_all [mark, Mark.place?]

/-- The marks of some terms in a row. -/
def marks (path : List Nat) : Nat → List Term → List Mark
  | _, [] => []
  | k, term :: rest => term.mark (k :: path) :: marks path (k + 1) rest

mutual

/-- The cells of the agents in a term that stands at some place. The agent on top may have a
principal port. -/
def cells (path : List Nat) (top : List Mark) : Term → List (Cell Mark)
  | .agent name args =>
    ⟨⟨name, top.length + args.length⟩, top ++ marks path 0 args⟩ :: cellsAll path 0 args
  | _ => []

/-- The cells of the agents in some terms in a row. -/
def cellsAll (path : List Nat) : Nat → List Term → List (Cell Mark)
  | _, [] => []
  | k, term :: rest => term.cells (k :: path) [term.mark (k :: path)] ++ cellsAll path (k + 1) rest

end

mutual

/-- The variables, places on the interface and hidden ends in a term, from left to right. -/
def leaves : Term → List Term
  | .agent _ args => leavesAll args
  | term => [term]

/-- The variables, places on the interface and hidden ends in some terms. -/
def leavesAll : List Term → List Term
  | [] => []
  | term :: rest => term.leaves ++ leavesAll rest

end

mutual

/-- Every agent in a term exists. -/
def isWhole : Term → Bool
  | .agent _ args => areWhole args
  | .missing => false
  | _ => true

/-- Every agent in some terms exists. -/
def areWhole : List Term → Bool
  | [] => true
  | term :: rest => term.isWhole && areWhole rest

end

end Term

namespace Equation

/-- The cells of the agents in a line. -/
def cells (line : Nat) : Equation → List (Cell Mark)
  | pair left right => left.cells [0, line] [.facing line] ++ right.cells [1, line] [.facing line]
  | root label tree => tree.cells [line] [label.mark [line]]
  | lone tree => tree.cells [line] []

/-- The cells of the agents in some lines, from a line on. -/
def cellsAll : Nat → List Equation → List (Cell Mark)
  | _, [] => []
  | line, equation :: rest => equation.cells line ++ cellsAll (line + 1) rest

/-- The variables, places on the interface and hidden ends in a line, from left to right. -/
def leaves : Equation → List Term
  | pair left right => left.leaves ++ right.leaves
  | root label tree => label.leaves ++ tree.leaves
  | lone tree => tree.leaves

/-- Every agent in a line exists. -/
def isWhole : Equation → Bool
  | pair left right => left.isWhole && right.isWhole
  | root label tree => label.isWhole && tree.isWhole
  | lone tree => tree.isWhole

end Equation

namespace Net

variable {net : Net} {names names' : List ConnectionId} {path : List Nat} {k line : Nat}
  {ports : List PortId} {terms : List Term} {equations : List Equation} {agents : List Agent}
  {marked : List (PortId × Mark)} {mark : PortId → Mark} {p : PortId} {t : Term}

/-! ### What equations say -/

/-- What is written for a port when no agent is. A connection between two principal ports is
no variable. -/
inductive Ends (net : Net) (names : List ConnectionId) (p : PortId) : Term → Prop
  | free {i : Nat} : net.interface[i]? = some p → Ends net names p (.free i)
  | hidden : net.IsHidden p → Ends net names p .hidden
  | named {c : ConnectionId} {n : Nat} : net.linkOf? p = some c → names[n]? = some c →
      (∀ q, net.Joined p q → ¬ (net.isPrincipal p ∧ net.isPrincipal q)) →
      Ends net names p (.variable n)

/-- Some terms in a row are what is seen through some auxiliary ports: the agents that are written
in them, and the marks of the ports. -/
inductive Shows (net : Net) (names : List ConnectionId) :
    List Nat → Nat → List PortId → List Term → List Agent → List (PortId × Mark) → Prop
  | nil {path : List Nat} {k : Nat} : Shows net names path k [] [] [] []
  | ends {path : List Nat} {k : Nat} {p : PortId} {t : Term} {ports : List PortId}
      {terms : List Term} {agents : List Agent} {marked : List (PortId × Mark)} :
      Ends net names p t → Shows net names path (k + 1) ports terms agents marked →
      Shows net names path k (p :: ports) (t :: terms) agents ((p, t.mark (k :: path)) :: marked)
  | agent {path : List Nat} {k : Nat} {p q : PortId} {data : Agent} {aux ports : List PortId}
      {args terms : List Term} {inner agents : List Agent} {under marked : List (PortId × Mark)} :
      net.agent? data.id = some data → data.ports = q :: aux → net.Joined p q →
      net.isPrincipal p = false → Shows net names (k :: path) 0 aux args inner under →
      Shows net names path (k + 1) ports terms agents marked →
      Shows net names path k (p :: ports) (.agent data.symbol.name args :: terms)
        (data :: (inner ++ agents))
        ((p, .nested (k :: path)) :: (q, .nested (k :: path)) :: (under ++ marked))

/-- A line is what is seen of some agents. -/
inductive ShowsLine (net : Net) (names : List ConnectionId) (line : Nat) :
    Equation → List Agent → List (PortId × Mark) → Prop
  | pair {p q : PortId} {left right : Agent} {ps qs : List PortId} {args args' : List Term}
      {ls rs : List Agent} {marked marked' : List (PortId × Mark)} :
      net.agent? left.id = some left → left.ports = p :: ps →
      net.agent? right.id = some right → right.ports = q :: qs → net.Joined p q →
      Shows net names [0, line] 0 ps args ls marked →
      Shows net names [1, line] 0 qs args' rs marked' →
      ShowsLine net names line
        (.pair (.agent left.symbol.name args) (.agent right.symbol.name args'))
        ((left :: ls) ++ (right :: rs))
        ((p, .facing line) :: (q, .facing line) :: (marked ++ marked'))
  | root {p : PortId} {data : Agent} {aux : List PortId} {label : Term} {args : List Term}
      {inner : List Agent} {marked : List (PortId × Mark)} :
      net.agent? data.id = some data → data.ports = p :: aux → Ends net names p label →
      Shows net names [line] 0 aux args inner marked →
      ShowsLine net names line (.root label (.agent data.symbol.name args)) (data :: inner)
        ((p, label.mark [line]) :: marked)
  | lone {data : Agent} : net.agent? data.id = some data → data.ports = [] →
      ShowsLine net names line (.lone (.agent data.symbol.name [])) [data] []

/-- Some lines in a row are what is seen of some agents. -/
inductive ShowsAll (net : Net) (names : List ConnectionId) :
    Nat → List Equation → List Agent → List (PortId × Mark) → Prop
  | nil {line : Nat} : ShowsAll net names line [] [] []
  | cons {line : Nat} {equation : Equation} {equations : List Equation}
      {agents agents' : List Agent} {marked marked' : List (PortId × Mark)} :
      ShowsLine net names line equation agents marked →
      ShowsAll net names (line + 1) equations agents' marked' →
      ShowsAll net names line (equation :: equations) (agents ++ agents') (marked ++ marked')

/-! ### More names -/

theorem Ends.mono (h : Ends net names p t) (hnames : names <+: names') : Ends net names' p t := by
  cases h with
  | free hp => exact .free hp
  | hidden hp => exact .hidden hp
  | named hlink hn hpair =>
    obtain ⟨more, rfl⟩ := hnames
    have hlt := (List.getElem?_eq_some_iff.1 hn).1
    exact .named hlink (by rwa [List.getElem?_append_left hlt]) hpair

theorem Shows.mono (h : Shows net names path k ports terms agents marked)
    (hnames : names <+: names') : Shows net names' path k ports terms agents marked := by
  induction h with
  | nil => exact .nil
  | ends hend _ ih => exact .ends (hend.mono hnames) ih
  | agent hdata hports hjoined hp _ _ ihi ih => exact .agent hdata hports hjoined hp ihi ih

theorem ShowsLine.mono {equation : Equation}
    (h : ShowsLine net names line equation agents marked) (hnames : names <+: names') :
    ShowsLine net names' line equation agents marked := by
  cases h with
  | pair hl hps hr hqs hpq hleft hright =>
    exact .pair hl hps hr hqs hpq (hleft.mono hnames) (hright.mono hnames)
  | root hdata hports hend hargs => exact .root hdata hports (hend.mono hnames) (hargs.mono hnames)
  | lone hdata hports => exact .lone hdata hports

/-! ### Every agent that is written exists -/

theorem Ends.isWhole (h : Ends net names p t) : t.isWhole := by
  cases h <;> simp only [Term.isWhole]

theorem Shows.areWhole (h : Shows net names path k ports terms agents marked) :
    Term.areWhole terms := by
  induction h with
  | nil => rfl
  | ends hend _ ih => simp only [Term.areWhole, hend.isWhole, ih, Bool.and_self]
  | agent _ _ _ _ _ _ ihi ih => simp only [Term.areWhole, Term.isWhole, ihi, ih, Bool.and_self]

theorem ShowsLine.isWhole {equation : Equation}
    (h : ShowsLine net names line equation agents marked) : equation.isWhole := by
  cases h with
  | pair _ _ _ _ _ hleft hright =>
    simp only [Equation.isWhole, Term.isWhole, hleft.areWhole, hright.areWhole, Bool.and_self]
  | root _ _ hend hargs =>
    simp only [Equation.isWhole, Term.isWhole, hend.isWhole, hargs.areWhole, Bool.and_self]
  | lone _ _ => rfl

theorem ShowsAll.isWhole (h : ShowsAll net names line equations agents marked) :
    ∀ equation ∈ equations, equation.isWhole := by
  induction h with
  | nil => exact List.forall_mem_nil _
  | cons hline _ ih => exact List.forall_mem_cons.2 ⟨hline.isWhole, ih⟩

/-! ### Which leaves are written -/

theorem Ends.leaves_eq (h : Ends net names p t) : t.leaves = [t] := by
  cases h <;> simp only [Term.leaves]

theorem Ends.leaf?_mark (h : Ends net names p t) (path : List Nat) :
    (t.mark path).leaf? = some t := by
  cases h <;> rfl

theorem Shows.leaves_eq (h : Shows net names path k ports terms agents marked) :
    Term.leavesAll terms = marked.filterMap fun entry => entry.2.leaf? := by
  induction h with
  | nil => rfl
  | ends hend _ ih =>
    simp only [Term.leavesAll, hend.leaves_eq, ih, List.filterMap_cons, hend.leaf?_mark,
      List.singleton_append]
  | agent _ _ _ _ _ _ ihi ih =>
    rw [Term.leavesAll, Term.leaves, ihi, ih, ← List.filterMap_append]
    rfl

theorem ShowsLine.leaves_eq {equation : Equation}
    (h : ShowsLine net names line equation agents marked) :
    equation.leaves = marked.filterMap fun entry => entry.2.leaf? := by
  cases h with
  | pair _ _ _ _ _ hleft hright =>
    rw [Equation.leaves, Term.leaves, Term.leaves, hleft.leaves_eq, hright.leaves_eq,
      ← List.filterMap_append]
    rfl
  | root _ _ hend hargs =>
    simp only [Equation.leaves, Term.leaves, hend.leaves_eq, hargs.leaves_eq, List.filterMap_cons,
      hend.leaf?_mark, List.singleton_append]
  | lone _ _ => rfl

/-- Each variable, place on the interface or hidden end is written for one marked port. -/
theorem ShowsAll.leaves_eq (h : ShowsAll net names line equations agents marked) :
    equations.flatMap Equation.leaves = marked.filterMap fun entry => entry.2.leaf? := by
  induction h with
  | nil => rfl
  | cons hline _ ih => rw [List.flatMap_cons, hline.leaves_eq, ih, List.filterMap_append]

/-! ### Which ports are marked -/

theorem Shows.perm_ports (h : Shows net names path k ports terms agents marked) :
    (marked.map Prod.fst).Perm (ports ++ agents.flatMap Agent.ports) := by
  induction h with
  | nil => rfl
  | ends _ _ ih => exact ih.cons _
  | @agent _ _ p q data aux ports _ _ inner agents under marked _ hports _ _ _ _ ihi ih =>
    refine List.perm_iff_count.2 fun r => ?_
    have hinner := ihi.count_eq r
    have houter := ih.count_eq r
    simp only [List.map_cons, List.map_append, List.flatMap_cons, List.flatMap_append, hports,
      List.cons_append, List.count_cons, List.count_append] at hinner houter ⊢
    omega

theorem ShowsLine.perm_ports {equation : Equation}
    (h : ShowsLine net names line equation agents marked) :
    (marked.map Prod.fst).Perm (agents.flatMap Agent.ports) := by
  cases h with
  | pair _ hps _ hqs _ hleft hright =>
    refine List.perm_iff_count.2 fun r => ?_
    have hl := hleft.perm_ports.count_eq r
    have hr := hright.perm_ports.count_eq r
    simp only [List.map_cons, List.map_append, List.flatMap_cons, List.flatMap_append, hps, hqs,
      List.cons_append, List.count_cons, List.count_append] at hl hr ⊢
    omega
  | root _ hports _ hargs =>
    rw [List.flatMap_cons, hports]
    exact hargs.perm_ports.cons _
  | lone _ hports => rw [List.flatMap_singleton, hports, List.map_nil]

theorem ShowsAll.perm_ports (h : ShowsAll net names line equations agents marked) :
    (marked.map Prod.fst).Perm (agents.flatMap Agent.ports) := by
  induction h with
  | nil => rfl
  | cons hline _ ih =>
    rw [List.map_append, List.flatMap_append]
    exact hline.perm_ports.append ih

/-! ### The cells are those of the agents -/

section Cells

variable (hwf : net.WellFormed)

include hwf

/-- The cell of an agent whose first ports and arguments are marked. -/
private theorem cell_eq {data : Agent} (hdata : net.agent? data.id = some data)
    (top : List PortId) {aux : List PortId} (hports : data.ports = top ++ aux) {args : List Term}
    (hargs : aux.map mark = Term.marks path 0 args) (hlength : aux.length = args.length) :
    Cell.of mark data =
      ⟨⟨data.symbol.name, top.length + args.length⟩, top.map mark ++ Term.marks path 0 args⟩ := by
  have harity : top.length + args.length = data.symbol.arity := by
    rw [← hwf.arity hdata, hports, List.length_append, hlength]
  rw [Cell.of, hports, List.map_append, hargs, harity]

theorem Shows.cells_eq (h : Shows net names path k ports terms agents marked)
    (hmark : ∀ entry ∈ marked, mark entry.1 = entry.2) :
    ports.length = terms.length ∧ ports.map mark = Term.marks path k terms ∧
      agents.map (Cell.of mark) = Term.cellsAll path k terms := by
  induction h with
  | nil => exact ⟨rfl, rfl, rfl⟩
  | @ends path k p t _ _ _ _ hend _ ih =>
    obtain ⟨hp, hrest⟩ := List.forall_mem_cons.1 hmark
    obtain ⟨hlength, hmarks, hcells⟩ := ih hrest
    refine ⟨congrArg Nat.succ hlength, ?_, ?_⟩
    · rw [List.map_cons, hmarks, hp, Term.marks]
    · rw [hcells]
      cases hend <;> simp only [Term.cellsAll, Term.cells, List.nil_append]
  | @agent path k p q data aux _ args _ inner _ _ _ hdata hports _ _ _ _ ihi ih =>
    -- the port above and the principal port have one mark, then come the ports of the arguments
    obtain ⟨hp, hmark⟩ := List.forall_mem_cons.1 hmark
    obtain ⟨hq, hmark⟩ := List.forall_mem_cons.1 hmark
    obtain ⟨hunder, hrest⟩ := List.forall_mem_append.1 hmark
    obtain ⟨hlength', hmarks', hcells'⟩ := ihi hunder
    obtain ⟨hlength, hmarks, hcells⟩ := ih hrest
    refine ⟨congrArg Nat.succ hlength, ?_, ?_⟩
    · rw [List.map_cons, hmarks, hp, Term.marks, Term.mark]
    · have hcell := cell_eq hwf hdata [q] hports hmarks' hlength'
      rw [List.map_singleton, hq] at hcell
      simp only [List.map_cons, List.map_append, hcell, hcells', hcells, Term.cellsAll, Term.cells,
        Term.mark, List.length_singleton, List.cons_append]

theorem ShowsLine.cells_eq {equation : Equation}
    (h : ShowsLine net names line equation agents marked)
    (hmark : ∀ entry ∈ marked, mark entry.1 = entry.2) :
    agents.map (Cell.of mark) = equation.cells line := by
  cases h with
  | @pair p q left right ps qs args args' ls rs _ _ hl hps hr hqs _ hleft hright =>
    obtain ⟨hp, hmark⟩ := List.forall_mem_cons.1 hmark
    obtain ⟨hq, hmark⟩ := List.forall_mem_cons.1 hmark
    obtain ⟨hmark, hmark'⟩ := List.forall_mem_append.1 hmark
    obtain ⟨hlength, hmarks, hcells⟩ := hleft.cells_eq hwf hmark
    obtain ⟨hlength', hmarks', hcells'⟩ := hright.cells_eq hwf hmark'
    have hcell := cell_eq hwf hl [p] hps hmarks hlength
    have hcell' := cell_eq hwf hr [q] hqs hmarks' hlength'
    rw [List.map_singleton, hp] at hcell
    rw [List.map_singleton, hq] at hcell'
    simp only [List.map_append, List.map_cons, hcell, hcell', hcells, hcells', Equation.cells,
      Term.cells, List.length_singleton]
  | @root p _ _ _ _ _ _ hdata hports hend hargs =>
    obtain ⟨hp, hmark⟩ := List.forall_mem_cons.1 hmark
    obtain ⟨hlength, hmarks, hcells⟩ := hargs.cells_eq hwf hmark
    have hcell := cell_eq hwf hdata [p] hports hmarks hlength
    rw [List.map_singleton, hp] at hcell
    simp only [List.map_cons, hcell, hcells, Equation.cells, Term.cells, List.length_singleton]
  | lone hdata hports =>
    have hargs : ([] : List PortId).map mark = Term.marks [line] 0 [] := rfl
    rw [List.map_singleton, cell_eq hwf hdata [] hports hargs rfl]
    rfl

theorem ShowsAll.cells_eq (h : ShowsAll net names line equations agents marked)
    (hmark : ∀ entry ∈ marked, mark entry.1 = entry.2) :
    agents.map (Cell.of mark) = Equation.cellsAll line equations := by
  induction h with
  | nil => rfl
  | cons hline _ ih =>
    obtain ⟨hmark, hmark'⟩ := List.forall_mem_append.1 hmark
    rw [List.map_append, hline.cells_eq hwf hmark, ih hmark', Equation.cellsAll]

end Cells

end Net

end InteractionNets
