import InteractionNets.Proofs.Peano.Chains

/-!
# Expressions

The net of an arithmetic expression has a chain for each of its numbers and an agent for each of its
operators. The roots of the two arguments are connected to the first two ports of the operator, and
the third one is the root of the whole (`Draws`). If there is nothing else in a net, it is written
down as the cells of the expression (`IsNetOf.exists_written`).
-/

namespace InteractionNets.Peano

open Net

/-- The operators on numbers. -/
inductive Operator
  | add
  | mul
deriving DecidableEq

namespace Operator

def symbol : Operator → Symbol
  | add => Peano.add
  | mul => Peano.mul

/-- What an operator makes of two numbers. -/
def value : Operator → Nat → Nat → Nat
  | add, a, b => a + b
  | mul, a, b => a * b

/-- The interactions of an operator on two numbers. -/
def steps : Operator → Nat → Nat → Nat
  | add, a, _ => a + 1
  | mul, a, b => mulSteps a b

theorem arity_symbol (o : Operator) : o.symbol.arity = 3 := by
  cases o <;> rfl

end Operator

/-- Arithmetic expressions. -/
inductive Expression
  | numeral (n : Nat)
  | apply (o : Operator) (left right : Expression)

namespace Expression

def value : Expression → Nat
  | numeral n => n
  | apply o left right => o.value left.value right.value

/-- The interactions of an expression: those of its parts, and those of the operator on their
values. -/
def steps : Expression → Nat
  | numeral _ => 0
  | apply o left right => left.steps + (right.steps + o.steps left.value right.value)

end Expression

variable {net : Net} {e : Expression} {root : PortId} {agents : List Agent}

/-! ### Nets of expressions -/

/-- Some agents of a net are an expression, and a port is its root. -/
inductive Draws (net : Net) : Expression → PortId → List Agent → Prop
  | numeral {n : Nat} {root : PortId} {agents : List Agent} : IsChain net n root agents →
      Draws net (.numeral n) root agents
  | apply {o : Operator} {left right : Expression} {data : Agent} {p q root x y : PortId}
      {ls rs : List Agent} : data.symbol = o.symbol → data.ports = [p, q, root] →
      net.Joined p x → Draws net left x ls → net.Joined q y → Draws net right y rs →
      Draws net (.apply o left right) root (data :: (ls ++ rs))

/-- A well-formed net is the net of an expression: there is nothing in it but the expression, and
the root is the only port on its interface. -/
structure IsNetOf (net : Net) (e : Expression) : Prop where
  wellFormed : net.WellFormed
  exists_draws : ∃ root agents, net.interface = [root] ∧ net.agentList.Perm agents ∧
    Draws net e root agents

/-- The cells of an expression, whose root has a name. -/
inductive IsExpression : Expression → Nat → List (Cell Nat) → Prop
  | numeral {n root : Nat} {cells : List (Cell Nat)} : IsNumeral n root cells →
      IsExpression (.numeral n) root cells
  | apply (o : Operator) (root : Nat) {left right : Expression} {x y : Nat}
      {xs ys : List (Cell Nat)} : IsExpression left x xs → IsExpression right y ys →
      IsExpression (.apply o left right) root (⟨o.symbol, [x, y, root]⟩ :: (xs ++ ys))

/-- An expression in a net is written down as the expression. -/
theorem Draws.isExpression (h : net.WellFormed) {name : PortId → Nat} (hname : net.IsNaming name)
    (hdraws : Draws net e root agents) :
    IsExpression e (name root) (agents.map (Cell.of name)) := by
  induction hdraws with
  | numeral hchain => exact .numeral (hchain.isNumeral h hname)
  | @apply o left right data p q root x y ls rs hsymbol hports hpx _ hqy _ ihl ihr =>
    rw [List.map_cons, List.map_append, Cell.of, hsymbol, hports]
    simp only [List.map_cons, List.map_nil, hname.eq_of_joined h hpx, hname.eq_of_joined h hqy]
    exact .apply o (name root) ihl ihr

theorem IsNetOf.exists_written (h : IsNetOf net e) :
    ∃ root cells, net.Written cells [root] ∧ IsExpression e root cells := by
  obtain ⟨hwf, root, agents, hinterface, hagents, hdraws⟩ := h
  obtain ⟨name, hname⟩ := hwf.exists_isNaming
  exact ⟨name root, _, ⟨hwf, name, agents, hname, hagents, rfl, by rw [hinterface]; rfl⟩,
    hdraws.isExpression hwf hname⟩

end InteractionNets.Peano
