/-!
# Symbols

A symbol is a kind of agent: a name and a fixed number of ports. Port 0 of every agent is its
principal port, the others are auxiliary; an agent of arity 0 has no port at all.
-/

namespace InteractionNets

/-- A kind of agent: its name and its number of ports. -/
structure Symbol where
  name : String
  arity : Nat
deriving DecidableEq, Inhabited

namespace Symbol

/-- The number of auxiliary ports: all but the principal one. -/
def auxArity (s : Symbol) : Nat :=
  s.arity - 1

/-- Whether agents of this kind have a principal port. -/
def hasPrincipal (s : Symbol) : Bool :=
  0 < s.arity

/-- Symbols are ordered by name, character by character, and then by arity. -/
instance : Ord Symbol where
  compare a b := (compare a.name b.name).then (compare a.arity b.arity)

/-- A symbol is written as its name, a slash and its arity. -/
def text (s : Symbol) : String :=
  s.name ++ "/" ++ toString s.arity

theorem auxArity_add_one {s : Symbol} (h : s.hasPrincipal) : s.auxArity + 1 = s.arity := by
  have : 0 < s.arity := by simpa [hasPrincipal] using h
  unfold auxArity
  omega

end Symbol

end InteractionNets
