/-!
# Slots

The pattern of a rule is two agents, one on the left and one on the right, joined at their
principal ports. Their auxiliary ports are the slots of the pattern; they are what an interaction
has to reconnect.
-/

namespace InteractionNets

/-- One of the two agents of a pattern. -/
inductive Side where
  | left
  | right
deriving DecidableEq, Inhabited

/-- The other side. -/
def Side.flip : Side → Side
  | .left => .right
  | .right => .left

@[simp] theorem Side.flip_flip (s : Side) : s.flip.flip = s := by
  cases s <;> rfl

/-- An auxiliary port of a pattern: the agent's side, and the place of the port among the agent's
auxiliary ports, counted from 0. -/
structure Slot where
  side : Side
  index : Nat
deriving DecidableEq, Inhabited

namespace Slot

/-- An auxiliary port of the left agent. -/
def left (index : Nat) : Slot :=
  ⟨.left, index⟩

/-- An auxiliary port of the right agent. -/
def right (index : Nat) : Slot :=
  ⟨.right, index⟩

/-- The auxiliary port in the same place on the other agent. -/
def flip (s : Slot) : Slot :=
  ⟨s.side.flip, s.index⟩

@[simp] theorem flip_flip (s : Slot) : s.flip.flip = s := by
  simp [flip]

/-- The left slots come before the right ones, and on one side the index decides. -/
instance : Ord Slot where
  compare a b :=
    match a.side, b.side with
    | .left, .right => .lt
    | .right, .left => .gt
    | .left, .left => compare a.index b.index
    | .right, .right => compare a.index b.index

/-- A slot is written as the letter of its side and its index. -/
def text (s : Slot) : String :=
  match s.side with
  | .left => "L" ++ toString s.index
  | .right => "R" ++ toString s.index

end Slot

end InteractionNets
