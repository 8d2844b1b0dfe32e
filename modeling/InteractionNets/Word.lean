/-!
# Words

How many numbers fit into words of 8, 32 and 64 bits, and arithmetic that stops where a result does
not fit. Numbers in this library are unbounded; these are the places where a bound is part of what a
result is.
-/

namespace InteractionNets.Word

/-- The number of words of 8 bits. -/
def count8 : Nat :=
  256

/-- The number of words of 32 bits. -/
def count32 : Nat :=
  4294967296

/-- The number of words of 64 bits. -/
def count64 : Nat :=
  18446744073709551616

/-- A sum, if it is below a bound. -/
def add? (bound a b : Nat) : Option Nat :=
  if a + b < bound then some (a + b) else none

/-- A difference, if nothing larger is taken away than there is. -/
def sub? (a b : Nat) : Option Nat :=
  if b ≤ a then some (a - b) else none

end InteractionNets.Word
