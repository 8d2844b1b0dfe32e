import InteractionNets.Net.Compose
import InteractionNets.Rule.Assembly
import InteractionNets.Rule.RuleSet

/-!
# Unary arithmetic

A number is a chain `S(S(… Z))`, whose root is the principal port of the outermost agent. `Add`
and `Mul` take their first argument at the principal port and the second one at the first
auxiliary port, and give the result at the second auxiliary port. Multiplication copies its second
argument with `Dup` and drops it with `Era`.
-/

namespace InteractionNets.Peano

open Assembly

/-! ### Symbols -/

/-- Zero. -/
def zero : Symbol :=
  ⟨"Z", 1⟩

/-- The successor of a number. -/
def succ : Symbol :=
  ⟨"S", 2⟩

/-- The sum of two numbers. -/
def add : Symbol :=
  ⟨"Add", 3⟩

/-- The product of two numbers. -/
def mul : Symbol :=
  ⟨"Mul", 3⟩

/-- Two copies of a number. -/
def dup : Symbol :=
  ⟨"Dup", 3⟩

/-- The end of a number that is not needed. -/
def era : Symbol :=
  ⟨"Era", 1⟩

/-- The symbols of unary arithmetic. -/
def symbols : List Symbol :=
  [zero, succ, add, mul, dup, era]

/-! ### Rules -/

/-- Adding to zero gives the other argument. -/
def addZero : Except Fault Rule :=
  Rule.ofReplacement add zero (Replacement.empty.wire (.left 0) (.left 1))

/-- Adding to a successor gives the successor of the sum. -/
def addSucc : Except Fault Rule := do
  let r ← replacement do
    let s ← agent succ
    let sum ← agent add
    wire s 1 sum 2
    return [(.left 0, ← portAt sum 1), (.left 1, ← portAt s 0), (.right 0, ← portAt sum 0)]
  Rule.ofReplacement add succ r

/-- Multiplying zero drops the other argument and gives zero. -/
def mulZero : Except Fault Rule := do
  let r ← replacement do
    let e ← agent era
    let z ← agent zero
    return [(.left 0, ← portAt e 0), (.left 1, ← portAt z 0)]
  Rule.ofReplacement mul zero r

/-- Multiplying a successor copies the other argument, to multiply one copy and to add the
other. -/
def mulSucc : Except Fault Rule := do
  let r ← replacement do
    let d ← agent dup
    let product ← agent mul
    let sum ← agent add
    wire d 1 product 1
    wire d 2 sum 1
    wire product 2 sum 0
    return [(.left 0, ← portAt d 0), (.left 1, ← portAt sum 2), (.right 0, ← portAt product 0)]
  Rule.ofReplacement mul succ r

/-- Copying zero gives zero twice. -/
def dupZero : Except Fault Rule := do
  let r ← replacement do
    let a ← agent zero
    let b ← agent zero
    return [(.left 0, ← portAt a 0), (.left 1, ← portAt b 0)]
  Rule.ofReplacement dup zero r

/-- Copying a successor gives the successors of two copies. -/
def dupSucc : Except Fault Rule := do
  let r ← replacement do
    let d ← agent dup
    let a ← agent succ
    let b ← agent succ
    wire d 1 a 1
    wire d 2 b 1
    return [(.left 0, ← portAt a 0), (.left 1, ← portAt b 0), (.right 0, ← portAt d 0)]
  Rule.ofReplacement dup succ r

/-- Dropping zero leaves nothing. -/
def eraZero : Except Fault Rule :=
  Rule.ofReplacement era zero .empty

/-- Dropping a successor goes on with dropping its predecessor. -/
def eraSucc : Except Fault Rule := do
  let r ← replacement do
    let e ← agent era
    return [(.right 0, ← portAt e 0)]
  Rule.ofReplacement era succ r

/-- The rules of unary arithmetic. -/
def rules : Except Fault RuleSet := do
  RuleSet.ofList [← addZero, ← addSucc, ← mulZero, ← mulSucc, ← dupZero, ← dupSucc, ← eraZero,
    ← eraSucc]

/-! ### Numbers -/

/-- Put a number of successors on top of the number whose root is given; the result is the new
root. -/
def climb : Nat → PortId → Edit PortId
  | 0, root => pure root
  | n + 1, root => do
    let s ← agent succ
    let _ ← Net.connect (← portAt s 1) root
    climb n (← portAt s 0)

/-- The net of a number. Its only free port is its root. -/
def nat (n : Nat) : Except Fault Net :=
  let edit : Edit PortId := do
    let z ← agent zero
    climb n (← portAt z 0)
  (edit.result .empty).map Prod.snd

/-- An operator on two numbers, not yet reduced. Its only free port is the result. -/
def apply (operator : Symbol) (a b : Nat) : Except Fault Net := do
  let numbers := (← nat a).parallel (← nat b)
  let edit : Edit Unit := do
    let op ← agent operator
    let _ ← Net.connectInterface numbers.interface [← portAt op 0, ← portAt op 1]
  return (← edit.result numbers).2

/-- The sum of two numbers, not yet reduced. -/
def sum (a b : Nat) : Except Fault Net :=
  apply add a b

/-- The product of two numbers, not yet reduced. -/
def product (a b : Nat) : Except Fault Net :=
  apply mul a b

/-- Read the number whose root is a port, through at most as many agents as the first argument
says. -/
def readFrom (net : Net) : Nat → PortId → Option Nat
  | 0, _ => none
  | fuel + 1, port => do
    let data ← net.port? port
    if data.principal then
      let agent ← net.agent? data.agent
      if agent.symbol = zero then some 0
      else if agent.symbol = succ then
        let next ← agent.auxiliary.head?
        let root ← net.peer? next
        return (← readFrom net fuel root) + 1
      else none
    else none

/-- Read the number at the first free port, if there is one there. No agent is passed twice on the
way. -/
def readNat (net : Net) : Option Nat := do
  readFrom net net.agents.size (← net.interface.head?)

end InteractionNets.Peano
