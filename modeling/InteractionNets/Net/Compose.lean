import InteractionNets.Net.Inject
import InteractionNets.OrderedMap

/-!
# Composing nets

Nets are put side by side, or plugged into each other along their interfaces. Composition only
copies and connects; nothing interacts.
-/

namespace InteractionNets

namespace Net

/-- Two nets side by side. The interface is the left one followed by the right one. -/
def parallel (left right : Net) : Net :=
  (left.inject right true).2

/-- The monoidal product of two nets, which puts them side by side. -/
def tensor (left right : Net) : Net :=
  left.parallel right

/-- Connect ports of a host with the copies of ports of a net that was copied into it. -/
def plugPairs (map : PortMap) : List (PortId × PortId) → Edit Unit
  | [] => pure ()
  | (a, b) :: rest => do
    match map.lookup b with
    | none => .fail (.unknownPort b)
    | some copy =>
      let _ ← connect a copy
      plugPairs map rest

/-- Copy the right net into the left one and connect pairs of their ports. -/
def plug (left right : Net) (pairs : List (PortId × PortId)) : Except Fault Net :=
  let (map, net) := left.inject right true
  ((plugPairs map pairs).result net).map Prod.snd

/-- What forbids to plug two nets into each other: interfaces of different lengths. -/
def sizeFault? (left right : Net) : Option Fault :=
  if left.interface.length ≠ right.interface.length then
    some (.interfaceSizeMismatch left.interface.length right.interface.length)
  else none

/-- Plug two nets into each other, the first port of one interface to the first port of the other
and so on. Both interfaces are used up. -/
def sequential (left right : Net) : Except Fault Net :=
  match left.sizeFault? right with
  | some fault => .error fault
  | none => left.plug right (left.interface.zip right.interface)

/-- What forbids to connect along some pairs of ports, when some ports of the right net are used
up: a pair whose first port is not on the left interface or whose second one is not on the right
one, or two pairs with one second port. -/
def pairsFault? (left right : Net) (used : List PortId) : List (PortId × PortId) → Option Fault
  | [] => none
  | (a, b) :: rest =>
    if !left.interface.contains a then some (.unknownPort a)
    else if !right.interface.contains b then some (.unknownPort b)
    else if used.contains b then some (.doubleConnect b)
    else left.pairsFault? right (b :: used) rest

/-- What forbids to plug two nets into each other along a map from the left interface to the right
one: sizes that differ, and whatever keeps the map from being a bijection. -/
def mappingFault? (left right : Net) (mapping : OrderedMap PortId PortId) : Option Fault :=
  match left.sizeFault? right with
  | some fault => some fault
  | none =>
    if mapping.size ≠ left.interface.length then
      some (.interfaceSizeMismatch left.interface.length mapping.size)
    else left.pairsFault? right [] mapping.entries

/-- Plug two nets into each other, along a bijection from the left interface to the right one. -/
def compose (left right : Net) (mapping : OrderedMap PortId PortId) : Except Fault Net :=
  match left.mappingFault? right mapping with
  | some fault => .error fault
  | none => left.plug right mapping.entries

end Net

end InteractionNets
