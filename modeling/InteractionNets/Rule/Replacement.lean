import InteractionNets.Net.Basic
import InteractionNets.OrderedMap
import InteractionNets.Rule.Slot

/-!
# Replacements

What a rule puts in the place of its pattern: a net, and for each slot of the pattern a splice
that says what the slot is reconnected to.
-/

namespace InteractionNets

/-- What a slot of a pattern is reconnected to. -/
inductive Splice where
  /-- A port of the replacement net. -/
  | port (port : PortId)
  /-- Another slot of the pattern, straight through. -/
  | wire (slot : Slot)
deriving DecidableEq, Inhabited

/-- A net with the splices of a pattern's slots. -/
structure Replacement where
  net : Net
  splices : OrderedMap Slot Splice
deriving DecidableEq

namespace Replacement

/-- A net without splices. -/
def ofNet (net : Net) : Replacement :=
  ⟨net, .empty⟩

/-- No net and no splices. -/
def empty : Replacement :=
  ofNet .empty

instance : Inhabited Replacement := ⟨empty⟩

/-- Reconnect a slot to a port of the net. -/
def bind (r : Replacement) (slot : Slot) (port : PortId) : Replacement :=
  { r with splices := r.splices.insert slot (.port port) }

/-- Join two slots straight through. -/
def wire (r : Replacement) (a b : Slot) : Replacement :=
  { r with splices := (r.splices.insert a (.wire b)).insert b (.wire a) }

/-- What a slot is reconnected to. -/
def splice? (r : Replacement) (slot : Slot) : Option Splice :=
  r.splices.get? slot

/-- The slots that are reconnected to a port of the net, with those ports. -/
def boundPorts (r : Replacement) : List (Slot × PortId) :=
  r.splices.entries.filterMap fun entry =>
    match entry.2 with
    | .port port => some (entry.1, port)
    | .wire _ => none

theorem splice?_bind (r : Replacement) (a : Slot) (port : PortId) (slot : Slot) :
    (r.bind a port).splice? slot = if slot = a then some (.port port) else r.splice? slot :=
  OrderedMap.get?_insert r.splices a slot (.port port)

theorem splice?_wire (r : Replacement) (a b slot : Slot) :
    (r.wire a b).splice? slot =
      if slot = b then some (.wire a) else if slot = a then some (.wire b) else r.splice? slot := by
  simp only [splice?, wire, OrderedMap.get?_insert]

end Replacement

end InteractionNets
