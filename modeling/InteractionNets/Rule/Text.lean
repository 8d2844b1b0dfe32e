import InteractionNets.Net.Term
import InteractionNets.Rule.RuleSet

/-!
# Rules as text

A rule is written as its pattern, with what each slot is reconnected to, above the net it puts in
the pattern's place.
-/

namespace InteractionNets

namespace Rule

/-- What a slot is reconnected to, as text: another slot, or the place of a port on the interface
of the replacement net. -/
def spliceText (r : Rule) (slot : Slot) : String :=
  slot.text ++ " = " ++
    match r.replacement.splice? slot with
    | some (.port port) =>
      match r.replacement.net.interface.idxOf? port with
      | some index => "#" ++ toString index
      | none => idText port
    | some (.wire other) => other.text
    | none => "?"

/-- A rule as text. -/
def text (r : Rule) : String :=
  let splices :=
    if r.slots.isEmpty then ""
    else " [" ++ ", ".intercalate (r.slots.map r.spliceText) ++ "]"
  r.left.text ++ " >< " ++ r.right.text ++ splices ++ "\n" ++ r.replacement.net.text 1

end Rule

/-- The rules of a set as text, one after another. -/
def RuleSet.text (s : RuleSet) : String :=
  String.join (s.rules.map Rule.text)

end InteractionNets
