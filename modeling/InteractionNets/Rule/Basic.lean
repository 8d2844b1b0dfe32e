import InteractionNets.Rule.Replacement

/-!
# Rules

A rule says what two agents with given symbols turn into when their principal ports meet. It is
made from a replacement that reconnects every slot of the pattern exactly once, so that an
interaction loses no connection and leaves no end open.
-/

namespace InteractionNets

/-- A rule: the symbols of its pattern and what replaces it. -/
structure Rule where
  left : Symbol
  right : Symbol
  replacement : Replacement
deriving DecidableEq

namespace Rule

/-- The key of a rule: its pair of symbol names. -/
def key (r : Rule) : RuleKey :=
  .of r.left r.right

/-- The name a rule is known by in tallies. -/
def label (r : Rule) : String :=
  r.key.text

/-- Whether the two agents of the pattern have one symbol. -/
def isSelfInteraction (r : Rule) : Bool :=
  r.left == r.right

/-- The slots of a pattern, those of the left agent first. -/
def slotsOf (left right : Symbol) : List Slot :=
  (List.range left.auxArity).map .left ++ (List.range right.auxArity).map .right

/-- The slots of a rule's pattern, those of the left agent first. -/
def slots (r : Rule) : List Slot :=
  slotsOf r.left r.right

/-- The sides that agents with two given symbols play, if the rule is for them. -/
def orient (r : Rule) (a b : Symbol) : Option (Side × Side) :=
  if a = r.left ∧ b = r.right then some (.left, .right)
  else if a = r.right ∧ b = r.left then some (.right, .left)
  else none

/-- Whether the rule is for the symbols that the record of an active pair names. -/
def isFor (r : Rule) (pair : ActivePair) : Bool :=
  (r.orient pair.symbol₁ pair.symbol₂).isSome

/-- A rule is for two symbols when they are those of its pattern, in one order or the other. -/
theorem isSome_orient_iff {r : Rule} {a b : Symbol} :
    (r.orient a b).isSome ↔ (a = r.left ∧ b = r.right) ∨ (a = r.right ∧ b = r.left) := by
  unfold orient
  split
  · simp [*]
  · split
    · simp [*]
    · simp [*]

/-- The two agents of a pair play different sides. -/
theorem snd_eq_flip_of_orient {r : Rule} {a b : Symbol} {sides : Side × Side}
    (h : r.orient a b = some sides) : sides.2 = sides.1.flip := by
  unfold orient at h
  split at h
  · obtain rfl := Option.some.inj h
    rfl
  · split at h
    · obtain rfl := Option.some.inj h
      rfl
    · cases h

theorem mem_slotsOf_iff {left right : Symbol} {slot : Slot} :
    slot ∈ slotsOf left right ↔
      (slot.side = .left ∧ slot.index < left.auxArity) ∨
        (slot.side = .right ∧ slot.index < right.auxArity) := by
  obtain ⟨side, index⟩ := slot
  cases side <;> simp [slotsOf, Slot.left, Slot.right]

/-! ### Making rules -/

/-- Whether a slot belongs to a pattern of the given symbols. -/
def inPattern (left right : Symbol) (slot : Slot) : Bool :=
  match slot.side with
  | .left => slot.index < left.auxArity
  | .right => slot.index < right.auxArity

/-- What is wrong with some splices of a replacement, when some ports are used up by the splices
before them. A wire must join two different slots and be entered from both; a bound port must
exist, be unconnected and be bound only once. `mismatch` is reported for the faults of the
pattern. -/
def splicesFault? (replacement : Replacement) (mismatch : Fault) (used : List PortId) :
    List (Slot × Splice) → Option Fault
  | [] => none
  | (slot, .wire other) :: rest =>
    if other = slot ∨ replacement.splice? other ≠ some (.wire slot) then some mismatch
    else splicesFault? replacement mismatch used rest
  | (_, .port port) :: rest =>
    match replacement.net.port? port with
    | none => some (.unknownPort port)
    | some data =>
      if data.isConnected then some (.doubleConnect port)
      else if used.contains port then some mismatch
      else splicesFault? replacement mismatch (port :: used) rest

/-- What keeps a replacement from being a rule for two symbols: a symbol without principal port,
splices that are not those of the pattern's slots, a faulty splice, or bound ports that are not
those of the replacement net's interface. -/
def fault? (left right : Symbol) (replacement : Replacement) : Option Fault :=
  if !left.hasPrincipal then some (.noPrincipal left)
  else if !right.hasPrincipal then some (.noPrincipal right)
  else
    let key := RuleKey.of left right
    let expected := left.auxArity + right.auxArity
    let mismatch := Fault.arityMismatch key expected replacement.splices.size
    if replacement.splices.size ≠ expected ∨
        !replacement.splices.keys.all (inPattern left right) then some mismatch
    else
      match splicesFault? replacement mismatch [] replacement.splices.entries with
      | some fault => some fault
      | none =>
        let bound := replacement.boundPorts.map Prod.snd
        let interface := replacement.net.interface
        if bound.length ≠ interface.length ∨ !interface.all bound.contains then
          some (.arityMismatch key interface.length bound.length)
        else none

/-- The rule that replaces two symbols as described. What was counted on the replacement net
before is forgotten. -/
def ofReplacement (left right : Symbol) (replacement : Replacement) : Except Fault Rule :=
  match fault? left right replacement with
  | some fault => .error fault
  | none =>
    .ok { left, right, replacement := { replacement with
      net := { replacement.net with tally := .empty } } }

end Rule

end InteractionNets
