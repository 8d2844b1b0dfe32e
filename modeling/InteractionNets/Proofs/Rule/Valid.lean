import InteractionNets.Proofs.Rule.Conserving

/-!
# Valid rules

`Rule.ofReplacement` makes rules only of replacements that reconnect every slot of the pattern
exactly once. `Rule.Valid` is what is known of a rule from then on: wires pair slots up, the other
slots go to different free ports of the replacement net, and these ports are the interface of that
net.
-/

namespace InteractionNets

namespace Rule

/-- A rule that reconnects every slot of its pattern exactly once. -/
structure Valid (r : Rule) : Prop where
  wellFormed : r.replacement.net.WellFormed
  hasPrincipal_left : r.left.hasPrincipal
  hasPrincipal_right : r.right.hasPrincipal
  /-- The slots of the pattern have splices, and no others have. -/
  splice_isSome : ∀ {a}, (r.replacement.splice? a).isSome ↔ a ∈ r.slots
  /-- A wire does not lead back to the slot it starts from. -/
  wire_ne : ∀ {a b}, r.replacement.splice? a = some (.wire b) → b ≠ a
  /-- A wire is entered from both its ends. -/
  wire_symm : ∀ {a b}, r.replacement.splice? a = some (.wire b) →
    r.replacement.splice? b = some (.wire a)
  /-- Slots are reconnected to free ports. -/
  port_free : ∀ {a p}, r.replacement.splice? a = some (.port p) → r.replacement.net.IsFree p
  /-- Different slots are reconnected to different ports. -/
  port_injective : ∀ {a b p}, r.replacement.splice? a = some (.port p) →
    r.replacement.splice? b = some (.port p) → a = b
  /-- The ports that slots are reconnected to are those of the interface. -/
  mem_interface : ∀ {p}, p ∈ r.replacement.net.interface ↔
    ∃ a, r.replacement.splice? a = some (.port p)

/-- What has a splice is a slot of the pattern. -/
theorem Valid.mem_slots {r : Rule} (hv : r.Valid) {a : Slot} {splice : Splice}
    (ha : r.replacement.splice? a = some splice) : a ∈ r.slots :=
  hv.splice_isSome.1 (Option.isSome_iff_exists.2 ⟨splice, ha⟩)

/-- A rule made from a well-formed replacement reconnects every slot once. -/
theorem valid_of_ofReplacement {left right : Symbol} {replacement : Replacement} {r : Rule}
    (hnet : replacement.net.WellFormed) (h : ofReplacement left right replacement = .ok r) :
    r.Valid := by
  obtain ⟨hfault, rfl⟩ := ofReplacement_eq_ok_iff.1 h
  have hconserves := (fault?_eq_none_iff hnet).1 hfault
  constructor
  case wellFormed => exact hnet.withTally .empty
  case hasPrincipal_left => exact decide_eq_true hconserves.hasPrincipal_left
  case hasPrincipal_right => exact decide_eq_true hconserves.hasPrincipal_right
  case splice_isSome => exact isSome_lookup_iff.trans hconserves.mem_keys
  case wire_ne => exact fun hab => (hconserves.wire hab).1
  case wire_symm => exact fun hab => (hconserves.wire hab).2
  case port_free => exact fun hap => hconserves.port_free hap
  case port_injective => exact fun ha hb => hconserves.port_injective ha hb
  case mem_interface => exact hconserves.mem_interface

/-- A rule that was accepted, with a well-formed net as what it puts in. -/
def Accepted (r : Rule) : Prop :=
  ∃ left right replacement, replacement.net.WellFormed ∧
    ofReplacement left right replacement = .ok r

theorem Accepted.valid {r : Rule} (h : r.Accepted) : r.Valid := by
  obtain ⟨left, right, replacement, hnet, hrule⟩ := h
  exact valid_of_ofReplacement hnet hrule

/-- An accepted rule puts in a net on which nothing was counted. -/
theorem Accepted.tally_eq_empty {r : Rule} (h : r.Accepted) : r.replacement.net.tally = .empty := by
  obtain ⟨left, right, replacement, -, hrule⟩ := h
  obtain ⟨-, rfl⟩ := ofReplacement_eq_ok_iff.1 hrule
  rfl

end Rule

end InteractionNets
