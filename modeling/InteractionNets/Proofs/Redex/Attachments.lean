import InteractionNets.Proofs.Net.WellFormed
import InteractionNets.Proofs.Redex.Planning
import InteractionNets.Proofs.Rule.Valid

/-!
# Redexes and what they are attached to

A redex is given by the agents that play the two sides of a rule, with their principal ports
joined. `Net.Outer` and `Rule.Inner` say what a slot is attached to outside and inside the pattern,
in terms of joined ports, the interface and the splices. In a well-formed net a slot is attached to
one thing only, and a slot that is attached to another one is attached back. So the paths through a
redex take regular turns (`Net.IsRedex.regular`).
-/

namespace InteractionNets

/-- The symbol of the agent on a side of a rule's pattern. -/
def Rule.symbolOn (rule : Rule) : Side → Symbol
  | .left => rule.left
  | .right => rule.right

theorem Rule.mem_slots_iff {rule : Rule} {a : Slot} :
    a ∈ rule.slots ↔ a.index < (rule.symbolOn a.side).auxArity := by
  obtain ⟨side, index⟩ := a
  rw [slots, mem_slotsOf_iff]
  cases side <;> simp [symbolOn]

namespace Net

variable {net : Net} {rule : Rule} {agents : Side → AgentId}

/-- The port of a slot, when two agents play the sides of a pattern. -/
def slotPort? (net : Net) (agents : Side → AgentId) (a : Slot) : Option PortId :=
  (net.portsOf (agents a.side))[a.index + 1]?

/-- What a slot is attached to outside the pattern: a port of another agent, a place on the
interface, nothing because it is hidden, or another slot of the pattern. -/
inductive Outer (net : Net) (agents : Side → AgentId) : Slot → Turn Slot PathEnd → Prop
  | peer {a p q} : net.slotPort? agents a = some p → net.Joined p q →
      (∀ side, q ∉ net.portsOf (agents side)) → Outer net agents a (.stop (.host q))
  | free {a p} : net.slotPort? agents a = some p → p ∈ net.interface →
      Outer net agents a (.stop (.free p))
  | hidden {a p} : net.slotPort? agents a = some p → (∀ q, ¬ net.Joined p q) →
      p ∉ net.interface → Outer net agents a (.stop .hidden)
  | slot {a b p q} : net.slotPort? agents a = some p → net.slotPort? agents b = some q →
      net.Joined p q → Outer net agents a (.go b)

end Net

/-- What a slot is attached to inside the pattern: a port of the replacement net, or the slot it is
wired to. -/
inductive Rule.Inner (rule : Rule) : Slot → Turn Slot PathEnd → Prop
  | port {a p} : rule.replacement.splice? a = some (.port p) → Inner rule a (.stop (.fresh p))
  | wire {a b} : rule.replacement.splice? a = some (.wire b) → Inner rule a (.go b)

/-- A slot is attached to one thing inside. -/
theorem Rule.inner_unique {rule : Rule} {a : Slot} {t u : Turn Slot PathEnd} (ht : rule.Inner a t)
    (hu : rule.Inner a u) : t = u := by
  have hsplice : ∀ {t}, rule.Inner a t → (rule.replacement.splice? a).map Splice.turn = some t := by
    rintro _ (hp | hb)
    · rw [hp]
      rfl
    · rw [hb]
      rfl
  exact Option.some.inj ((hsplice ht).symm.trans (hsplice hu))

namespace Net

variable {net : Net} {rule : Rule} {agents : Side → AgentId}

/-- The turns of the paths through a redex. -/
def turns (net : Net) (rule : Rule) (agents : Side → AgentId) : Turns Slot PathEnd
  | .outward => net.Outer agents
  | .inward => rule.Inner

/-- Two agents with the symbols of a rule's pattern whose principal ports are joined. -/
structure IsRedex (net : Net) (rule : Rule) (agents : Side → AgentId) : Prop where
  symbol : ∀ side, ∃ data, net.agent? (agents side) = some data ∧
    data.symbol = rule.symbolOn side
  joined : ∃ p q, (net.portsOf (agents .left))[0]? = some p ∧
    (net.portsOf (agents .right))[0]? = some q ∧ net.Joined p q

namespace IsRedex

variable (hr : net.IsRedex rule agents) (h : net.WellFormed)

include hr

/-- The agent that plays a side has the symbol there. -/
theorem symbol_eq (side : Side) {data : Agent} (hdata : net.agent? (agents side) = some data) :
    data.symbol = rule.symbolOn side := by
  obtain ⟨data', hdata', hsymbol⟩ := hr.symbol side
  rwa [Option.some.inj (hdata.symm.trans hdata')]

/-- The principal port on either side is joined to that on the other. -/
theorem exists_principal (side : Side) :
    ∃ p q, (net.portsOf (agents side))[0]? = some p ∧
      (net.portsOf (agents side.flip))[0]? = some q ∧ net.Joined p q := by
  obtain ⟨p, q, hp, hq, hpq⟩ := hr.joined
  cases side with
  | left => exact ⟨p, q, hp, hq, hpq⟩
  | right => exact ⟨q, p, hq, hp, hpq.symm⟩

include h

/-- Different agents play the two sides. -/
theorem agents_ne : agents .left ≠ agents .right := by
  obtain ⟨p, q, hp, hq, hpq⟩ := hr.joined
  intro heq
  rw [heq, hq] at hp
  exact h.joined_ne hpq (Option.some.inj hp).symm

theorem agents_injective {side side' : Side} (heq : agents side = agents side') :
    side = side' := by
  have hne := hr.agents_ne h
  cases side <;> cases side'
  · rfl
  · exact absurd heq hne
  · exact absurd heq.symm hne
  · rfl

theorem length_portsOf (side : Side) :
    (net.portsOf (agents side)).length = (rule.symbolOn side).arity := by
  obtain ⟨data, hdata, hsymbol⟩ := hr.symbol side
  rw [portsOf_eq hdata, h.arity hdata, hsymbol]

/-- The slots are those of the rule. -/
theorem isSome_slotPort?_iff (hv : rule.Valid) {a : Slot} :
    (net.slotPort? agents a).isSome ↔ a ∈ rule.slots := by
  have harity : (rule.symbolOn a.side).auxArity + 1 = (rule.symbolOn a.side).arity := by
    refine Symbol.auxArity_add_one ?_
    cases a.side
    · exact hv.hasPrincipal_left
    · exact hv.hasPrincipal_right
  rw [slotPort?, isSome_getElem?, hr.length_portsOf h, Rule.mem_slots_iff, ← harity]
  omega

theorem slotPort?_injective {a b : Slot} {p : PortId} (ha : net.slotPort? agents a = some p)
    (hb : net.slotPort? agents b = some p) : a = b := by
  obtain ⟨hagent, hindex⟩ := h.port_unique ha hb
  obtain ⟨side, index⟩ := a
  obtain ⟨side', index'⟩ := b
  obtain rfl := hr.agents_injective h hagent
  simp only at hindex
  rw [Nat.succ_inj.1 hindex]

/-- What a slot is joined to on the agents of a redex is a slot: the principal ports are joined to
each other. -/
theorem exists_slot_of_joined {a : Slot} {p q : PortId} {side : Side} {k : Nat}
    (ha : net.slotPort? agents a = some p) (hpq : net.Joined p q)
    (hq : (net.portsOf (agents side))[k]? = some q) :
    k ≠ 0 ∧ net.slotPort? agents ⟨side, k - 1⟩ = some q := by
  have hk : k ≠ 0 := by
    rintro rfl
    obtain ⟨p₀, q₀, hp₀, hq₀, hjoined⟩ := hr.exists_principal side
    obtain rfl := Option.some.inj (hp₀.symm.trans hq)
    obtain rfl := h.joined_unique hpq.symm hjoined
    obtain ⟨-, hindex⟩ := h.port_unique ha hq₀
    exact Nat.succ_ne_zero _ hindex
  refine ⟨hk, ?_⟩
  rw [slotPort?, Nat.sub_add_cancel (Nat.one_le_iff_ne_zero.2 hk)]
  exact hq

/-- A slot is attached to one thing outside. -/
private theorem outer_unique {a : Slot} {t u : Turn Slot PathEnd} (ht : net.Outer agents a t)
    (hu : net.Outer agents a u) : t = u := by
  -- the port of the slot is on the interface, or joined to one other port, or neither
  rcases ht with ⟨hp, hpq, hother⟩ | ⟨hp, hmem⟩ | ⟨hp, hnone, hmem⟩ | ⟨hp, hq, hpq⟩ <;>
    rcases hu with ⟨hp', hpq', hother'⟩ | ⟨hp', hmem'⟩ | ⟨hp', hnone', hmem'⟩ | ⟨hp', hq', hpq'⟩ <;>
    obtain rfl := Option.some.inj (hp.symm.trans hp')
  · rw [h.joined_unique hpq hpq']
  · exact absurd hmem' (h.not_mem_interface_of_joined hpq)
  · exact absurd hpq (hnone' _)
  · obtain rfl := h.joined_unique hpq hpq'
    exact absurd (List.mem_of_getElem? hq') (hother _)
  · exact absurd hmem (h.not_mem_interface_of_joined hpq')
  · rfl
  · exact absurd hmem hmem'
  · exact absurd hmem (h.not_mem_interface_of_joined hpq')
  · exact absurd hpq' (hnone _)
  · exact absurd hmem' hmem
  · rfl
  · exact absurd hpq' (hnone _)
  · obtain rfl := h.joined_unique hpq hpq'
    exact absurd (List.mem_of_getElem? hq) (hother' _)
  · exact absurd hmem' (h.not_mem_interface_of_joined hpq)
  · exact absurd hpq (hnone' _)
  · obtain rfl := h.joined_unique hpq hpq'
    rw [hr.slotPort?_injective h hq hq']

/-- The paths through a redex take regular turns. -/
theorem regular (hv : rule.Valid) : (net.turns rule agents).Regular := by
  refine ⟨fun {d a t u} ht hu => ?_, fun {d a b} hab => ?_, fun {d a b} hab => ?_⟩
  · cases d with
    | inward => exact Rule.inner_unique ht hu
    | outward => exact hr.outer_unique h ht hu
  · cases d with
    | inward =>
      obtain _ | hb := hab
      exact .wire (hv.wire_symm hb)
    | outward =>
      obtain _ | _ | _ | ⟨ha, hb, hpq⟩ := hab
      exact .slot hb ha hpq.symm
  · cases d with
    | inward =>
      obtain _ | hb := hab
      exact hv.wire_ne hb
    | outward =>
      obtain _ | _ | _ | ⟨ha, hb, hpq⟩ := hab
      rintro rfl
      exact h.joined_ne hpq (Option.some.inj (ha.symm.trans hb))

end IsRedex

end Net

end InteractionNets
