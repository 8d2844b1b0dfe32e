import InteractionNets.Proofs.Reduction.Guarded
import InteractionNets.Systems.Combinators

/-!
# Reachable nets

A net is reachable when it comes about by operations on the empty net or on nets of single agents;
the operations may be refused, may be given stale ids, and may use rules that are made from
reachable nets. Every reachable net is well-formed, so no operation on it counts on something that
is missing (`Net.Reachable.invariant`). What can still stop an operation for good is the tally: it
is kept in words of 64 bits, and a net without a single agent can have counted so much that there
is no sum of its tally with itself (`Net.parallel_idle_stops`).
-/

namespace InteractionNets

/-- An operation on a net, with its arguments. -/
inductive Operation where
  | newAgent (symbol : Symbol)
  | connect (a b : PortId)
  | disconnect (connection : ConnectionId)
  | connectInterface (left right : List PortId)
  | restrictInterface (ports : List PortId)
  | extendInterface (ports : List PortId)
  | removeAgent (agent : AgentId)
  | inject (other : Net) (expose : Bool)
  | parallel (right : Net)
  | tensor (right : Net)
  | sequential (right : Net)
  | compose (right : Net) (mapping : OrderedMap PortId PortId)
  | interact (watch : Stopwatch) (rule : Rule) (pair : ActivePair)
  | step (reducer : Reducer)
  | normalize (reducer : Reducer) (limit : Nat)
  | reduce (reducer : Reducer) (fuel : Nat)
  | round (reducer : Reducer) (limit : Option Nat)
  | normalizeInRounds (reducer : Reducer) (limit : Nat)
  | reduceInRounds (reducer : Reducer) (fuel : Nat)

namespace Operation

/-- The other nets that an operation uses. -/
def nets : Operation → List Net
  | inject other _ | parallel other | tensor other | sequential other | compose other _ => [other]
  | _ => []

/-- The rules that an operation uses. -/
def rules : Operation → List Rule
  | interact _ rule _ => [rule]
  | step r | normalize r _ | reduce r _ | round r _ | normalizeInRounds r _ | reduceInRounds r _ =>
    r.rules.rules
  | _ => []

/-- The net there is after an operation. A composition that is refused makes no net, and the one
before it is kept. -/
def perform : Operation → Net → Net
  | newAgent symbol, net => (net.newAgent symbol).2
  | connect a b, net => ((Net.connect a b).run net).2
  | disconnect c, net => ((Net.disconnect c).run net).2
  | connectInterface left right, net => ((Net.connectInterface left right).run net).2
  | restrictInterface ports, net => ((Net.restrictInterface ports).run net).2
  | extendInterface ports, net => ((Net.extendInterface ports).run net).2
  | removeAgent agent, net => ((Net.removeAgent agent).run net).2
  | inject other expose, net => (net.inject other expose).2
  | parallel right, net => net.parallel right
  | tensor right, net => net.tensor right
  | sequential right, net => (net.sequential right).toOption.getD net
  | compose right mapping, net => (net.compose right mapping).toOption.getD net
  | interact watch rule pair, net => ((Net.interact watch rule pair).run net).2
  | step r, net => (r.step.run net).2
  | normalize r limit, net => ((r.normalize limit).run net).2
  | reduce r fuel, net => ((r.reduce fuel).run net).2
  | round r limit, net => ((r.round limit).run net).2
  | normalizeInRounds r limit, net => ((r.normalizeInRounds limit).run net).2
  | reduceInRounds r fuel, net => ((r.reduceInRounds fuel).run net).2

/-- An operation that stops for good when something it counts on is missing, or when it has counted
beyond the range. Making an agent and changing the interface count on nothing. -/
def perform? : Operation → Net → Option Net
  | newAgent symbol, net => some (net.newAgent symbol).2
  | connect a b, net => ((Net.connect? a b).run net).map Prod.snd
  | disconnect c, net => ((Net.disconnect? c).run net).map Prod.snd
  | connectInterface left right, net => ((Net.connectInterface? left right).run net).map Prod.snd
  | restrictInterface ports, net => some ((Net.restrictInterface ports).run net).2
  | extendInterface ports, net => some ((Net.extendInterface ports).run net).2
  | removeAgent agent, net => ((Net.removeAgent? agent).run net).map Prod.snd
  | inject other expose, net => (net.inject? other expose).map Prod.snd
  | parallel right, net => net.parallel? right
  | tensor right, net => net.parallel? right
  | sequential right, net => (net.sequential? right).map fun result => result.toOption.getD net
  | compose right mapping, net =>
    (net.compose? right mapping).map fun result => result.toOption.getD net
  | interact watch rule pair, net => ((Net.interact? watch rule pair).run net).map Prod.snd
  | step r, net => (r.step?.run net).map Prod.snd
  | normalize r limit, net => ((r.normalize? limit).run net).map Prod.snd
  | reduce r fuel, net => ((r.reduce? fuel).run net).map Prod.snd
  | round r limit, net => ((r.round? limit).run net).map Prod.snd
  | normalizeInRounds r limit, net => ((r.normalizeInRounds? limit).run net).map Prod.snd
  | reduceInRounds r fuel, net => ((r.reduceInRounds? fuel).run net).map Prod.snd

variable {net : Net}

/-- A safe guarded operation leaves the net that the operation leaves. -/
private theorem spec_of_safe {α : Type} {guarded : Option (α × Net)} {out : α × Net}
    (hsafe : SafeOutcome net guarded out) :
    out.2.WellFormed ∧ net.tally.GrowsTo out.2.tally ∧
      (net.tally.inRange →
        guarded.map Prod.snd = if out.2.tally.inRange then some out.2 else none) :=
  ⟨hsafe.wellFormed, hsafe.grows, hsafe.map_snd_eq⟩

/-- A composition gives a net that is safe or keeps the old one. -/
private theorem spec_of_result (h : net.WellFormed) {guarded : Option (Except Fault Net)}
    {result : Except Fault Net}
    (hguarded : net.tally.inRange → guarded = Net.checkResult result)
    (hresult : ∀ {after}, result = .ok after →
      after.WellFormed ∧ net.tally.GrowsTo after.tally) :
    (result.toOption.getD net).WellFormed ∧
      net.tally.GrowsTo (result.toOption.getD net).tally ∧
      (net.tally.inRange → guarded.map (fun result => result.toOption.getD net) =
        if (result.toOption.getD net).tally.inRange then some (result.toOption.getD net)
        else none) := by
  cases result with
  | error fault =>
    refine ⟨h, .refl net.tally, fun hrange => ?_⟩
    have hkept : (Except.error fault : Except Fault Net).toOption.getD net = net := rfl
    rw [hguarded hrange, hkept, if_pos hrange]
    rfl
  | ok after =>
    obtain ⟨hwf, hgrows⟩ := hresult rfl
    refine ⟨hwf, hgrows, fun hrange => ?_⟩
    have hmade : (Except.ok after : Except Fault Net).toOption.getD net = after := rfl
    rw [hguarded hrange, Net.checkResult, hmade]
    split <;> rfl

/-- An operation on a well-formed net, with well-formed nets and valid rules, leaves a well-formed
net whose tally has grown. It stops for good exactly when that tally is out of range. -/
theorem perform_spec (operation : Operation) (h : net.WellFormed)
    (hnets : ∀ other ∈ operation.nets, other.WellFormed)
    (hrules : ∀ rule ∈ operation.rules, rule.Valid) :
    (operation.perform net).WellFormed ∧ net.tally.GrowsTo (operation.perform net).tally ∧
      (net.tally.inRange → operation.perform? net =
        if (operation.perform net).tally.inRange then some (operation.perform net) else none) := by
  have hkept : ∀ {after : Net}, after.WellFormed → after.tally = net.tally →
      after.WellFormed ∧ net.tally.GrowsTo after.tally ∧ (net.tally.inRange →
        some after = if after.tally.inRange then some after else none) := by
    intro after hwf htally
    have hsafe : SafeOutcome net (some ((), after)) ((), after) := .of_tally_eq hwf htally
    exact spec_of_safe hsafe
  have hother : ∀ {other : Net}, operation.nets = [other] → other.WellFormed :=
    fun heq => hnets _ (heq ▸ List.mem_singleton_self _)
  cases operation with
  | newAgent symbol => exact hkept (h.newAgent symbol) rfl
  | connect a b => exact spec_of_safe (Net.safe_connect? a b net h)
  | disconnect c => exact spec_of_safe (Net.safe_disconnect? c net h)
  | connectInterface left right => exact spec_of_safe (Net.safe_connectInterface? left right net h)
  | restrictInterface ports =>
    exact hkept (h.run_restrictInterface ports)
      (Net.followsWiring_tally.bind (Net.followsWiring_tally.guard _) (fun _ _ => rfl) net)
  | extendInterface ports =>
    exact hkept (h.run_extendInterface ports)
      (Net.followsWiring_tally.bind (Net.followsWiring_tally.guard _) (fun _ _ => rfl) net)
  | removeAgent agent => exact spec_of_safe (Net.safe_removeAgent? agent net h)
  | inject other expose => exact spec_of_safe (Net.safe_inject? h (hother rfl) expose)
  | parallel right => exact spec_of_safe (Net.safe_inject? h (hother rfl) true)
  | tensor right => exact spec_of_safe (Net.safe_inject? h (hother rfl) true)
  | sequential right =>
    refine spec_of_result h (Net.sequential?_eq h (hother rfl)) fun hafter =>
      ⟨h.sequential (hother rfl) hafter, ?_⟩
    exact Net.tally_sequential hafter ▸ net.tally.growsTo_add right.tally
  | compose right mapping =>
    refine spec_of_result h (Net.compose?_eq h (hother rfl) mapping) fun hafter =>
      ⟨h.compose (hother rfl) hafter, ?_⟩
    exact Net.tally_compose hafter ▸ net.tally.growsTo_add right.tally
  | interact watch rule pair =>
    have hvalid := hrules rule (List.mem_singleton_self _)
    exact spec_of_safe (Net.safe_interact? hvalid watch pair net h)
  | step r => exact spec_of_safe (Reducer.safe_step? hrules net h)
  | normalize r limit => exact spec_of_safe (Reducer.safe_normalize? hrules limit net h)
  | reduce r fuel => exact spec_of_safe (Reducer.safe_reduce? hrules fuel net h)
  | round r limit => exact spec_of_safe (Reducer.safe_round? hrules limit net h)
  | normalizeInRounds r limit =>
    exact spec_of_safe (Reducer.safe_normalizeInRounds? hrules limit net h)
  | reduceInRounds r fuel => exact spec_of_safe (Reducer.safe_reduceInRounds? hrules fuel net h)

end Operation

/-! ### Reachability -/

mutual

/-- A net that operations lead to. -/
inductive Net.Reachable : Net → Prop
  | empty : Net.Reachable .empty
  | single (symbol : Symbol) : Net.Reachable (.single symbol)
  | perform {net : Net} (operation : Operation) : Net.Reachable net →
      (∀ other ∈ operation.nets, Net.Reachable other) →
      (∀ rule ∈ operation.rules, Rule.Made rule) → Net.Reachable (operation.perform net)

/-- A rule that is made from a reachable net. -/
inductive Rule.Made : Rule → Prop
  | ofReplacement {left right : Symbol} {replacement : Replacement} {rule : Rule} :
      Net.Reachable replacement.net → Rule.ofReplacement left right replacement = .ok rule →
      Rule.Made rule

end

variable {net : Net}

theorem Net.Reachable.wellFormed (h : net.Reachable) : net.WellFormed :=
  @Net.Reachable.rec (fun net _ => net.WellFormed) (fun rule _ => rule.Valid)
    Net.wellFormed_empty Net.wellFormed_single
    (fun operation _ _ _ hnet hnets hrules => (operation.perform_spec hnet hnets hrules).1)
    (fun _ hrule hnet => Rule.valid_of_ofReplacement hnet hrule) net h

theorem Rule.Made.valid {rule : Rule} (h : rule.Made) : rule.Valid := by
  obtain ⟨hnet, hrule⟩ := h
  exact Rule.valid_of_ofReplacement hnet.wellFormed hrule

/-- An operation on a reachable net stops for good exactly when it counts beyond the range. -/
theorem Net.Reachable.perform?_eq (h : net.Reachable) (operation : Operation)
    (hnets : ∀ other ∈ operation.nets, other.Reachable)
    (hrules : ∀ rule ∈ operation.rules, rule.Made) :
    net.tally.GrowsTo (operation.perform net).tally ∧
      (net.tally.inRange → operation.perform? net =
        if (operation.perform net).tally.inRange then some (operation.perform net) else none) :=
  (operation.perform_spec h.wellFormed (fun other hother => (hnets other hother).wellFormed)
    fun rule hrule => (hrules rule hrule).valid).2

/-! ### Counting beyond the range -/

namespace Net

/-- A net without agents that has counted time: nothing is reduced on the empty net, which takes a
nanosecond, and then the net is put beside itself as often as told, which doubles the time. -/
def idle : Nat → Net
  | 0 => (Operation.reduce ⟨.empty, .ticking⟩ 0).perform .empty
  | k + 1 => (Operation.parallel (idle k)).perform (idle k)

theorem idle_eq (k : Nat) :
    idle k = { empty with tally := { Tally.empty with busy := ⟨2 ^ k⟩ } } := by
  induction k with
  | zero => rfl
  | succ k ih =>
    rw [idle, ih, Nat.pow_succ, Nat.mul_two]
    rfl

theorem reachable_idle (k : Nat) : (idle k).Reachable := by
  induction k with
  | zero =>
    have hnone : ∀ rule ∈ RuleSet.empty.rules, rule.Made := List.forall_mem_nil _
    exact .perform (.reduce ⟨.empty, .ticking⟩ 0) .empty (by simp [Operation.nets]) hnone
  | succ k ih =>
    exact .perform (.parallel (idle k)) ih (by simp [Operation.nets, ih])
      (by simp [Operation.rules])

/-- After 93 doublings the time still fits into 64 bits of seconds. -/
theorem inRange_idle : (idle 93).tally.inRange := by
  rw [idle_eq]
  decide

theorem not_fits_idle : ¬ (idle 94).tally.fits := by
  rw [idle_eq]
  decide

end Net

/-! ### The invariant -/

/-- **Reachable nets are well-formed.** The parts of a reachable net agree, the ports of an agent
are different, and a port names exactly the connection that lists it. So no violations are found,
and an operation with reachable nets and rules made from such nets does not stop for good when the
tally of the net it leaves is in range. If the tally of the net is in range before the operation and
one of its durations is not after it, then it does stop. -/
theorem Net.Reachable.invariant (h : net.Reachable) :
    net.WellFormed ∧ (∀ a, (net.portsOf a).Nodup) ∧
      (∀ p c, net.linkOf? p = some c ↔
        ∃ data, net.connection? c = some data ∧ (p = data.ports.1 ∨ p = data.ports.2)) ∧
      net.violations = [] ∧
      ∀ operation : Operation, (∀ other ∈ operation.nets, other.Reachable) →
        (∀ rule ∈ operation.rules, rule.Made) →
        ((operation.perform net).tally.inRange →
          operation.perform? net = some (operation.perform net)) ∧
        (net.tally.inRange → ¬ (operation.perform net).tally.fits →
          operation.perform? net = none) := by
  have hwf := h.wellFormed
  refine ⟨hwf, hwf.nodup_portsOf, fun p c => hwf.linkOf?_eq_some_iff, hwf.violations_eq_nil, ?_⟩
  intro operation hnets hrules
  obtain ⟨hgrows, heq⟩ := h.perform?_eq operation hnets hrules
  constructor
  · intro hrange
    rw [heq (hgrows.inRange hrange), if_pos hrange]
  · intro hbefore hafter
    rw [heq hbefore, if_neg fun hrange => hafter (Tally.fits_of_inRange hrange)]

/-- Two connected constructors can be taken apart. A net whose time has been doubled 93 times cannot
be put beside itself. -/
theorem disconnect_facing_gamma :
    (Net.facing Combinators.gamma Combinators.gamma).violations = [] ∧
      (Operation.disconnect 0).perform? (Net.facing Combinators.gamma Combinators.gamma) =
        some ((Operation.disconnect 0).perform
          (Net.facing Combinators.gamma Combinators.gamma)) ∧
      (Operation.parallel (Net.idle 93)).perform? (Net.idle 93) = none := by
  have hreachable : (Net.facing Combinators.gamma Combinators.gamma).Reachable :=
    .perform (.connect 0 3)
      (.perform (.newAgent Combinators.gamma) (.single Combinators.gamma)
        (by simp [Operation.nets]) (by simp [Operation.rules]))
      (by simp [Operation.nets]) (by simp [Operation.rules])
  have hidle := Net.reachable_idle 93
  obtain ⟨-, -, -, hviolations, hfacing⟩ := Net.Reachable.invariant hreachable
  obtain ⟨-, -, -, -, hdoubled⟩ := Net.Reachable.invariant hidle
  obtain ⟨hdisconnect, -⟩ := hfacing (.disconnect 0) (by simp [Operation.nets])
    (by simp [Operation.rules])
  obtain ⟨-, hstops⟩ := hdoubled (.parallel (Net.idle 93)) (by simp [Operation.nets, hidle])
    (by simp [Operation.rules])
  exact ⟨hviolations, hdisconnect (by decide), hstops Net.inRange_idle Net.not_fits_idle⟩

/-- Doubled once more, the time takes more than 64 bits of seconds, so the net without agents cannot
be put beside itself. -/
theorem Net.parallel_idle_stops :
    (idle 93).Reachable ∧ (idle 93).agentList = [] ∧ (idle 93).tally.inRange ∧
      (Operation.parallel (idle 93)).perform? (idle 93) = none := by
  have hreachable := reachable_idle 93
  have hnext : (Operation.parallel (idle 93)).perform (idle 93) = idle 94 := rfl
  have hafter : ¬ (idle 94).tally.inRange := fun h => not_fits_idle (Tally.fits_of_inRange h)
  obtain ⟨-, hperform⟩ := hreachable.perform?_eq (.parallel (idle 93))
    (by simp [Operation.nets, hreachable]) (by simp [Operation.rules])
  refine ⟨hreachable, ?_, inRange_idle, ?_⟩
  · rw [idle_eq]
    rfl
  · rw [hperform inRange_idle, hnext, if_neg hafter]

end InteractionNets
