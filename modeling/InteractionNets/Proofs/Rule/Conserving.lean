import Mathlib.Data.List.Pairwise
import Mathlib.Data.List.Perm.Subperm
import InteractionNets.Proofs.Net.Preservation
import InteractionNets.Rule.Basic

/-!
# What the making of a rule checks

`Rule.ofReplacement` looks at a replacement splice by splice and then counts: as many splices as the
pattern has slots, as many bound ports as the interface has ports. `Replacement.Conserves` says
without counting what that comes to. Every slot of the pattern is reconnected, either through a wire
that is entered from both its ends, or to a free port of the net that no other slot has; and the
ports given to slots are exactly the interface. The checks are exact: nothing that conserves is
refused.
-/

namespace InteractionNets

/-- A replacement that reconnects every slot of a pattern of two symbols exactly once, through its
whole interface. -/
structure Replacement.Conserves (r : Replacement) (left right : Symbol) : Prop where
  hasPrincipal_left : 1 ≤ left.arity
  hasPrincipal_right : 1 ≤ right.arity
  /-- The slots of the pattern are entered, and no others are. -/
  mem_keys : ∀ {a}, a ∈ r.splices.keys ↔ a ∈ Rule.slotsOf left right
  /-- A wire leads to another slot, from which it leads back. -/
  wire : ∀ {a b}, r.splice? a = some (.wire b) → b ≠ a ∧ r.splice? b = some (.wire a)
  /-- Slots are reconnected to live ports that are not connected. -/
  port_free : ∀ {a p}, r.splice? a = some (.port p) → r.net.IsFree p
  /-- No port is given to two slots. -/
  port_injective : ∀ {a b p}, r.splice? a = some (.port p) → r.splice? b = some (.port p) → a = b
  /-- The ports given to slots are those of the interface. -/
  mem_interface : ∀ {p}, p ∈ r.net.interface ↔ ∃ a, r.splice? a = some (.port p)

/-- The port of the net that a splice leads to. -/
def Splice.port? : Splice → Option PortId
  | .port p => some p
  | .wire _ => none

namespace Replacement

variable {r : Replacement}

theorem splice?_eq_some_iff {a : Slot} {splice : Splice} :
    r.splice? a = some splice ↔ (a, splice) ∈ r.splices.entries :=
  lookup_eq_some_iff_mem r.splices.keys_nodup

theorem map_snd_boundPorts :
    r.boundPorts.map Prod.snd = r.splices.entries.filterMap fun entry => entry.2.port? := by
  rw [boundPorts, List.map_filterMap]
  refine List.filterMap_congr fun entry _ => ?_
  cases entry.2 <;> rfl

theorem mem_boundPorts_iff {p : PortId} :
    p ∈ r.boundPorts.map Prod.snd ↔ ∃ a, r.splice? a = some (.port p) := by
  simp only [map_snd_boundPorts, List.mem_filterMap, splice?_eq_some_iff]
  constructor
  · rintro ⟨⟨a, splice⟩, hmem, hport⟩
    cases splice with
    | wire _ => cases hport
    | port q =>
      obtain rfl := Option.some.inj hport
      exact ⟨a, hmem⟩
  · rintro ⟨a, hmem⟩
    exact ⟨_, hmem, rfl⟩

/-- No port is bound twice when different slots are reconnected to different ports. -/
theorem nodup_boundPorts_iff :
    (r.boundPorts.map Prod.snd).Nodup ↔
      ∀ {a b p}, r.splice? a = some (.port p) → r.splice? b = some (.port p) → a = b := by
  rw [map_snd_boundPorts, List.Nodup, List.pairwise_filterMap]
  simp only [splice?_eq_some_iff]
  constructor
  · intro hpairwise a b p ha hb
    by_contra hab
    have hsymm : Std.Symm fun e f : Slot × Splice =>
        ∀ p, e.2.port? = some p → ∀ q, f.2.port? = some q → p ≠ q :=
      ⟨fun e f hef q hq p hp => (hef p hp q hq).symm⟩
    exact hpairwise.forall ha hb (by simp [hab]) p rfl p rfl rfl
  · intro hinjective
    refine (List.pairwise_map.1 r.splices.keys_nodup).imp_of_mem ?_
    rintro ⟨a, splice⟩ ⟨b, splice'⟩ ha hb hne p hp q hq rfl
    cases splice with
    | wire _ => cases hp
    | port _ =>
      cases splice' with
      | wire _ => cases hq
      | port _ =>
        obtain rfl := Option.some.inj hp
        obtain rfl := Option.some.inj hq
        exact hne (hinjective ha hb)

end Replacement

namespace Rule

variable {left right : Symbol} {r : Replacement}

theorem length_slotsOf (left right : Symbol) :
    (slotsOf left right).length = left.auxArity + right.auxArity := by
  simp [slotsOf]

theorem nodup_slotsOf (left right : Symbol) : (slotsOf left right).Nodup := by
  refine List.nodup_append.2 ⟨?_, ?_, ?_⟩
  · exact List.nodup_range.map fun i j hij => congrArg Slot.index hij
  · exact List.nodup_range.map fun i j hij => congrArg Slot.index hij
  · simp [Slot.left, Slot.right]

theorem inPattern_iff {slot : Slot} : inPattern left right slot ↔ slot ∈ slotsOf left right := by
  rw [mem_slotsOf_iff, inPattern]
  cases slot.side <;> simp

/-! ### Splice by splice -/

theorem splicesFault?_wire_iff {mismatch : Fault} {used : List PortId} {a b : Slot}
    {rest : List (Slot × Splice)} :
    splicesFault? r mismatch used ((a, .wire b) :: rest) = none ↔
      (b ≠ a ∧ r.splice? b = some (.wire a)) ∧ splicesFault? r mismatch used rest = none := by
  rw [splicesFault?]
  split
  · rename_i hbad
    simpa using fun hne hback => absurd (hbad.resolve_left hne) (not_not.2 hback)
  · rename_i hgood
    obtain ⟨hne, hback⟩ := not_or.1 hgood
    simp [hne, not_not.1 hback]

theorem splicesFault?_port_iff {mismatch : Fault} {used : List PortId} {a : Slot} {p : PortId}
    {rest : List (Slot × Splice)} :
    splicesFault? r mismatch used ((a, .port p) :: rest) = none ↔
      (r.net.IsFree p ∧ p ∉ used) ∧ splicesFault? r mismatch (p :: used) rest = none := by
  rw [splicesFault?, Net.IsFree]
  cases hp : r.net.port? p with
  | none => simp
  | some data =>
    cases hlink : data.link with
    | some _ => simp [Port.isConnected, hlink]
    | none =>
      by_cases hused : p ∈ used
      · simp [Port.isConnected, hlink, hused]
      · simp [Port.isConnected, hlink, hused]

/-- Splices without fault: each wire is entered from both sides, the ports are free and were not
used before, and none is used twice. -/
theorem splicesFault?_eq_none_iff {mismatch : Fault} {used : List PortId}
    {entries : List (Slot × Splice)} :
    splicesFault? r mismatch used entries = none ↔
      (∀ a b, (a, .wire b) ∈ entries → b ≠ a ∧ r.splice? b = some (.wire a)) ∧
        (∀ a p, (a, .port p) ∈ entries → r.net.IsFree p ∧ p ∉ used) ∧
        (entries.filterMap fun entry => entry.2.port?).Nodup := by
  induction entries generalizing used with
  | nil => simp [splicesFault?]
  | cons entry rest ih =>
    obtain ⟨slot, splice⟩ := entry
    cases splice with
    | wire other =>
      rw [splicesFault?_wire_iff, ih]
      simp only [List.mem_cons, Prod.mk.injEq, Splice.wire.injEq, reduceCtorEq, and_false,
        false_or, List.filterMap_cons, Splice.port?]
      constructor
      · rintro ⟨hother, hwires, hports, hnodup⟩
        exact ⟨by rintro a b (⟨rfl, rfl⟩ | hab); exacts [hother, hwires a b hab], hports, hnodup⟩
      · rintro ⟨hwires, hports, hnodup⟩
        exact ⟨hwires _ _ (.inl ⟨rfl, rfl⟩), fun a b hab => hwires a b (.inr hab), hports, hnodup⟩
    | port port =>
      rw [splicesFault?_port_iff, ih]
      simp only [List.mem_cons, Prod.mk.injEq, Splice.port.injEq, reduceCtorEq, and_false,
        false_or, List.filterMap_cons, Splice.port?, List.nodup_cons, List.mem_filterMap]
      constructor
      · rintro ⟨hport, hwires, hports, hnodup⟩
        refine ⟨hwires, ?_, ?_, hnodup⟩
        · rintro a p (⟨rfl, rfl⟩ | hap)
          · exact hport
          · exact ⟨(hports a p hap).1, fun hused => (hports a p hap).2 (.inr hused)⟩
        · rintro ⟨⟨a, splice⟩, hmem, hsplice⟩
          cases splice with
          | wire _ => cases hsplice
          | port _ => exact (hports a _ hmem).2 (.inl (Option.some.inj hsplice))
      · rintro ⟨hwires, hports, hnot, hnodup⟩
        refine ⟨hports _ _ (.inl ⟨rfl, rfl⟩), hwires, fun a p hap => ?_, hnodup⟩
        obtain ⟨hfree, hused⟩ := hports a p (.inr hap)
        refine ⟨hfree, not_or.2 ⟨?_, hused⟩⟩
        rintro rfl
        exact hnot ⟨_, hap, rfl⟩

/-! ### The checks together -/

private theorem fault?_eq_none_iff_checks :
    fault? left right r = none ↔
      1 ≤ left.arity ∧ 1 ≤ right.arity ∧
        (r.splices.size = left.auxArity + right.auxArity ∧
          ∀ slot ∈ r.splices.keys, slot ∈ slotsOf left right) ∧
        splicesFault? r (.arityMismatch (.of left right) (left.auxArity + right.auxArity)
          r.splices.size) [] r.splices.entries = none ∧
        (r.boundPorts.map Prod.snd).length = r.net.interface.length ∧
          ∀ p ∈ r.net.interface, p ∈ r.boundPorts.map Prod.snd := by
  simp only [← inPattern_iff]
  constructor
  · intro h
    unfold fault? at h
    split at h
    · cases h
    · split at h
      · cases h
      · simp only at h
        split at h
        · cases h
        · split at h
          · cases h
          · split at h
            · cases h
            · simp_all [Symbol.hasPrincipal, Nat.one_le_iff_ne_zero]
  · rintro ⟨hleft, hright, ⟨hsize, hkeys⟩, hsplices, hbound, hinterface⟩
    rw [hsize] at hsplices
    have hall : r.splices.keys.all (inPattern left right) = true := List.all_eq_true.2 hkeys
    have hcovered : r.net.interface.all (r.boundPorts.map Prod.snd).contains = true :=
      List.all_eq_true.2 fun p hp => List.contains_iff_mem.2 (hinterface p hp)
    simp only [fault?, Symbol.hasPrincipal, Nat.succ_le_iff.1 hleft, Nat.succ_le_iff.1 hright,
      hsize, hall, hsplices, hbound, hcovered]
    simp

/-- As many distinct keys as the pattern has slots, all of them slots: these are all the slots. -/
private theorem keys_iff :
    (r.splices.size = left.auxArity + right.auxArity ∧
        ∀ slot ∈ r.splices.keys, slot ∈ slotsOf left right) ↔
      ∀ slot, slot ∈ r.splices.keys ↔ slot ∈ slotsOf left right := by
  have hsize : r.splices.size = r.splices.keys.length := (List.length_map _).symm
  rw [← length_slotsOf, hsize]
  constructor
  · rintro ⟨hlength, hkeys⟩ slot
    exact ((List.subperm_of_subset r.splices.keys_nodup hkeys).perm_of_length_le
      (Nat.le_of_eq hlength.symm)).mem_iff
  · intro hkeys
    have hperm : r.splices.keys.Perm (slotsOf left right) :=
      (List.perm_ext_iff_of_nodup r.splices.keys_nodup (nodup_slotsOf left right)).2 hkeys
    exact ⟨hperm.length_eq, fun slot => (hkeys slot).1⟩

/-- As many bound ports as the interface has, without repeats and all of the interface among them:
these are the ports of the interface. -/
private theorem bound_iff (hnet : r.net.WellFormed) (hnodup : (r.boundPorts.map Prod.snd).Nodup) :
    ((r.boundPorts.map Prod.snd).length = r.net.interface.length ∧
        ∀ p ∈ r.net.interface, p ∈ r.boundPorts.map Prod.snd) ↔
      ∀ p, p ∈ r.net.interface ↔ ∃ a, r.splice? a = some (.port p) := by
  simp only [← Replacement.mem_boundPorts_iff]
  constructor
  · rintro ⟨hlength, hinterface⟩ p
    exact ((List.subperm_of_subset hnet.interface_nodup hinterface).perm_of_length_le
      (Nat.le_of_eq hlength)).mem_iff
  · intro hinterface
    have hperm : r.net.interface.Perm (r.boundPorts.map Prod.snd) :=
      (List.perm_ext_iff_of_nodup hnet.interface_nodup hnodup).2 hinterface
    exact ⟨hperm.length_eq.symm, fun p => (hinterface p).1⟩

/-- A replacement is found without fault exactly when it reconnects every slot once. -/
theorem fault?_eq_none_iff (hnet : r.net.WellFormed) :
    fault? left right r = none ↔ r.Conserves left right := by
  rw [fault?_eq_none_iff_checks, splicesFault?_eq_none_iff, keys_iff,
    ← Replacement.map_snd_boundPorts]
  simp only [← Replacement.splice?_eq_some_iff, List.not_mem_nil, not_false_eq_true, and_true]
  constructor
  · rintro ⟨hleft, hright, hkeys, ⟨hwires, hports, hnodup⟩, hbound⟩
    exact {
      hasPrincipal_left := hleft
      hasPrincipal_right := hright
      mem_keys := hkeys _
      wire := hwires _ _
      port_free := hports _ _
      port_injective := Replacement.nodup_boundPorts_iff.1 hnodup
      mem_interface := (bound_iff hnet hnodup).1 hbound _ }
  · intro h
    have hnodup := Replacement.nodup_boundPorts_iff.2 h.port_injective
    exact ⟨h.hasPrincipal_left, h.hasPrincipal_right, fun _ => h.mem_keys,
      ⟨fun _ _ => h.wire, fun _ _ => h.port_free, hnodup⟩,
      (bound_iff hnet hnodup).2 fun _ => h.mem_interface⟩

/-- What a rule that was made is made of. -/
theorem ofReplacement_eq_ok_iff {rule : Rule} :
    ofReplacement left right r = .ok rule ↔ fault? left right r = none ∧
      rule = ⟨left, right, { r with net := { r.net with tally := .empty } }⟩ := by
  rw [ofReplacement]
  cases fault? left right r with
  | some fault => simp
  | none => simp [eq_comm]

end Rule

end InteractionNets
