import InteractionNets.Proofs.Net.Copying
import InteractionNets.Proofs.Net.Wiring
import Mathlib.Data.List.Perm.Subperm

/-!
# Edits keep nets well-formed

Connecting and disconnecting, hiding and exposing, making agents and composing are made of the
primitive operations. Each of them leaves a well-formed net behind, whatever it is given and
whether or not it is refused; a port that is given back to the interface was connected until then,
so it cannot be there already.
-/

namespace InteractionNets

namespace Interface

theorem nodup_insertAt {l : Interface} (h : l.Nodup) {p : PortId} (hp : p ∉ l) (i : Nat) :
    (l.insertAt i p).Nodup := by
  have hsplit : (l.take i ++ l.drop i).Nodup := by rwa [List.take_append_drop]
  have hperm : (l.insertAt i p).Perm (p :: (l.take i ++ l.drop i)) := List.perm_middle
  rw [hperm.nodup_iff, List.nodup_cons, List.take_append_drop]
  exact ⟨hp, h⟩

theorem mem_releaseUnrecorded {l : Interface} {p q : PortId} {restore : Restore} :
    q ∈ l.releaseUnrecorded p restore ↔ q ∈ l ∨ (q = p ∧ restore = .unrecorded) := by
  cases restore <;> simp [releaseUnrecorded, mem_push]

theorem nodup_releaseUnrecorded {l : Interface} (h : l.Nodup) (p : PortId) (restore : Restore) :
    (l.releaseUnrecorded p restore).Nodup := by
  cases restore <;> simp [releaseUnrecorded, h, nodup_push]

/-- Giving back two different ports that are not on the interface adds some of them. -/
theorem release_spec {l : Interface} (h : l.Nodup) {ports : PortId × PortId}
    (hne : ports.1 ≠ ports.2) (h₁ : ports.1 ∉ l) (h₂ : ports.2 ∉ l)
    (restore : Restore × Restore) :
    (l.release ports restore).Nodup ∧
      ∀ q ∈ l.release ports restore, q ∈ l ∨ q = ports.1 ∨ q = ports.2 := by
  obtain ⟨p, q⟩ := ports
  obtain ⟨r, s⟩ := restore
  have hpushed := nodup_releaseUnrecorded (nodup_releaseUnrecorded h p r) q s
  have hmem : ∀ {x}, x ∈ (l.releaseUnrecorded p r).releaseUnrecorded q s ↔
      x ∈ l ∨ (x = p ∧ r = .unrecorded) ∨ (x = q ∧ s = .unrecorded) := by
    simp only [mem_releaseUnrecorded, or_assoc, implies_true]
  unfold release
  -- an end that is inserted has a recorded position, so it was not pushed
  split
  · -- the smaller position is filled first, and both ends are new
    have hp : p ∉ (l.releaseUnrecorded p r).releaseUnrecorded q s := by simp_all
    have hq : q ∉ (l.releaseUnrecorded p r).releaseUnrecorded q s := by simp_all
    split
    · refine ⟨nodup_insertAt (nodup_insertAt hpushed hp _) ?_ _, fun x hx => ?_⟩
      · simpa [mem_insertAt, hq] using hne.symm
      · simp only [mem_insertAt, hmem] at hx
        tauto
    · refine ⟨nodup_insertAt (nodup_insertAt hpushed hq _) ?_ _, fun x hx => ?_⟩
      · simpa [mem_insertAt, hp] using hne
      · simp only [mem_insertAt, hmem] at hx
        tauto
  · refine ⟨nodup_insertAt hpushed ?_ _, fun x hx => ?_⟩
    · simp_all
    · simp only [mem_insertAt, hmem] at hx
      tauto
  · refine ⟨nodup_insertAt hpushed ?_ _, fun x hx => ?_⟩
    · have hne' : ¬q = p := hne.symm
      simp_all
    · simp only [mem_insertAt, hmem] at hx
      tauto
  · refine ⟨hpushed, fun x hx => ?_⟩
    rw [hmem] at hx
    tauto

end Interface

namespace Net

variable {net : Net}

/-! ### Connecting and disconnecting -/

/-- Two ports may be connected when they are different and free. -/
theorem connectFault?_eq_none_iff_isFree {a b : PortId} :
    net.connectFault? a b = none ↔ a ≠ b ∧ net.IsFree a ∧ net.IsFree b := by
  simp only [connectFault?_eq_none_iff, IsFree, Port.isConnected, Option.isSome_eq_false_iff,
    Option.isNone_iff_eq_none]

/-- Connecting two ports leaves the other free ports. -/
theorem isFree_join {a b p : PortId} :
    (net.join a b).2.IsFree p ↔ net.IsFree p ∧ p ≠ a ∧ p ≠ b :=
  @isFree_link { net with interface := (net.interface.erase a).erase b } a b p

/-- What is recorded for the time a connection is removed does not matter for the laws. -/
theorem WellFormed.withRestore (h : net.WellFormed) (c : ConnectionId)
    (restore : Restore × Restore) :
    { net with
      connections := net.connections.modify c fun data => { data with restore } }.WellFormed := by
  have hconnection : ∀ {d data}, (net.connections.modify c fun data =>
      { data with restore }).get? d = some data →
      ∃ old, net.connection? d = some old ∧ data.id = old.id ∧ data.ports = old.ports ∧
        data.agents = old.agents := by
    intro d data hd
    rw [Arena.get?_modify] at hd
    split at hd
    · obtain ⟨old, hold, rfl⟩ := Option.map_eq_some_iff.1 hd
      exact ⟨old, hold, rfl, rfl, rfl⟩
    · exact ⟨data, hd, rfl, rfl, rfl⟩
  refine h.relink (fun _ old => old) (fun _ => rfl) (fun p => ?_) rfl (fun {d data} hd => ?_)
    (fun {d data p a} hd hend => ?_) (fun {p port d} hp hlink => ?_) fun _ _ => rfl
  · show net.port? p = _
    cases net.port? p <;> rfl
  · obtain ⟨old, hold, hid, hports, -⟩ := hconnection hd
    exact ⟨hid.trans (h.connection_id hold), hports ▸ h.ends_ne hold⟩
  · obtain ⟨old, hold, -, hports, hagents⟩ := hconnection hd
    exact h.port_of_end hold (by simpa [Connection.HasEnd, hports, hagents] using hend)
  · obtain ⟨old, hold, hend⟩ := h.end_of_link hp hlink
    by_cases hdc : c = d
    · subst hdc
      refine ⟨{ old with restore }, ?_, hend⟩
      have hold' : net.connections.get? c = some old := hold
      simp [connection?, Arena.get?_modify, hold']
    · refine ⟨old, ?_, hend⟩
      have hold' : net.connections.get? d = some old := hold
      simp [connection?, Arena.get?_modify, hdc, hold']

/-- A fault-free pair of ports may be connected. -/
theorem WellFormed.join (h : net.WellFormed) {a b : PortId} (hab : net.connectFault? a b = none) :
    (net.join a b).2.WellFormed := by
  obtain ⟨hne, hfreeA, hfreeB⟩ := connectFault?_eq_none_iff_isFree.1 hab
  have hnodup := (h.interface_nodup.erase a).erase b
  have hnotA : a ∉ (net.interface.erase a).erase b := fun hmem =>
    h.interface_nodup.not_mem_erase (List.mem_of_mem_erase hmem)
  have hnotB : b ∉ (net.interface.erase a).erase b :=
    (h.interface_nodup.erase a).not_mem_erase
  have hwf : { net with interface := (net.interface.erase a).erase b }.WellFormed :=
    h.withInterface hnodup fun p hp =>
      h.isFree_of_mem_interface (List.mem_of_mem_erase (List.mem_of_mem_erase hp))
  exact (hwf.link hne hfreeA hfreeB hnotA hnotB).withRestore _ _

/-- A known connection may be taken apart. -/
theorem WellFormed.separate (h : net.WellFormed) {c : ConnectionId} {data : Connection}
    (hc : net.connection? c = some data) : (net.separate c data).WellFormed := by
  have hnot₁ : data.ports.1 ∉ net.interface :=
    h.not_mem_interface_of_joined ⟨c, data, hc, .inl rfl⟩
  have hnot₂ : data.ports.2 ∉ net.interface :=
    h.not_mem_interface_of_joined ⟨c, data, hc, .inr rfl⟩
  obtain ⟨hnodup, hmem⟩ := Interface.release_spec h.interface_nodup (h.ends_ne hc) hnot₁ hnot₂
    data.restore
  rw [← interface_unlink net c] at hnodup hmem
  refine (h.unlink c).withInterface hnodup fun p hp => (isFree_unlink h hc).2 ?_
  rcases hmem p hp with hp | hp
  · exact .inl (h.isFree_of_mem_interface (by simpa using hp))
  · exact .inr hp

/-! ### Pairs of ports -/

/-- A port in a list of pairs may be connected when it is free and not used up. -/
theorem pairedPortFault?_eq_none_iff {used : List PortId} {a b p : PortId} :
    net.pairedPortFault? used a b p = none ↔ net.IsFree p ∧ p ∉ used := by
  unfold pairedPortFault? IsFree
  cases net.port? p with
  | none => simp
  | some data => simp [Port.isConnected]

/-- Pairs of ports may be connected one after another when all their ends are different, free and
not used up. -/
theorem pairingFault?_eq_none_iff {pairs : List (PortId × PortId)} {used : List PortId} :
    net.pairingFault? used pairs = none ↔
      (pairEnds pairs).Nodup ∧ ∀ p ∈ pairEnds pairs, net.IsFree p ∧ p ∉ used := by
  induction pairs generalizing used with
  | nil => simp [pairingFault?]
  | cons pair rest ih =>
    obtain ⟨a, b⟩ := pair
    have hsplit : net.pairingFault? used ((a, b) :: rest) = none ↔
        net.pairedPortFault? used a b a = none ∧
          net.pairedPortFault? (a :: used) a b b = none ∧
          net.pairingFault? (b :: a :: used) rest = none := by
      rw [pairingFault?]
      cases net.pairedPortFault? used a b a with
      | some fault => simp
      | none =>
        cases net.pairedPortFault? (a :: used) a b b with
        | some fault => simp
        | none => simp
    rw [hsplit, pairedPortFault?_eq_none_iff, pairedPortFault?_eq_none_iff, ih, pairEnds_cons]
    simp only [List.nodup_cons, List.mem_cons, not_or, forall_eq_or_imp]
    constructor
    · rintro ⟨ha, ⟨hb, hba, hbused⟩, hnodup, hrest⟩
      refine ⟨⟨⟨Ne.symm hba, fun hmem => (hrest a hmem).2.2.1 rfl⟩,
        fun hmem => (hrest b hmem).2.1 rfl, hnodup⟩, ha, ⟨hb, hbused⟩, fun p hp => ?_⟩
      exact ⟨(hrest p hp).1, (hrest p hp).2.2.2⟩
    · rintro ⟨⟨⟨hab, ha⟩, hb, hnodup⟩, hfree, ⟨hfreeB, hbused⟩, hrest⟩
      refine ⟨hfree, ⟨hfreeB, Ne.symm hab, hbused⟩, hnodup, fun p hp => ?_⟩
      refine ⟨(hrest p hp).1, ?_, ?_, (hrest p hp).2⟩
      · rintro rfl
        exact hb hp
      · rintro rfl
        exact ha hp

/-- Pairs of ports whose ends are different and free are all connected. -/
theorem exists_run_connectPairs {pairs : List (PortId × PortId)}
    (hnodup : (pairEnds pairs).Nodup) (hfree : ∀ p ∈ pairEnds pairs, net.IsFree p) :
    ∃ connections after, (connectPairs pairs).run net = (.ok connections, after) := by
  induction pairs generalizing net with
  | nil => exact ⟨[], net, rfl⟩
  | cons pair rest ih =>
    obtain ⟨a, b⟩ := pair
    simp only [pairEnds_cons, List.nodup_cons, List.mem_cons, not_or, forall_eq_or_imp]
      at hnodup hfree
    obtain ⟨⟨hab, ha⟩, hb, hnodup⟩ := hnodup
    obtain ⟨hfreeA, hfreeB, hfree⟩ := hfree
    have hnone := connectFault?_eq_none_iff_isFree.2 ⟨hab, hfreeA, hfreeB⟩
    -- the ends of the other pairs are still free
    have hrest : ∀ p ∈ pairEnds rest, (net.join a b).2.IsFree p := by
      refine fun p hp => isFree_join.2 ⟨hfree p hp, ?_, ?_⟩
      · rintro rfl
        exact ha hp
      · rintro rfl
        exact hb hp
    obtain ⟨connections, after, hrun⟩ := ih hnodup hrest
    refine ⟨(net.join a b).1 :: connections, after, ?_⟩
    rw [connectPairs, run_bind_ok (run_connect_of_none hnone), run_bind_ok hrun, Edit.run_pure]

/-! ### Edits -/

/-- Wiring keeps nets well-formed. -/
theorem followsWiring_wellFormed :
    FollowsWiring fun net after => net.WellFormed → after.WellFormed where
  refl _ h := h
  trans hfirst hsecond h := hsecond (hfirst h)
  join hab h := h.join hab
  separate hc h := h.separate hc

theorem WellFormed.run_connect (h : net.WellFormed) (a b : PortId) :
    ((connect a b).run net).2.WellFormed :=
  followsWiring_wellFormed.connect a b net h

theorem WellFormed.run_connectPairs (h : net.WellFormed) (pairs : List (PortId × PortId)) :
    ((connectPairs pairs).run net).2.WellFormed :=
  followsWiring_wellFormed.connectPairs pairs net h

theorem WellFormed.run_disconnect (h : net.WellFormed) (c : ConnectionId) :
    ((disconnect c).run net).2.WellFormed :=
  followsWiring_wellFormed.disconnect c net h

theorem WellFormed.run_restrictInterface (h : net.WellFormed) (ports : List PortId) :
    ((restrictInterface ports).run net).2.WellFormed := by
  rw [restrictInterface, Edit.run_bind, Edit.run_guard]
  cases net.restrictFault? ports with
  | some fault => exact h
  | none =>
    show { net with interface := ports.foldl List.erase net.interface }.WellFormed
    rw [foldl_erase_eq_filter h.interface_nodup]
    exact h.withInterface (h.interface_nodup.filter _) fun p hp =>
      h.isFree_of_mem_interface (List.mem_of_mem_filter hp)

/-- Ports that may be exposed are free. -/
theorem isFree_of_extendFault? {ports : List PortId} (h : net.extendFault? ports = none) :
    ∀ p ∈ ports, net.IsFree p := by
  induction ports with
  | nil => simp
  | cons q rest ih =>
    rw [extendFault?] at h
    cases hq : net.port? q with
    | none => simp [hq] at h
    | some data =>
      by_cases hdata : data.isConnected
      · simp [hq, hdata] at h
      · simp only [hq, hdata] at h
        intro p hp
        rcases List.mem_cons.1 hp with rfl | hp
        · exact ⟨data, hq, by simpa [Port.isConnected] using hdata⟩
        · exact ih h p hp

theorem WellFormed.run_extendInterface (h : net.WellFormed) (ports : List PortId) :
    ((extendInterface ports).run net).2.WellFormed := by
  rw [extendInterface, Edit.run_bind, Edit.run_guard]
  cases hports : net.extendFault? ports with
  | some fault => exact h
  | none =>
    refine h.withInterface (Interface.nodup_extend h.interface_nodup ports) fun p hp => ?_
    rcases Interface.mem_extend.1 hp with hp | hp
    · exact h.isFree_of_mem_interface hp
    · exact isFree_of_extendFault? hports p hp

/-- A new agent is made, and then its ports are exposed. -/
theorem snd_newAgent (net : Net) (symbol : Symbol) :
    (net.newAgent symbol).2 = { (net.allocAgent symbol).2 with
      interface := Interface.extend net.interface (net.nextPorts symbol) } := by
  rw [← portsOf_nextAgent net symbol, ← fst_allocAgent net symbol]
  rfl

theorem WellFormed.newAgent (h : net.WellFormed) (symbol : Symbol) :
    (net.newAgent symbol).2.WellFormed := by
  rw [snd_newAgent]
  refine (h.allocAgent symbol).withInterface (Interface.nodup_extend h.interface_nodup _)
    fun p hp => ?_
  rcases Interface.mem_extend.1 hp with hp | hp
  · exact (h.isFree_of_mem_interface hp).allocAgent
  · exact isFree_of_mem_nextPorts hp

theorem wellFormed_single (symbol : Symbol) : (single symbol).WellFormed :=
  wellFormed_empty.newAgent symbol

/-- Two agents whose principal ports are connected; their auxiliary ports are exposed. -/
def facing (a b : Symbol) : Net :=
  ((connect 0 a.arity).run ((single a).newAgent b).2).2

theorem wellFormed_facing (a b : Symbol) : (facing a b).WellFormed :=
  ((wellFormed_single a).newAgent b).run_connect 0 a.arity

/-- A symbol with one auxiliary port. -/
def passage : Symbol :=
  ⟨"I", 2⟩

/-- Two pairs of passages, the left agent of the one joined to the right agent of the other. -/
def passages : Net :=
  ((connectPairs [(0, 2), (4, 6), (1, 7)]).run
    ((((single passage).newAgent passage).2.newAgent passage).2.newAgent passage).2).2

theorem wellFormed_passages : passages.WellFormed :=
  ((((wellFormed_single passage).newAgent passage).newAgent passage).newAgent
    passage).run_connectPairs [(0, 2), (4, 6), (1, 7)]

/-! ### Composition -/

section Faults

variable {left right : Net}

theorem sizeFault?_eq_none_iff :
    left.sizeFault? right = none ↔ left.interface.length = right.interface.length := by
  by_cases h : left.interface.length = right.interface.length <;> simp [sizeFault?, h]

theorem pairsFault?_eq_none_iff {used : List PortId} {pairs : List (PortId × PortId)} :
    left.pairsFault? right used pairs = none ↔
      (∀ a ∈ pairs.map Prod.fst, a ∈ left.interface) ∧
        (∀ b ∈ pairs.map Prod.snd, b ∈ right.interface ∧ b ∉ used) ∧
          (pairs.map Prod.snd).Nodup := by
  induction pairs generalizing used with
  | nil => simp [pairsFault?]
  | cons pair rest ih =>
    obtain ⟨a, b⟩ := pair
    rw [pairsFault?]
    by_cases ha : a ∈ left.interface
    · by_cases hb : b ∈ right.interface
      · by_cases hused : b ∈ used
        · simp [ha, hb, hused]
        · -- a later pair must not lead to `b`, which is used up from here on
          simp only [List.contains_eq_mem, ha, hb, hused, decide_true, decide_false, Bool.not_true,
            Bool.false_eq_true, if_false, ih, List.map_cons, List.mem_cons, forall_eq_or_imp,
            List.nodup_cons, true_and, not_false_eq_true, not_or]
          constructor
          · rintro ⟨hfst, hsnd, hnodup⟩
            exact ⟨hfst, fun c hc => ⟨(hsnd c hc).1, (hsnd c hc).2.2⟩,
              fun hmem => (hsnd b hmem).2.1 rfl, hnodup⟩
          · rintro ⟨hfst, hsnd, hnot, hnodup⟩
            refine ⟨hfst, fun c hc => ⟨(hsnd c hc).1, ?_, (hsnd c hc).2⟩, hnodup⟩
            rintro rfl
            exact hnot hc
      · simp [ha, hb]
    · simp [ha]

/-- A map is accepted when its keys are the one interface and its values the other. -/
theorem mappingFault?_eq_none_iff (hright : right.interface.Nodup)
    {mapping : OrderedMap PortId PortId} : left.mappingFault? right mapping = none ↔
      mapping.keys.Perm left.interface ∧ mapping.values.Perm right.interface := by
  have hsplit : left.mappingFault? right mapping = none ↔
      left.interface.length = right.interface.length ∧ mapping.size = left.interface.length ∧
        left.pairsFault? right [] mapping.entries = none := by
    rw [mappingFault?]
    cases hsize : left.sizeFault? right with
    | some fault =>
      refine iff_of_false (by simp) fun ⟨hlength, _⟩ => ?_
      rw [sizeFault?_eq_none_iff.2 hlength] at hsize
      cases hsize
    | none =>
      rw [and_iff_right (sizeFault?_eq_none_iff.1 hsize)]
      by_cases hkeys : mapping.size = left.interface.length <;> simp [hkeys]
  have hkeys : mapping.keys.length = mapping.size := List.length_map _
  have hvalues : mapping.values.length = mapping.size := List.length_map _
  rw [hsplit, pairsFault?_eq_none_iff]
  constructor
  · rintro ⟨hlength, hsize, hfst, hsnd, hnodup⟩
    refine ⟨(mapping.keys_nodup.subperm hfst).perm_of_length_le ?_,
      (hnodup.subperm fun b hb => (hsnd b hb).1).perm_of_length_le ?_⟩
    · exact Nat.le_of_eq (hkeys.trans hsize).symm
    · exact Nat.le_of_eq (hvalues.trans (hsize.trans hlength)).symm
  · rintro ⟨hfst, hsnd⟩
    have hlength := hfst.length_eq
    have hlength' := hsnd.length_eq
    exact ⟨by omega, by omega, fun a ha => hfst.mem_iff.1 ha,
      fun b hb => ⟨hsnd.mem_iff.1 hb, List.not_mem_nil⟩, hsnd.nodup_iff.2 hright⟩

end Faults

theorem WellFormed.inject (h : net.WellFormed) {other : Net} (hother : other.WellFormed)
    (expose : Bool) : (net.inject other expose).2.WellFormed := by
  obtain ⟨copy, hcopy, -⟩ := exists_isCopy_inject hother h expose
  exact hcopy.wellFormed

theorem parallel_eq (net other : Net) : net.parallel other = (net.inject other true).2 := rfl

theorem WellFormed.parallel (h : net.WellFormed) {other : Net} (hother : other.WellFormed) :
    (net.parallel other).WellFormed :=
  h.inject hother true

theorem WellFormed.sequential (h : net.WellFormed) {other : Net} (hother : other.WellFormed)
    {after : Net} (hafter : net.sequential other = .ok after) : after.WellFormed :=
  followsWiring_wellFormed.sequential hafter (h.inject hother true)

theorem WellFormed.compose (h : net.WellFormed) {other : Net} (hother : other.WellFormed)
    {mapping : OrderedMap PortId PortId} {after : Net}
    (hafter : net.compose other mapping = .ok after) : after.WellFormed :=
  followsWiring_wellFormed.compose hafter (h.inject hother true)

end Net

end InteractionNets
