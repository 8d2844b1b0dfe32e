import InteractionNets.Proofs.Net.Edits
import InteractionNets.Proofs.Redex.Commit
import InteractionNets.Systems.Combinators

/-!
# Planning matches all ends

The ends of the paths through a pattern are of two kinds: what a slot is attached to outside, unless
it is another slot, and the replacement ports that slots are bound to. When a rule was accepted and
the surroundings were read in a well-formed net, planning walks from end to end
(`Plan.exists_isMatching`). Every walk comes to its end by itself, no two walks pass one slot, every
end is where exactly one walk starts or stops, and no port is linked to itself.
-/

namespace InteractionNets

open Net

/-- The port that an end is, one of the net or else one of the replacement net. A hidden port is not
named. -/
def PathEnd.named? : PathEnd → Option (PortId ⊕ PortId)
  | .host p => some (.inl p)
  | .free p => some (.inl p)
  | .fresh p => some (.inr p)
  | .hidden => none

theorem PathEnd.named?_eq_none_iff {e : PathEnd} : e.named? = none ↔ e = .hidden := by
  cases e <;> simp [named?]

/-- The slots that are bound to a port are listed with it. -/
theorem Replacement.pair_mem_boundPorts_iff {r : Replacement} {a : Slot} {p : PortId} :
    (a, p) ∈ r.boundPorts ↔ r.splice? a = some (.port p) := by
  rw [splice?_eq_some_iff, boundPorts, List.mem_filterMap]
  constructor
  · rintro ⟨⟨b, splice⟩, hmem, hbound⟩
    cases splice with
    | wire _ => cases hbound
    | port q =>
      cases hbound
      exact hmem
  · exact fun hmem => ⟨_, hmem, rfl⟩

namespace Surroundings

/-- The ends of the paths through a pattern: what slots are attached to outside, unless it is
another slot, and the replacement ports that slots are bound to. -/
def openings (s : Surroundings) (rule : Rule) : List (Opening Slot PathEnd) :=
  (s.slots.filterMap fun entry => entry.2.pathEnd?.map (Opening.mk .outward entry.1)) ++
    rule.replacement.boundPorts.map fun entry => .mk .inward entry.1 (.fresh entry.2)

/-- Walks are a **matching** of the ends of a pattern when every end is where exactly one of them
starts or stops. -/
structure IsMatching (s : Surroundings) (rule : Rule) (walks : List (Walk Slot PathEnd)) :
    Prop where
  /-- No slot is passed twice. -/
  nodup_trails : (walks.flatMap Walk.trail).Nodup
  nodup_openings : (s.openings rule).Nodup
  perm : (pairEnds (walks.map Walk.openings)).Perm (s.openings rule)
  /-- No port is an end of two links. -/
  nodup_named : ((pairEnds (walks.map Walk.link)).filterMap PathEnd.named?).Nodup
  /-- No port is linked to itself. -/
  ne : ∀ w ∈ walks, w.first.stop.named? = w.last.stop.named? →
    w.first.stop = .hidden ∧ w.last.stop = .hidden

/-! ### The ends of a pattern -/

section Openings

variable {s : Surroundings} {rule : Rule}

/-- The ends inside a pattern are listed. -/
private theorem mem_inner_iff {o : Opening Slot PathEnd} :
    o ∈ (rule.replacement.boundPorts.map fun entry =>
        Opening.mk .inward entry.1 (.fresh entry.2)) ↔
      o.heading = .inward ∧ s.edges rule .inward o.slot = some (.stop o.stop) := by
  obtain ⟨d, a, e⟩ := o
  simp only [List.mem_map, Prod.exists, Replacement.pair_mem_boundPorts_iff]
  constructor
  · rintro ⟨b, p, hsplice, heq⟩
    cases heq
    exact ⟨rfl, by simp [edges, hsplice, Splice.turn]⟩
  · rintro ⟨rfl, hturn⟩
    obtain ⟨splice, hsplice, hstop⟩ := Option.map_eq_some_iff.1 hturn
    cases splice with
    | wire _ => cases hstop
    | port p =>
      cases hstop
      exact ⟨a, p, hsplice, rfl⟩

variable (h : s.Fits rule)

include h

/-- The ends outside a pattern are listed. -/
private theorem mem_outer_iff {o : Opening Slot PathEnd} :
    o ∈ (s.slots.filterMap fun entry => entry.2.pathEnd?.map (Opening.mk .outward entry.1)) ↔
      o.heading = .outward ∧ s.edges rule .outward o.slot = some (.stop o.stop) := by
  obtain ⟨d, a, e⟩ := o
  have hlookup : ∀ {b outside}, s.outside? b = some outside ↔ (b, outside) ∈ s.slots :=
    lookup_eq_some_iff_mem h.nodup
  simp only [List.mem_filterMap, Prod.exists, Option.map_eq_some_iff]
  constructor
  · rintro ⟨b, outside, hmem, f, hf, heq⟩
    cases heq
    refine ⟨rfl, ?_⟩
    simp [edges, hlookup.2 hmem, Outside.turn_eq_stop_iff.2 hf]
  · rintro ⟨rfl, hturn⟩
    obtain ⟨outside, houtside, hstop⟩ := Option.map_eq_some_iff.1 hturn
    exact ⟨a, outside, hlookup.1 houtside, e, Outside.turn_eq_stop_iff.1 hstop, rfl⟩

theorem mem_openings_iff {o : Opening Slot PathEnd} :
    o ∈ s.openings rule ↔ s.edges rule o.heading o.slot = some (.stop o.stop) := by
  rw [openings, List.mem_append, mem_outer_iff h, mem_inner_iff (s := s)]
  obtain ⟨d, a, e⟩ := o
  cases d <;> simp

/-- The ends of the paths are all different. -/
theorem nodup_openings : (s.openings rule).Nodup := by
  have hkeys : rule.replacement.boundPorts.Pairwise fun x y => x.1 ≠ y.1 := by
    refine List.pairwise_filterMap.2 ((List.pairwise_map.1
      rule.replacement.splices.keys_nodup).imp fun {x y} hne b hb c hc => ?_)
    obtain ⟨x, splice⟩ := x
    obtain ⟨y, splice'⟩ := y
    cases splice <;> cases splice' <;> cases hb <;> cases hc
    exact hne
  have houter : (s.slots.filterMap fun entry =>
      entry.2.pathEnd?.map (Opening.mk .outward entry.1)).Nodup := by
    refine List.pairwise_filterMap.2 ((List.pairwise_map.1 h.nodup).imp
      fun {x y} hne o ho p hp hop => hne ?_)
    obtain ⟨e, -, rfl⟩ := Option.map_eq_some_iff.1 ho
    obtain ⟨f, -, rfl⟩ := Option.map_eq_some_iff.1 hp
    exact congrArg Opening.slot hop
  have hinner : (rule.replacement.boundPorts.map fun entry =>
      Opening.mk .inward entry.1 (PathEnd.fresh entry.2)).Nodup :=
    List.pairwise_map.2 (hkeys.imp fun hne hop => hne (congrArg Opening.slot hop))
  refine houter.append hinner fun o ho ho' => ?_
  have hout := ((mem_outer_iff h).1 ho).1
  rw [((mem_inner_iff (s := s)).1 ho').1] at hout
  cases hout

/-- The ends next to the slots are the ends of the pattern. -/
theorem perm_openings :
    (s.slotList.flatMap (s.edges rule).marked.endsOf).Perm (s.openings rule) := by
  rw [List.perm_ext_iff_of_nodup (Edges.nodup_openings h.nodup) (nodup_openings h)]
  intro o
  rw [mem_openings_iff h, List.mem_flatMap]
  constructor
  · rintro ⟨a, -, ho⟩
    obtain ⟨rfl, hturn⟩ := Edges.mem_endsOf_marked_iff.1 ho
    exact hturn
  · intro hturn
    exact ⟨o.slot, h.lawful.mem_of_eq_some hturn, Edges.mem_endsOf_marked_iff.2 ⟨rfl, hturn⟩⟩

end Openings

end Surroundings

/-! ### Ports that are ends -/

namespace Net

variable {net : Net} {rule : Rule} {agents : Side → AgentId}

/-- A port that a slot is joined to is not on the agents of a redex, and the port of a slot is. -/
theorem not_host_of_free {d k : Heading} {a b : Slot} {p : PortId}
    (ha : net.turns rule agents d a (.stop (.host p))) :
    ¬ net.turns rule agents k b (.stop (.free p)) := by
  intro hb
  cases d with
  | inward => cases ha
  | outward =>
    cases k with
    | inward => cases hb
    | outward =>
      cases ha with
      | peer _ _ hother =>
        cases hb with
        | free hslot _ => exact hother b.side (List.mem_of_getElem? hslot)

/-- Ends that are one port are one end. -/
theorem eq_of_named? {d k : Heading} {a b : Slot} {e f : PathEnd}
    (ha : net.turns rule agents d a (.stop e)) (hb : net.turns rule agents k b (.stop f))
    (hef : e.named? = f.named?) : e = f := by
  have hhost : ∀ {p}, e = .host p → f = .free p → False := by
    rintro p rfl rfl
    exact not_host_of_free ha hb
  have hfree : ∀ {p}, e = .free p → f = .host p → False := by
    rintro p rfl rfl
    exact not_host_of_free hb ha
  cases e <;> cases f <;> simp_all [PathEnd.named?]

end Net

namespace Surroundings

variable {net : Net} {rule : Rule} {pair : ActivePair} {s : Surroundings} {sides : Side × Side}
  (h : net.WellFormed) (hv : rule.Valid) (hs : s.Describes net rule pair sides)

include h hv hs

/-- No port is two ends of a pattern. -/
theorem openings_eq_of_named? {o p : Opening Slot PathEnd} (ho : o ∈ s.openings rule)
    (hp : p ∈ s.openings rule) {port : PortId ⊕ PortId} (hport : o.stop.named? = some port)
    (hport' : p.stop.named? = some port) : o = p := by
  have hturn : ∀ {o}, o ∈ s.openings rule →
      net.turns rule (pair.agentOn sides) o.heading o.slot (.stop o.stop) := by
    intro o ho
    rw [← hs.turns_eq]
    exact (mem_openings_iff hs.fits).1 ho
  have hstop := eq_of_named? (hturn ho) (hturn hp) (hport.trans hport'.symm)
  have hne : o.stop ≠ .hidden := by
    intro hhidden
    rw [hhidden] at hport
    cases hport
  obtain ⟨hheading, hslot⟩ :=
    hs.isRedexOf.isRedex.single h hv o.stop hne (hturn ho) (hstop ▸ hturn hp)
  exact Opening.ext hheading hslot hstop

/-- Walks that have all ends of a pattern once are a matching. -/
theorem isMatching_of_perm {walks : List (Walk Slot PathEnd)}
    (hwalks : (s.edges rule).AreWalks s.slotList walks)
    (hperm : (pairEnds (walks.map Walk.openings)).Perm
      (s.slotList.flatMap (s.edges rule).marked.endsOf)) : s.IsMatching rule walks := by
  have hall := hperm.trans (perm_openings hs.fits)
  have hnodup := nodup_openings hs.fits
  have hnamed : ((pairEnds (walks.map Walk.link)).filterMap PathEnd.named?).Nodup := by
    rw [Walk.pairEnds_link, List.filterMap_map]
    refine (hall.filterMap _).nodup_iff.2 (List.pairwise_filterMap.2 (hnodup.imp_of_mem ?_))
    rintro o p ho hp hop port hport port' hport' rfl
    exact hop (openings_eq_of_named? h hv hs ho hp hport hport')
  constructor
  case nodup_trails => exact ((List.reverse_perm walks).flatMap_right _).nodup_iff.1 hwalks.nodup
  case nodup_openings => exact hnodup
  case perm => exact hall
  case nodup_named => exact hnamed
  case ne =>
    intro w hw heq
    cases hport : w.first.stop.named? with
    | none =>
      rw [hport] at heq
      exact ⟨PathEnd.named?_eq_none_iff.1 hport, PathEnd.named?_eq_none_iff.1 heq.symm⟩
    | some port =>
      -- otherwise the port would be listed twice
      have htwice : [w.first.stop, w.last.stop].Sublist (pairEnds (walks.map Walk.link)) := by
        rw [pairEnds, List.flatMap_def]
        exact List.sublist_flatten_of_mem (List.mem_map_of_mem (List.mem_map_of_mem hw))
      have hlist := (htwice.filterMap PathEnd.named?).nodup hnamed
      simp [hport, ← heq] at hlist

end Surroundings

/-! ### Planning -/

namespace Plan

/-- A walk of planning **ends by itself**: with any limit of at least the number of slots, it is the
same walk. -/
structure EndsByItself (s : Surroundings) (rule : Rule) (d : Heading) (w : Walk Slot PathEnd) :
    Prop where
  heading : w.first.heading = d.flip
  head? : w.trail.head? = some w.first.slot
  getLast? : w.trail.getLast? = some w.last.slot
  walk_eq : ∀ limit, s.slots.length ≤ limit →
    walk s rule d limit w.first.slot = .ok (w.trail, w.last.stop)

theorem endsByItself_of_runs {s : Surroundings} {rule : Rule} {d : Heading}
    {w : Walk Slot PathEnd} (hw : (s.edges rule).Runs s.slots.length d w) :
    EndsByItself s rule d w :=
  ⟨hw.heading, hw.head?, hw.getLast?, fun _ hlimit => walk_of_runs hw hlimit⟩

/-- **The walks of planning end, and use every end once.** Let the surroundings of a pair be read in
a well-formed net, for a rule that was accepted. Then every walk that planning makes ends by itself,
those that start outside as well as those that start at a replacement port; the latter also stop at
one. No slot is passed twice over all the walks, and the links made are a matching of all the ends
of the pattern. -/
theorem exists_isMatching {net : Net} {rule : Rule} {pair : ActivePair} {s : Surroundings}
    (hrule : rule.Accepted) (h : net.WellFormed) (hread : Surroundings.read net pair rule = .ok s) :
    ∃ outer inner,
      pathsFromOutside s rule s.slots ([], []) = .ok (found outer) ∧
      pathsFromInside s rule s.slots (found outer) = .ok (found (outer ++ inner)) ∧
      (∀ w ∈ outer, EndsByItself s rule .inward w) ∧
      (∀ w ∈ inner, EndsByItself s rule .outward w ∧ w.last.heading = .inward) ∧
      s.IsMatching rule (outer ++ inner) ∧
      make s rule = if ((outer ++ inner).map Walk.link).any isFreeWire
        then .error (.freeWire rule.key)
        else .ok { surroundings := s, links := (outer ++ inner).map Walk.link } := by
  obtain ⟨sides, hs⟩ := Surroundings.describes_of_read h hrule.valid hread
  obtain ⟨outer, inner, houter, hinner, hin, hout, hwalks, hperm⟩ := exists_walks hs.fits
  refine ⟨outer, inner, houter, hinner, fun w hw => endsByItself_of_runs (hin w hw),
    fun w hw => ⟨endsByItself_of_runs (hout w hw).1, (hout w hw).2⟩,
    Surroundings.isMatching_of_perm h hrule.valid hs hwalks hperm, ?_⟩
  simp only [make, houter, hinner]
  rfl

/-- Two constructors that face each other and have their first auxiliary ports joined, too. -/
def handshake : Net :=
  ((connect 1 4).run (facing Combinators.gamma Combinators.gamma)).2

/-- The pair in `handshake`. -/
def handshakePair : ActivePair :=
  ⟨0, 0, 1, 0, 3, Combinators.gamma, Combinators.gamma⟩

/-- What is read of `handshake`. -/
def handshakeSurroundings : Surroundings where
  pair := handshakePair
  slots := [(.left 0, .slot (.right 0)), (.left 1, .free 2), (.right 0, .slot (.left 0)),
    (.right 1, .free 5)]

/-- Four erasers. -/
def fourErasers : Net :=
  ((((single Combinators.epsilon).newAgent Combinators.epsilon).2.newAgent
    Combinators.epsilon).2.newAgent Combinators.epsilon).2

/-- The rule by which two constructors leave an eraser at each slot. -/
def quenching : Rule :=
  ⟨Combinators.gamma, Combinators.gamma,
    ((((Replacement.ofNet fourErasers).bind (.left 0) 0).bind (.right 0) 1).bind (.left 1) 2).bind
      (.right 1) 3⟩

theorem accepted_quenching : quenching.Accepted := by
  have hwf : fourErasers.WellFormed :=
    (((wellFormed_single Combinators.epsilon).newAgent Combinators.epsilon).newAgent
      Combinators.epsilon).newAgent Combinators.epsilon
  exact ⟨Combinators.gamma, Combinators.gamma, quenching.replacement, hwf, by decide +kernel⟩

/-- Two walks start at the places on the interface, and one goes through the joined slots from one
replacement port to another. -/
theorem exists_isMatching_handshake :
    Surroundings.read handshake handshakePair quenching = .ok handshakeSurroundings ∧
      ∃ outer inner,
        pathsFromOutside handshakeSurroundings quenching handshakeSurroundings.slots ([], []) =
          .ok (found outer) ∧
        pathsFromInside handshakeSurroundings quenching handshakeSurroundings.slots
          (found outer) = .ok (found (outer ++ inner)) ∧
        handshakeSurroundings.IsMatching quenching (outer ++ inner) ∧
        (outer ++ inner).map Walk.link =
          [(.free 2, .fresh 2), (.free 5, .fresh 3), (.fresh 0, .fresh 1)] := by
  have hwf : handshake.WellFormed :=
    (wellFormed_facing Combinators.gamma Combinators.gamma).run_connect 1 4
  have hread : Surroundings.read handshake handshakePair quenching = .ok handshakeSurroundings := by
    decide +kernel
  obtain ⟨outer, inner, houter, hinner, -, -, hmatching, hmake⟩ :=
    exists_isMatching accepted_quenching hwf hread
  have hplan : make handshakeSurroundings quenching = .ok ⟨handshakeSurroundings,
      [(.free 2, .fresh 2), (.free 5, .fresh 3), (.fresh 0, .fresh 1)]⟩ := by
    decide +kernel
  refine ⟨hread, outer, inner, houter, hinner, hmatching, ?_⟩
  rw [hmake] at hplan
  split at hplan
  · cases hplan
  · exact congrArg Plan.links (Except.ok.inj hplan)

end Plan

end InteractionNets
