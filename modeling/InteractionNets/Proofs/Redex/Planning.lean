import InteractionNets.Proofs.Net.Lookup
import InteractionNets.Proofs.Redex.Walks
import InteractionNets.Redex.Plan

/-!
# What planning finds

The slots of a pair have the rule's splices as their inward edges and the surroundings as their
outward ones. Planning walks along the paths that these edges form, inward from all slots and then
outward. When the edges are lawful, no walk goes on for ever (`Plan.exists_walks`). A plan's links
are all the paths with two ends, and planning fails only over a path between two places on the
interface (`Plan.make_spec`).
-/

namespace InteractionNets

/-- The turn that a path takes outside the pattern. -/
def Outside.turn : Outside → Turn Slot PathEnd
  | .peer p => .stop (.host p)
  | .free p => .stop (.free p)
  | .hidden => .stop .hidden
  | .slot a => .go a

/-- The turn that a path takes inside the pattern. -/
def Splice.turn : Splice → Turn Slot PathEnd
  | .port p => .stop (.fresh p)
  | .wire a => .go a

theorem Outside.turn_eq_stop_iff {o : Outside} {e : PathEnd} :
    o.turn = .stop e ↔ o.pathEnd? = some e := by
  cases o <;> simp [turn, pathEnd?]

namespace Surroundings

/-- The slots of a pair. -/
def slotList (s : Surroundings) : List Slot :=
  s.slots.map Prod.fst

/-- The edges of the slots of a pair that is replaced by a rule. -/
def edges (s : Surroundings) (rule : Rule) : Edges Slot PathEnd
  | .outward, a => (s.outside? a).map Outside.turn
  | .inward, a => (rule.replacement.splice? a).map Splice.turn

/-- Surroundings **fit** a rule when no slot is listed twice and the edges are lawful. -/
structure Fits (s : Surroundings) (rule : Rule) : Prop where
  nodup : s.slotList.Nodup
  lawful : (s.edges rule).Lawful s.slotList

end Surroundings

namespace Plan

variable {s : Surroundings} {rule : Rule}

/-! ### Walks -/

/-- What a walk gives, as the result of a step of planning. -/
private def walked (s : Surroundings) (rule : Rule) :
    Option (List Slot × PathEnd) → Except Fault (List Slot × PathEnd)
  | some result => .ok result
  | none => .error (mismatch s rule)

private theorem walkIn_eq (fuel : Nat) (a : Slot) :
    walkIn s rule fuel a = walked s rule ((s.edges rule).follow (2 * fuel) .inward a) := by
  induction fuel generalizing a with
  | zero => rfl
  | succ fuel ih =>
    have hfuel : 2 * (fuel + 1) = 2 * fuel + 1 + 1 := by omega
    rw [walkIn, hfuel]
    simp only [Edges.follow, Surroundings.edges, Heading.flip]
    cases rule.replacement.splice? a with
    | none => rfl
    | some splice =>
      cases splice with
      | port port => rfl
      | wire next =>
        simp only [Option.map_some, Splice.turn]
        cases s.outside? next with
        | none => rfl
        | some outside =>
          cases outside with
          | slot further =>
            simp only [Option.map_some, Outside.turn, ih]
            cases (s.edges rule).follow (2 * fuel) .inward further <;> rfl
          | peer port => rfl
          | free port => rfl
          | hidden => rfl

private theorem walkOut_eq (fuel : Nat) (a : Slot) :
    walkOut s rule fuel a = walked s rule ((s.edges rule).follow (2 * fuel) .outward a) := by
  induction fuel generalizing a with
  | zero => rfl
  | succ fuel ih =>
    have hfuel : 2 * (fuel + 1) = 2 * fuel + 1 + 1 := by omega
    rw [walkOut, hfuel]
    simp only [Edges.follow, Surroundings.edges, Heading.flip]
    cases s.outside? a with
    | none => rfl
    | some outside =>
      cases outside with
      | slot next =>
        simp only [Option.map_some, Outside.turn]
        cases rule.replacement.splice? next with
        | none => rfl
        | some splice =>
          cases splice with
          | port port => rfl
          | wire further =>
            simp only [Option.map_some, Splice.turn, ih]
            cases (s.edges rule).follow (2 * fuel) .outward further <;> rfl
      | peer port => rfl
      | free port => rfl
      | hidden => rfl

/-- The walk that leaves a slot by one of its edges. -/
def walk (s : Surroundings) (rule : Rule) : Heading → Nat → Slot → Except Fault (List Slot × PathEnd)
  | .inward => walkIn s rule
  | .outward => walkOut s rule

private theorem walk_eq (d : Heading) (fuel : Nat) (a : Slot) :
    walk s rule d fuel a = walked s rule ((s.edges rule).follow (2 * fuel) d a) := by
  cases d with
  | inward => exact walkIn_eq fuel a
  | outward => exact walkOut_eq fuel a

/-- Planning walks where the edges lead, without coming to the limit. -/
theorem walk_of_runs {enough : Nat} {d : Heading} {w : Walk Slot PathEnd}
    (hw : (s.edges rule).Runs enough d w) {limit : Nat} (hlimit : enough ≤ limit) :
    walk s rule d limit w.first.slot = .ok (w.trail, w.last.stop) := by
  rw [walk_eq, hw.follow (2 * limit) (by omega)]
  rfl

/-! ### Collecting -/

/-- What planning has found when it has made some walks. -/
def found (walks : List (Walk Slot PathEnd)) : Found :=
  (Walk.passed walks, walks.map Walk.link)

/-- What making walks gives, as the result of a step of planning. -/
private def collected (s : Surroundings) (rule : Rule) :
    Option (List (Walk Slot PathEnd)) → Except Fault Found
  | some walks => .ok (found walks)
  | none => .error (mismatch s rule)

private theorem found_concat (walks : List (Walk Slot PathEnd)) (w : Walk Slot PathEnd) :
    found (walks ++ [w]) = (w.trail ++ (found walks).1, (found walks).2 ++ [w.link]) := by
  simp [found, Walk.passed_append]

private theorem length_le (s : Surroundings) : s.slotList.length ≤ 2 * s.slots.length := by
  rw [Surroundings.slotList, List.length_map]
  omega

variable (h : s.Fits rule)

include h

private theorem outward_of_mem {a : Slot} {outside : Outside} (ha : (a, outside) ∈ s.slots) :
    s.edges rule .outward a = some outside.turn := by
  have hlookup : s.outside? a = some outside := (lookup_eq_some_iff_mem h.nodup).2 ha
  simp [Surroundings.edges, hlookup]

/-- The paths from outside are found by walks that go inward. -/
private theorem pathsFromOutside_eq {l : List (Slot × Outside)} (hl : ∀ x ∈ l, x ∈ s.slots)
    (walks : List (Walk Slot PathEnd)) :
    pathsFromOutside s rule l (found walks) = collected s rule
      ((s.edges rule).collect (2 * s.slots.length) .inward (l.map Prod.fst) walks) := by
  induction l generalizing walks with
  | nil => rfl
  | cons entry rest ih =>
    obtain ⟨a, outside⟩ := entry
    have hrest := ih fun x hx => hl x (List.mem_cons_of_mem _ hx)
    have hout := outward_of_mem h (hl _ List.mem_cons_self)
    rw [pathsFromOutside, List.map_cons]
    cases hend : outside.pathEnd? with
    | none =>
      have hnot : ∀ first, (s.edges rule).marked .outward a ≠ some (.stop first) := by
        intro first hfirst
        have hstop := (Edges.marked_eq_stop_iff.1 hfirst).2.2
        rw [hout, Option.some.injEq, Outside.turn_eq_stop_iff, hend] at hstop
        cases hstop
      rw [Edges.collect_of_not_stop hnot]
      exact hrest walks
    | some start =>
      rw [← Outside.turn_eq_stop_iff] at hend
      have hfirst : (s.edges rule).marked .outward a = some (.stop ⟨.outward, a, start⟩) :=
        Edges.marked_eq_stop_iff.2 ⟨rfl, rfl, hout.trans (congrArg some hend)⟩
      by_cases hpassed : a ∈ Walk.passed walks
      · rw [Edges.collect_of_passed hpassed, ← hrest walks]
        simp [found, hpassed]
      · have hcontains : (found walks).1.contains a = false := by simpa [found] using hpassed
        simp only [hcontains, walkIn_eq]
        rw [Edges.follow_marked]
        cases hfollow : (s.edges rule).marked.follow (2 * s.slots.length) .inward a with
        | none => simp [Edges.collect, Heading.flip, hfirst, hpassed, hfollow, walked, collected]
        | some result =>
          obtain ⟨trail, last⟩ := result
          rw [Edges.collect_of_follow hfirst hpassed hfollow, ← hrest, found_concat]
          rfl

/-- The paths between replacement ports are found by walks that go outward. -/
private theorem pathsFromInside_eq {l : List (Slot × Outside)} (hl : ∀ x ∈ l, x ∈ s.slots)
    (walks : List (Walk Slot PathEnd)) :
    pathsFromInside s rule l (found walks) = collected s rule
      ((s.edges rule).collect (2 * s.slots.length) .outward (l.map Prod.fst) walks) := by
  induction l generalizing walks with
  | nil => rfl
  | cons entry rest ih =>
    obtain ⟨a, outside⟩ := entry
    have hrest := ih fun x hx => hl x (List.mem_cons_of_mem _ hx)
    have ha : a ∈ s.slotList := List.mem_map_of_mem (hl _ List.mem_cons_self)
    rw [pathsFromInside, List.map_cons]
    by_cases hpassed : a ∈ Walk.passed walks
    · rw [Edges.collect_of_passed hpassed, ← hrest walks]
      simp [found, hpassed]
    · have hcontains : (found walks).1.contains a = false := by simpa [found] using hpassed
      obtain ⟨turn, hturn⟩ := Option.isSome_iff_exists.1 (h.lawful.isSome_iff (d := .inward).2 ha)
      obtain ⟨splice, hsplice, rfl⟩ := Option.map_eq_some_iff.1 hturn
      cases splice with
      | wire next =>
        have hnot : ∀ first, (s.edges rule).marked .inward a ≠ some (.stop first) := by
          intro first hfirst
          rw [(Edges.marked_eq_stop_iff.1 hfirst).2.2] at hturn
          cases hturn
        rw [Edges.collect_of_not_stop hnot, ← hrest walks]
        simp [hsplice, hpassed, found]
      | port port =>
        have hfirst : (s.edges rule).marked .inward a = some (.stop ⟨.inward, a, .fresh port⟩) :=
          Edges.marked_eq_stop_iff.2 ⟨rfl, rfl, hturn⟩
        simp only [hcontains, hsplice, walkOut_eq]
        rw [Edges.follow_marked]
        cases hfollow : (s.edges rule).marked.follow (2 * s.slots.length) .outward a with
        | none => simp [Edges.collect, Heading.flip, hfirst, hpassed, hfollow, walked, collected]
        | some result =>
          obtain ⟨trail, last⟩ := result
          rw [Edges.collect_of_follow hfirst hpassed hfollow, ← hrest, found_concat]
          rfl

/-- Planning makes walks from one end of a path to the other. As many slots as there are is always
enough for a walk. -/
theorem exists_walks : ∃ outer inner,
    pathsFromOutside s rule s.slots ([], []) = .ok (found outer) ∧
    pathsFromInside s rule s.slots (found outer) = .ok (found (outer ++ inner)) ∧
    (∀ w ∈ outer, (s.edges rule).Runs s.slots.length .inward w) ∧
    (∀ w ∈ inner, (s.edges rule).Runs s.slots.length .outward w ∧ w.last.heading = .inward) ∧
    (s.edges rule).AreWalks s.slotList (outer ++ inner) ∧
    (pairEnds ((outer ++ inner).map Walk.openings)).Perm
      (s.slotList.flatMap (s.edges rule).marked.endsOf) := by
  obtain ⟨outer, inner, houter, hinner, hin, hout, hwalks, hperm⟩ :=
    Edges.exists_walks h.lawful h.nodup (length_le s)
  rw [Surroundings.slotList, List.length_map] at hin hout
  refine ⟨outer, inner, ?_, ?_, hin, hout, hwalks, hperm⟩
  · exact (pathsFromOutside_eq h (fun _ hx => hx) []).trans (congrArg (collected s rule) houter)
  · exact (pathsFromInside_eq h (fun _ hx => hx) outer).trans (congrArg (collected s rule) hinner)

/-- Planning finds the paths with two ends, and is refused only when one of them joins two places
on the interface. -/
theorem make_spec : ∃ links, (s.edges rule).Links s.slotList links ∧
    make s rule = if links.any isFreeWire then .error (.freeWire rule.key)
      else .ok { surroundings := s, links } := by
  obtain ⟨outer, inner, hrun₁, hrun₂, -, -, hwalks, hperm⟩ := exists_walks h
  refine ⟨(outer ++ inner).map Walk.link, hwalks.links hperm, ?_⟩
  simp only [make, hrun₁, hrun₂]
  rfl

end Plan

end InteractionNets
