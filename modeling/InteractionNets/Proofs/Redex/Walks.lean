import InteractionNets.Proofs.Redex.Paths

/-!
# Walks from end to end

`Edges.collect` goes through some slots. From each one that has an end next to it by the one edge,
and was not passed before, it leaves by the other edge and follows the path to its other end. Going
first inward and then outward finds every path with two ends, once (`Edges.exists_walks`), and the
walks that go outward find nothing that has an end outside.

Several slots may have the same end next to them: hidden ports are not told apart. So that it can be
said which of them a walk has come to, walks keep every end as an **opening**, with the slot and the
edge where it is. Along **marked** edges, which lead to openings, every end is single.
-/

namespace InteractionNets

/-- An end, with the slot that it is next to and the edge by which that slot leads there. -/
@[ext] structure Opening (σ ε : Type) where
  heading : Heading
  slot : σ
  stop : ε
deriving DecidableEq

/-- A walk from one opening to another, with the slots that it passes. -/
structure Walk (σ ε : Type) where
  first : Opening σ ε
  trail : List σ
  last : Opening σ ε
deriving DecidableEq

variable {σ ε : Type}

namespace Walk

/-- The two openings of a walk. -/
def openings (w : Walk σ ε) : Opening σ ε × Opening σ ε :=
  (w.first, w.last)

/-- The two ends that a walk links. -/
def link (w : Walk σ ε) : ε × ε :=
  (w.first.stop, w.last.stop)

/-- The slots that walks have passed, those of the last walk first. -/
def passed (walks : List (Walk σ ε)) : List σ :=
  walks.reverse.flatMap trail

theorem passed_append (walks more : List (Walk σ ε)) :
    passed (walks ++ more) = passed more ++ passed walks := by
  simp [passed]

@[simp] theorem passed_singleton (w : Walk σ ε) : passed [w] = w.trail := by
  simp [passed]

theorem trail_subset_passed {walks : List (Walk σ ε)} {w : Walk σ ε} (hw : w ∈ walks) :
    w.trail ⊆ passed walks :=
  fun _ ha => List.mem_flatMap.2 ⟨w, List.mem_reverse.2 hw, ha⟩

theorem pairEnds_link (walks : List (Walk σ ε)) :
    pairEnds (walks.map link) = (pairEnds (walks.map openings)).map Opening.stop := by
  simp [pairEnds, List.flatMap_map, List.map_flatMap, link, openings]

end Walk

/-! ### Marked edges -/

/-- The same turn, with an end kept as an opening. -/
def Turn.mark (d : Heading) (a : σ) : Turn σ ε → Turn σ (Opening σ ε)
  | .stop e => .stop ⟨d, a, e⟩
  | .go b => .go b

namespace Edges

variable {edge : Edges σ ε} {slots : List σ}

/-- The same edges, with ends kept as openings. -/
def marked (edge : Edges σ ε) : Edges σ (Opening σ ε) :=
  fun d a => (edge d a).map (Turn.mark d a)

theorem marked_eq_stop_iff {d : Heading} {a : σ} {o : Opening σ ε} :
    edge.marked d a = some (.stop o) ↔
      o.heading = d ∧ o.slot = a ∧ edge d a = some (.stop o.stop) := by
  obtain ⟨k, b, e⟩ := o
  rw [marked, Option.map_eq_some_iff]
  constructor
  · rintro ⟨turn, hturn, hmark⟩
    cases turn with
    | go c => cases hmark
    | stop f =>
      cases hmark
      exact ⟨rfl, rfl, hturn⟩
  · rintro ⟨rfl, rfl, hturn⟩
    exact ⟨_, hturn, rfl⟩

theorem marked_eq_go_iff {d : Heading} {a b : σ} :
    edge.marked d a = some (.go b) ↔ edge d a = some (.go b) := by
  rw [marked, Option.map_eq_some_iff]
  constructor
  · rintro ⟨turn, hturn, hmark⟩
    cases turn with
    | stop e => cases hmark
    | go c =>
      cases hmark
      exact hturn
  · exact fun hturn => ⟨_, hturn, rfl⟩

theorem Lawful.marked (h : edge.Lawful slots) : edge.marked.Lawful slots where
  isSome_iff := by
    intro d a
    rw [Edges.marked, Option.isSome_map]
    exact h.isSome_iff
  symm hab := marked_eq_go_iff.2 (h.symm (marked_eq_go_iff.1 hab))
  ne hab := h.ne (marked_eq_go_iff.1 hab)

theorem mem_endsOf_marked_iff {a : σ} {o : Opening σ ε} :
    o ∈ edge.marked.endsOf a ↔ o.slot = a ∧ edge o.heading a = some (.stop o.stop) := by
  simp only [mem_endsOf_iff, marked_eq_stop_iff]
  constructor
  · rintro ⟨d, rfl, ha⟩
    exact ha
  · exact fun ha => ⟨o.heading, rfl, ha⟩

/-- All openings are different. -/
theorem nodup_openings (hslots : slots.Nodup) :
    (slots.flatMap edge.marked.endsOf).Nodup := by
  have hat : ∀ d a, ∀ o ∈ edge.marked.endsAt d a, o.heading = d := by
    intro d a o ho
    unfold endsAt at ho
    split at ho
    · rename_i e he
      rw [List.mem_singleton.1 ho]
      exact (marked_eq_stop_iff.1 he).1
    · cases ho
  have hone : ∀ d a, (edge.marked.endsAt d a).Nodup := by
    intro d a
    unfold endsAt
    split <;> simp
  refine List.nodup_flatMap.2 ⟨fun a _ => ?_, hslots.imp fun {a b} hab o ha hb => ?_⟩
  · refine (hone _ _).append (hone _ _) fun o ho ho' => ?_
    cases (hat _ _ _ ho).symm.trans (hat _ _ _ ho')
  · exact hab ((mem_endsOf_marked_iff.1 ha).1.symm.trans (mem_endsOf_marked_iff.1 hb).1)

theorem map_stop_endsOf (edge : Edges σ ε) (a : σ) :
    (edge.marked.endsOf a).map Opening.stop = edge.endsOf a := by
  have hat : ∀ d, (edge.marked.endsAt d a).map Opening.stop = edge.endsAt d a := by
    intro d
    unfold endsAt marked
    cases edge d a with
    | none => rfl
    | some turn => cases turn <;> rfl
  rw [endsOf, endsOf, List.map_append, hat, hat]

theorem path_of_marked {o p : Opening σ ε} (h : edge.marked.turns.Path o p) :
    edge.turns.Path o.stop p.stop := by
  have hreaches : ∀ {d a o}, edge.marked.turns.Reaches d a o → edge.turns.Reaches d a o.stop := by
    intro d a o ho
    induction ho with
    | stop ha => exact .stop (marked_eq_stop_iff.1 ha).2.2
    | go ha _ ih => exact .go (marked_eq_go_iff.1 ha) ih
  obtain ⟨d, a, ho, hp⟩ := h
  exact ⟨d, a, hreaches ho, hreaches hp⟩

/-! ### Where walks lead -/

theorem follow_marked (edge : Edges σ ε) (fuel : Nat) (d : Heading) (a : σ) :
    edge.follow fuel d a =
      (edge.marked.follow fuel d a).map fun (trail, o) => (trail, o.stop) := by
  induction fuel generalizing d a with
  | zero => rfl
  | succ fuel ih =>
    rw [follow, follow, marked]
    cases edge d a with
    | none => rfl
    | some turn =>
      cases turn with
      | stop e => rfl
      | go b =>
        simp only [Option.map_some, Turn.mark, ih, Option.map_map]
        rfl

theorem follow_succ_of_stop {fuel : Nat} {d : Heading} {a : σ} {e : ε}
    (ha : edge d a = some (.stop e)) : edge.follow (fuel + 1) d a = some ([a], e) := by
  rw [follow, ha]

theorem follow_succ_of_go {fuel : Nat} {d : Heading} {a b : σ} (ha : edge d a = some (.go b)) :
    edge.follow (fuel + 1) d a =
      (edge.follow fuel d.flip b).map fun (trail, e) => (a :: trail, e) := by
  rw [follow, ha]

/-- A walk that ends does not change when it may enter more slots. -/
theorem follow_of_le {fuel limit : Nat} (hle : fuel ≤ limit) {d : Heading} {a : σ}
    {found : List σ × ε} (h : edge.follow fuel d a = some found) :
    edge.follow limit d a = some found := by
  induction fuel generalizing limit d a found with
  | zero => cases h
  | succ fuel ih =>
    obtain ⟨limit, rfl⟩ := Nat.exists_eq_add_of_le' (Nat.le_trans (Nat.succ_pos fuel) hle)
    cases ha : edge d a with
    | none => simp [follow, ha] at h
    | some turn =>
      cases turn with
      | stop e => rw [follow_succ_of_stop ha] at h ⊢; exact h
      | go b =>
        rw [follow_succ_of_go ha, Option.map_eq_some_iff] at h ⊢
        obtain ⟨rest, hrest, hfound⟩ := h
        exact ⟨rest, ih (Nat.le_of_succ_le_succ hle) hrest, hfound⟩

/-- A walk passes the slot it leaves first, and the slot that its end is next to last. -/
theorem ends_of_follow {fuel : Nat} {d : Heading} {a : σ} {trail : List σ} {o : Opening σ ε}
    (h : edge.marked.follow fuel d a = some (trail, o)) :
    trail.head? = some a ∧ trail.getLast? = some o.slot := by
  induction fuel generalizing d a trail with
  | zero => cases h
  | succ fuel ih =>
    cases ha : edge.marked d a with
    | none => simp [follow, ha] at h
    | some turn =>
      cases turn with
      | stop p =>
        rw [follow_succ_of_stop ha] at h
        obtain ⟨rfl, rfl⟩ := Prod.mk.inj (Option.some.inj h)
        exact ⟨rfl, congrArg some (marked_eq_stop_iff.1 ha).2.1.symm⟩
      | go b =>
        rw [follow_succ_of_go ha, Option.map_eq_some_iff] at h
        obtain ⟨⟨rest, p⟩, hrest, heq⟩ := h
        obtain ⟨rfl, rfl⟩ := Prod.mk.inj heq
        exact ⟨rfl, by rw [List.getLast?_cons, (ih hrest).2]; rfl⟩

/-- A walk **runs** when it goes from the slot of its first opening to that of its last one, and
following the path comes to the same end with every limit that is enough. -/
structure Runs (edge : Edges σ ε) (enough : Nat) (d : Heading) (w : Walk σ ε) : Prop where
  heading : w.first.heading = d.flip
  head? : w.trail.head? = some w.first.slot
  getLast? : w.trail.getLast? = some w.last.slot
  follow : ∀ limit, enough ≤ limit →
    edge.follow limit d w.first.slot = some (w.trail, w.last.stop)

theorem runs_of_follow {fuel : Nat} {d : Heading} {a : σ} {first last : Opening σ ε}
    {trail : List σ} (hfirst : edge.marked d.flip a = some (.stop first))
    (hfollow : edge.marked.follow fuel d a = some (trail, last)) :
    edge.Runs fuel d ⟨first, trail, last⟩ := by
  obtain ⟨hheading, rfl, -⟩ := marked_eq_stop_iff.1 hfirst
  obtain ⟨hhead, hlast⟩ := ends_of_follow hfollow
  refine ⟨hheading, hhead, hlast, fun limit hlimit => follow_of_le hlimit ?_⟩
  rw [follow_marked, hfollow]
  rfl

/-! ### Making walks -/

/-- Walks that lie on different paths, with the slots there passed. -/
abbrev AreWalks (edge : Edges σ ε) (slots : List σ) (walks : List (Walk σ ε)) : Prop :=
  edge.marked.Collects slots (Walk.passed walks) (walks.map Walk.openings)

/-- The ends of walks that pass all slots with an end next to them are the ends of the paths. -/
theorem AreWalks.links {walks : List (Walk σ ε)} (hwalks : edge.AreWalks slots walks)
    (hperm : (pairEnds (walks.map Walk.openings)).Perm (slots.flatMap edge.marked.endsOf)) :
    edge.Links slots (walks.map Walk.link) where
  perm := by
    rw [Walk.pairEnds_link]
    have hstops := hperm.map Opening.stop
    rw [List.map_flatMap] at hstops
    simpa only [map_stop_endsOf] using hstops
  path := by
    intro e f hlink
    obtain ⟨w, hw, heq⟩ := List.mem_map.1 hlink
    obtain ⟨rfl, rfl⟩ := Prod.mk.inj heq
    exact path_of_marked (hwalks.path (List.mem_map_of_mem hw))

variable [DecidableEq σ]

/-- Make a walk from each of some slots that has an end next to it on the other side, unless the
slot was passed before. A walk may enter as many slots as the number says. -/
def collect (edge : Edges σ ε) (fuel : Nat) (d : Heading) :
    List σ → List (Walk σ ε) → Option (List (Walk σ ε))
  | [], walks => some walks
  | a :: rest, walks =>
    match edge.marked d.flip a with
    | some (.stop first) =>
      if a ∈ Walk.passed walks then collect edge fuel d rest walks
      else
        match edge.marked.follow fuel d a with
        | none => none
        | some (trail, last) => collect edge fuel d rest (walks ++ [⟨first, trail, last⟩])
    | _ => collect edge fuel d rest walks

section Collect

variable {fuel : Nat} {d : Heading} {a : σ} {rest : List σ} {walks : List (Walk σ ε)}

theorem collect_of_not_stop (ha : ∀ first, edge.marked d.flip a ≠ some (.stop first)) :
    edge.collect fuel d (a :: rest) walks = edge.collect fuel d rest walks := by
  rw [collect]
  split
  · rename_i first hfirst
    exact absurd hfirst (ha first)
  · rfl

theorem collect_of_passed (ha : a ∈ Walk.passed walks) :
    edge.collect fuel d (a :: rest) walks = edge.collect fuel d rest walks := by
  rw [collect]
  split
  · rw [if_pos ha]
  · rfl

theorem collect_of_follow {first last : Opening σ ε} {trail : List σ}
    (hfirst : edge.marked d.flip a = some (.stop first)) (ha : a ∉ Walk.passed walks)
    (hfollow : edge.marked.follow fuel d a = some (trail, last)) :
    edge.collect fuel d (a :: rest) walks =
      edge.collect fuel d rest (walks ++ [⟨first, trail, last⟩]) := by
  simp only [collect, hfirst, if_neg ha, hfollow]

end Collect

/-- Walks are made from all the slots with an end next to them, and each comes to an end. -/
theorem exists_collect (h : edge.Lawful slots) {fuel : Nat} (hfuel : slots.length ≤ fuel)
    (d : Heading) (l : List σ) {walks : List (Walk σ ε)} (hwalks : edge.AreWalks slots walks) :
    ∃ more, edge.collect fuel d l walks = some (walks ++ more) ∧
      edge.AreWalks slots (walks ++ more) ∧ (∀ w ∈ more, edge.Runs slots.length d w) ∧
      ∀ a ∈ l, ∀ o, edge.marked d.flip a = some (.stop o) → a ∈ Walk.passed (walks ++ more) := by
  induction l generalizing walks with
  | nil => exact ⟨[], by simp [collect], by simpa using hwalks, by simp, by simp⟩
  | cons a rest ih =>
    by_cases hstart : ∃ first, edge.marked d.flip a = some (.stop first)
    · obtain ⟨first, hfirst⟩ := hstart
      by_cases hpassed : a ∈ Walk.passed walks
      · -- the slot is the far end of a walk that was made before
        obtain ⟨more, hrun, hmore, hruns, hall⟩ := ih hwalks
        refine ⟨more, by rw [collect_of_passed hpassed, hrun], hmore, hruns, ?_⟩
        intro b hb o ho
        rcases List.mem_cons.1 hb with rfl | hb
        · rw [Walk.passed_append]
          exact List.mem_append_right _ hpassed
        · exact hall b hb o ho
      · obtain ⟨trail, last, hfollow, ha, hnext⟩ :=
          hwalks.exists_follow h.marked (Nat.le_refl _) hpassed hfirst
        have hlonger : edge.AreWalks slots (walks ++ [⟨first, trail, last⟩]) := by
          simpa [AreWalks, Walk.passed_append, Walk.openings] using hnext
        obtain ⟨more, hrun, hmore, hruns, hall⟩ := ih hlonger
        rw [List.append_assoc] at hrun hmore hall
        refine ⟨⟨first, trail, last⟩ :: more, ?_, hmore, ?_, ?_⟩
        · rw [collect_of_follow hfirst hpassed (follow_of_le hfuel hfollow), hrun]
          rfl
        · intro w hw
          rcases List.mem_cons.1 hw with rfl | hw
          · exact runs_of_follow hfirst hfollow
          · exact hruns w hw
        · intro b hb o ho
          rcases List.mem_cons.1 hb with rfl | hb
          · rw [Walk.passed_append]
            exact List.mem_append_left _ (Walk.trail_subset_passed List.mem_cons_self ha)
          · exact hall b hb o ho
    · obtain ⟨more, hrun, hmore, hruns, hall⟩ := ih hwalks
      have hnot : ∀ first, edge.marked d.flip a ≠ some (.stop first) := not_exists.1 hstart
      refine ⟨more, by rw [collect_of_not_stop hnot, hrun], hmore, hruns, ?_⟩
      intro b hb o ho
      rcases List.mem_cons.1 hb with rfl | hb
      · exact absurd ho (hnot o)
      · exact hall b hb o ho

/-- **Every opening is one of the two of one walk**, when walks are made inward from all slots, and
then outward. The walks made outward come to an end inside: the others have passed all paths with an
end outside. -/
theorem exists_walks (h : edge.Lawful slots) (hslots : slots.Nodup) {fuel : Nat}
    (hfuel : slots.length ≤ fuel) :
    ∃ outer inner, edge.collect fuel .inward slots [] = some outer ∧
      edge.collect fuel .outward slots outer = some (outer ++ inner) ∧
      (∀ w ∈ outer, edge.Runs slots.length .inward w) ∧
      (∀ w ∈ inner, edge.Runs slots.length .outward w ∧ w.last.heading = .inward) ∧
      edge.AreWalks slots (outer ++ inner) ∧
      (pairEnds ((outer ++ inner).map Walk.openings)).Perm
        (slots.flatMap edge.marked.endsOf) := by
  have hnone : edge.AreWalks slots [] := collects_nil
  obtain ⟨outer, hrun₁, hwalks₁, hruns₁, hall₁⟩ := exists_collect h hfuel .inward slots hnone
  rw [List.nil_append] at hrun₁ hwalks₁ hall₁
  obtain ⟨inner, hrun₂, hwalks₂, hruns₂, hall₂⟩ := exists_collect h hfuel .outward slots hwalks₁
  have hperm : (pairEnds ((outer ++ inner).map Walk.openings)).Perm
      (slots.flatMap edge.marked.endsOf) := by
    refine hwalks₂.perm_of_complete hslots fun d a o ho => ?_
    have ha := h.marked.mem_of_eq_some ho
    cases d with
    | inward => exact hall₂ a ha o ho
    | outward =>
      rw [Walk.passed_append]
      exact List.mem_append_right _ (hall₁ a ha o ho)
  refine ⟨outer, inner, hrun₁, hrun₂, hruns₁, fun w hw => ⟨hruns₂ w hw, ?_⟩, hwalks₂, hperm⟩
  rcases Heading.eq_or_eq_flip .inward w.last.heading with hin | hout
  · exact hin
  · -- an opening outside is next to a slot that was passed by the walks made inward
    have hlast : w.last ∈ slots.flatMap edge.marked.endsOf :=
      hperm.mem_iff.1 (mem_pairEnds.2 ⟨w.first, .inr
        (List.mem_map.2 ⟨w, List.mem_append_right _ hw, rfl⟩)⟩)
    obtain ⟨a, ha, ho⟩ := List.mem_flatMap.1 hlast
    obtain ⟨hslot, hstop⟩ := mem_endsOf_marked_iff.1 ho
    rw [hout] at hstop
    have hpassed : w.last.slot ∈ Walk.passed outer :=
      hslot ▸ hall₁ a ha w.last (marked_eq_stop_iff.2 ⟨hout, hslot, hstop⟩)
    have htrail : w.last.slot ∈ Walk.passed inner :=
      Walk.trail_subset_passed hw (List.mem_of_getLast? (hruns₂ w hw).getLast?)
    have hnodup := hwalks₂.nodup
    rw [Walk.passed_append] at hnodup
    exact absurd hpassed ((List.nodup_append'.1 hnodup).2.2 htrail)

end Edges

end InteractionNets
