import Mathlib.Data.List.Perm.Subperm
import InteractionNets.Proofs.Lists

/-!
# Paths through slots

Every slot has an edge that leads outward and one that leads inward; an edge comes to a stop at an
end, or goes on to another slot, whose edge of the same kind leads back. So the slots lie on
paths that take outward and inward edges in turn. A path either has two ends or is a loop.

`follow` walks along a path. A walk that starts at an end enters no slot twice: the slots it has
passed have no way back to the current slot but the edge by which it came. So it comes to an end as
soon as it may enter as many slots as there are. Walks from all the ends, each to a slot that was
not passed before, use every end exactly once (`Collects.perm_of_complete`).
-/

namespace InteractionNets

/-- The two ways to leave a slot. -/
inductive Heading where
  | inward
  | outward
deriving DecidableEq, Inhabited

/-- The other way. -/
def Heading.flip : Heading → Heading
  | .inward => .outward
  | .outward => .inward

@[simp] theorem Heading.flip_flip (d : Heading) : d.flip.flip = d := by
  cases d <;> rfl

theorem Heading.flip_ne (d : Heading) : d.flip ≠ d := by
  cases d <;> simp [flip]

theorem Heading.eq_or_eq_flip (d k : Heading) : k = d ∨ k = d.flip := by
  cases d <;> cases k <;> simp [flip]

/-- Where an edge leads: to an end, or to another slot. -/
inductive Turn (σ ε : Type) where
  | stop (stop : ε)
  | go (slot : σ)
deriving DecidableEq

variable {σ ε : Type}

/-- Which turns paths take at slots. -/
abbrev Turns (σ ε : Type) := Heading → σ → Turn σ ε → Prop

/-- Leaving a slot by one of its edges and taking edges in turn leads to an end. -/
inductive Turns.Reaches (turns : Turns σ ε) : Heading → σ → ε → Prop
  | stop {d a e} : turns d a (.stop e) → Reaches turns d a e
  | go {d a b e} : turns d a (.go b) → Reaches turns d.flip b e → Reaches turns d a e

/-- Two ends belong to one path when some slot leads to them by its two edges. -/
def Turns.Path (turns : Turns σ ε) (e f : ε) : Prop :=
  ∃ d a, turns.Reaches d.flip a e ∧ turns.Reaches d a f

theorem Turns.Path.symm {turns : Turns σ ε} {e f : ε} (h : turns.Path e f) : turns.Path f e := by
  obtain ⟨d, a, he, hf⟩ := h
  exact ⟨d.flip, a, by rwa [Heading.flip_flip], he⟩

/-- An end is **single** when one turn at most leads to it. -/
def Turns.Single (turns : Turns σ ε) (e : ε) : Prop :=
  ∀ {d a k b}, turns d a (.stop e) → turns k b (.stop e) → d = k ∧ a = b

/-- Turns are **regular** when no slot has two edges of one kind, and edges between slots lead both
ways and to other slots. -/
structure Turns.Regular (turns : Turns σ ε) : Prop where
  unique : ∀ {d a t u}, turns d a t → turns d a u → t = u
  symm : ∀ {d a b}, turns d a (.go b) → turns d b (.go a)
  ne : ∀ {d a b}, turns d a (.go b) → b ≠ a

/-- Leaving a slot and taking a number of edges in turn leads to another slot that is about to be
left. -/
inductive Turns.Goes (turns : Turns σ ε) : Nat → Heading → σ → Heading → σ → Prop
  | refl (d a) : Goes turns 0 d a d a
  | tail {n d a k b c} : Goes turns n d a k b → turns k b (.go c) → Goes turns (n + 1) d a k.flip c

theorem Turns.Goes.head {turns : Turns σ ε} {n : Nat} {d k : Heading} {a b c : σ}
    (hab : turns d a (.go b)) (h : turns.Goes n d.flip b k c) : turns.Goes (n + 1) d a k c := by
  generalize hd : d.flip = d' at h
  induction h with
  | refl d' b =>
    obtain rfl := hd
    exact .tail (.refl d a) hab
  | tail _ hlast ih => exact .tail (ih hab hd) hlast

theorem Turns.Goes.exists_head {turns : Turns σ ε} {n : Nat} {d k : Heading} {a c : σ}
    (h : turns.Goes (n + 1) d a k c) : ∃ b, turns d a (.go b) ∧ turns.Goes n d.flip b k c := by
  induction n generalizing k c with
  | zero =>
    obtain _ | ⟨hstart, hlast⟩ := h
    cases hstart
    exact ⟨c, hlast, .refl _ _⟩
  | succ n ih =>
    obtain _ | ⟨hfront, hlast⟩ := h
    obtain ⟨b, hab, hb⟩ := ih hfront
    exact ⟨b, hab, .tail hb hlast⟩

theorem Turns.Reaches.exists_goes {turns : Turns σ ε} {d : Heading} {a : σ} {e : ε}
    (h : turns.Reaches d a e) : ∃ n k b, turns.Goes n d a k b ∧ turns k b (.stop e) := by
  induction h with
  | stop ha => exact ⟨0, _, _, .refl _ _, ha⟩
  | go hab _ ih =>
    obtain ⟨n, k, c, hgoes, hstop⟩ := ih
    exact ⟨n + 1, k, c, .head hab hgoes, hstop⟩

/-! ### Where paths lead -/

namespace Turns.Regular

variable {turns : Turns σ ε} (h : turns.Regular)

include h

theorem reaches_unique {d : Heading} {a : σ} {e f : ε} (he : turns.Reaches d a e)
    (hf : turns.Reaches d a f) : e = f := by
  induction he with
  | stop ha =>
    cases hf with
    | stop ha' =>
      cases h.unique ha ha'
      rfl
    | go ha' _ => cases h.unique ha ha'
  | go ha _ ih =>
    cases hf with
    | stop ha' => cases h.unique ha ha'
    | go ha' hf =>
      cases h.unique ha ha'
      exact ih hf

/-- The last slot of a path has its end next to it, and leads to the other end by its other
edge. -/
theorem exists_last {d : Heading} {a : σ} {e f : ε} (he : turns.Reaches d a e)
    (hf : turns.Reaches d.flip a f) : ∃ k b, turns k b (.stop e) ∧ turns.Reaches k.flip b f := by
  induction he with
  | stop ha => exact ⟨_, _, ha, hf⟩
  | go ha _ ih =>
    refine ih ?_
    rw [Heading.flip_flip]
    exact .go (h.symm ha) hf

theorem exists_first {e f : ε} (hpath : turns.Path e f) :
    ∃ d a, turns d a (.stop e) ∧ turns.Reaches d.flip a f := by
  obtain ⟨d, a, he, hf⟩ := hpath
  exact h.exists_last he (by rwa [Heading.flip_flip])

/-- A single end has one opposite end at most. -/
theorem path_unique {e f g : ε} (he : turns.Single e) (hf : turns.Path e f)
    (hg : turns.Path e g) : f = g := by
  obtain ⟨d, a, ha, hf⟩ := h.exists_first hf
  obtain ⟨k, b, hb, hg⟩ := h.exists_first hg
  obtain ⟨rfl, rfl⟩ := he ha hb
  exact h.reaches_unique hf hg

/-- A path does not turn back. -/
theorem not_goes_flip (n : Nat) (d : Heading) (a : σ) : ¬ turns.Goes n d a d.flip a := by
  -- such a path would be the same from both its sides, so it would turn back at its middle
  induction n using Nat.strongRecOn generalizing d a with
  | ind n ih =>
    intro hgoes
    match n with
    | 0 =>
      generalize hd : d.flip = d' at hgoes
      obtain _ | _ := hgoes
      exact d.flip_ne hd
    | 1 =>
      obtain ⟨b, hab, hb⟩ := hgoes.exists_head
      obtain _ | _ := hb
      exact h.ne hab rfl
    | n + 2 =>
      obtain ⟨b, hab, hb⟩ := hgoes.exists_head
      generalize hd : d.flip = d' at hb
      obtain _ | @⟨_, _, _, k, c, _, hmiddle, hlast⟩ := hb
      obtain rfl : d = k := by
        rw [← d.flip_flip, hd, Heading.flip_flip]
      obtain rfl := Turn.go.inj (h.unique (h.symm hlast) hab)
      refine ih n (by omega) d.flip c ?_
      rwa [Heading.flip_flip]

/-- No path leads from a single end back to it. -/
theorem not_path_self {e : ε} (he : turns.Single e) : ¬ turns.Path e e := by
  intro hpath
  obtain ⟨d, a, ha, hreaches⟩ := h.exists_first hpath
  obtain ⟨n, k, b, hgoes, hb⟩ := hreaches.exists_goes
  obtain ⟨rfl, rfl⟩ := he ha hb
  refine h.not_goes_flip n d.flip a ?_
  rwa [Heading.flip_flip]

end Turns.Regular

/-- The two edges of every slot. -/
abbrev Edges (σ ε : Type) := Heading → σ → Option (Turn σ ε)

namespace Edges

variable {edge : Edges σ ε} {slots : List σ}

/-- The turns that edges make. -/
abbrev turns (edge : Edges σ ε) : Turns σ ε :=
  fun d a turn => edge d a = some turn

/-- The given slots have two edges each, and edges between slots lead both ways. -/
structure Lawful (edge : Edges σ ε) (slots : List σ) : Prop where
  isSome_iff : ∀ {d a}, (edge d a).isSome ↔ a ∈ slots
  symm : ∀ {d a b}, edge d a = some (.go b) → edge d b = some (.go a)
  ne : ∀ {d a b}, edge d a = some (.go b) → b ≠ a

theorem Lawful.mem_of_eq_some (h : edge.Lawful slots) {d : Heading} {a : σ} {turn : Turn σ ε}
    (ha : edge d a = some turn) : a ∈ slots :=
  h.isSome_iff.1 (by rw [ha]; rfl)

theorem Lawful.regular (h : edge.Lawful slots) : edge.turns.Regular where
  unique ht hu := Option.some.inj (ht.symm.trans hu)
  symm := h.symm
  ne := h.ne

/-! ### Following a path -/

/-- Follow a path from a slot that is left by one of its edges: the slots passed and the end. The
walk may enter as many slots as the first number says. -/
def follow (edge : Edges σ ε) : Nat → Heading → σ → Option (List σ × ε)
  | 0, _, _ => none
  | fuel + 1, d, a =>
    match edge d a with
    | none => none
    | some (.stop e) => some ([a], e)
    | some (.go b) => (follow edge fuel d.flip b).map fun (trail, e) => (a :: trail, e)

theorem reaches_of_follow {fuel : Nat} {d : Heading} {a : σ} {trail : List σ} {e : ε}
    (h : edge.follow fuel d a = some (trail, e)) : edge.turns.Reaches d a e := by
  induction fuel generalizing d a trail with
  | zero => cases h
  | succ fuel ih =>
    rw [follow] at h
    cases ha : edge d a with
    | none => simp [ha] at h
    | some turn =>
      cases turn with
      | stop f =>
        simp only [ha, Option.some.injEq, Prod.mk.injEq] at h
        exact h.2 ▸ .stop ha
      | go b =>
        simp only [ha, Option.map_eq_some_iff, Prod.mk.injEq] at h
        obtain ⟨⟨rest, f⟩, hrest, -, rfl⟩ := h
        exact .go ha (ih hrest)

/-- The ends next to a slot, one way. -/
def endsAt (edge : Edges σ ε) (d : Heading) (a : σ) : List ε :=
  match edge d a with
  | some (.stop e) => [e]
  | _ => []

/-- The ends next to a slot, both ways. -/
def endsOf (edge : Edges σ ε) (a : σ) : List ε :=
  edge.endsAt .outward a ++ edge.endsAt .inward a

theorem mem_endsOf_iff {a : σ} {e : ε} :
    e ∈ edge.endsOf a ↔ ∃ d, edge d a = some (.stop e) := by
  have hat : ∀ d, e ∈ edge.endsAt d a ↔ edge d a = some (.stop e) := by
    intro d
    unfold endsAt
    split
    · rename_i f hf
      simp [hf, eq_comm]
    · rename_i hnot
      simpa using hnot e
  rw [endsOf, List.mem_append, hat, hat]
  constructor
  · rintro (h | h)
    · exact ⟨_, h⟩
    · exact ⟨_, h⟩
  · rintro ⟨d, h⟩
    cases d
    · exact .inr h
    · exact .inl h

theorem endsOf_perm (edge : Edges σ ε) (d : Heading) (a : σ) :
    (edge.endsOf a).Perm (edge.endsAt d.flip a ++ edge.endsAt d a) := by
  cases d
  · exact .refl _
  · exact List.perm_append_comm

/-- The ends next to the slots of a walk are the one it started from, if it did, and the one it
comes to. -/
theorem perm_of_follow (h : edge.Lawful slots) {fuel : Nat} {d : Heading} {a : σ} {trail : List σ}
    {e : ε} (hfollow : edge.follow fuel d a = some (trail, e)) :
    (trail.flatMap edge.endsOf).Perm (edge.endsAt d.flip a ++ [e]) := by
  induction fuel generalizing d a trail with
  | zero => cases hfollow
  | succ fuel ih =>
    rw [follow] at hfollow
    cases ha : edge d a with
    | none => simp [ha] at hfollow
    | some turn =>
      cases turn with
      | stop f =>
        simp only [ha, Option.some.injEq, Prod.mk.injEq] at hfollow
        obtain ⟨rfl, rfl⟩ := hfollow
        have hstop : edge.endsAt d a = [f] := by simp [endsAt, ha]
        rw [List.flatMap_singleton, ← hstop]
        exact edge.endsOf_perm d a
      | go b =>
        simp only [ha, Option.map_eq_some_iff, Prod.mk.injEq] at hfollow
        obtain ⟨⟨rest, f⟩, hrest, rfl, rfl⟩ := hfollow
        have hgo : edge.endsAt d a = [] := by simp [endsAt, ha]
        have hback : edge.endsAt d.flip.flip b = [] := by
          simp [endsAt, h.symm ha]
        have hends := ih hrest
        rw [hback, List.nil_append] at hends
        have hfirst := edge.endsOf_perm d a
        rw [hgo, List.append_nil] at hfirst
        rw [List.flatMap_cons]
        exact hfirst.append hends

/-- Some slots are **closed** when no edge leads from them to other slots. -/
def Closed (edge : Edges σ ε) (passed : List σ) : Prop :=
  ∀ x ∈ passed, ∀ k y, edge k x = some (.go y) → y ∈ passed

/-- A walk comes to an end within as many slots as there are. The slots passed before it are
closed, except for the edge by which it comes. -/
theorem exists_follow (h : edge.Lawful slots) {fuel : Nat} {d : Heading} {a : σ}
    {passed : List σ} (hfuel : slots.length ≤ fuel + passed.length) (ha : a ∈ slots)
    (hnodup : (a :: passed).Nodup) (hmem : ∀ x ∈ passed, x ∈ slots)
    (hclosed : ∀ x ∈ passed, ∀ k y, edge k x = some (.go y) → y ∈ passed ∨ (y = a ∧ k = d.flip))
    (hback : ∀ y, edge d.flip a = some (.go y) → y ∈ passed) :
    ∃ trail e, edge.follow fuel d a = some (trail, e) ∧ a ∈ trail ∧ (trail ++ passed).Nodup ∧
      (∀ x ∈ trail, x ∈ slots) ∧ edge.Closed (trail ++ passed) := by
  obtain ⟨hnew, hpassed⟩ := List.nodup_cons.1 hnodup
  induction fuel generalizing d a passed with
  | zero =>
    have hle := (List.subperm_of_subset hnodup (List.cons_subset.2 ⟨ha, hmem⟩)).length_le
    rw [List.length_cons] at hle
    omega
  | succ fuel ih =>
    obtain ⟨turn, hturn⟩ := Option.isSome_iff_exists.1 (h.isSome_iff (d := d).2 ha)
    cases turn with
    | stop e =>
      refine ⟨[a], e, by simp [follow, hturn], List.mem_singleton_self a, hnodup, by simpa, ?_⟩
      intro x hx k y hy
      rcases List.mem_cons.1 hx with rfl | hx
      · rcases d.eq_or_eq_flip k with rfl | rfl
        · rw [hturn] at hy
          cases hy
        · exact List.mem_cons_of_mem _ (hback y hy)
      · rcases hclosed x hx k y hy with hy | ⟨rfl, -⟩
        · exact List.mem_cons_of_mem _ hy
        · exact List.mem_cons_self
    | go b =>
      -- the edge to `b` leads back to `a` by the same heading, so `b` was not passed
      have hb : b ∉ a :: passed := by
        intro hb
        rcases List.mem_cons.1 hb with heq | hb
        · exact h.ne hturn heq
        · rcases hclosed b hb d a (h.symm hturn) with hmem | ⟨-, hd⟩
          · exact hnew hmem
          · exact d.flip_ne hd.symm
      obtain ⟨trail, e, hfollow, -, htrail, hslots, hend⟩ :=
        @ih d.flip b (a :: passed) (by rw [List.length_cons]; omega)
          (h.mem_of_eq_some (h.symm hturn)) (List.nodup_cons.2 ⟨hb, hnodup⟩)
          (by simpa [ha] using hmem)
          (by
            intro x hx k y hy
            rw [Heading.flip_flip]
            rcases List.mem_cons.1 hx with rfl | hx
            · rcases d.eq_or_eq_flip k with rfl | rfl
              · rw [hturn] at hy
                cases hy
                exact .inr ⟨rfl, rfl⟩
              · exact .inl (List.mem_cons_of_mem _ (hback y hy))
            · rcases hclosed x hx k y hy with hy | ⟨rfl, -⟩
              · exact .inl (List.mem_cons_of_mem _ hy)
              · exact .inl List.mem_cons_self)
          (by
            intro y hy
            rw [Heading.flip_flip, h.symm hturn] at hy
            cases hy
            exact List.mem_cons_self)
          hb hnodup
      have hperm : (trail ++ a :: passed).Perm (a :: trail ++ passed) := List.perm_middle
      refine ⟨a :: trail, e, by simp [follow, hturn, hfollow], List.mem_cons_self,
        hperm.nodup_iff.1 htrail, ?_, ?_⟩
      · simpa [ha] using hslots
      · intro x hx k y hy
        exact hperm.mem_iff.1 (hend x (hperm.mem_iff.2 hx) k y hy)

/-! ### Collecting paths -/

/-- Slots passed so far and the paths found there, as pairs of ends. -/
structure Collects (edge : Edges σ ε) (slots passed : List σ) (links : List (ε × ε)) : Prop where
  nodup : passed.Nodup
  mem : ∀ x ∈ passed, x ∈ slots
  closed : edge.Closed passed
  /-- The ends next to the passed slots are those of the paths. -/
  perm : (pairEnds links).Perm (passed.flatMap edge.endsOf)
  path : ∀ {e f}, (e, f) ∈ links → edge.turns.Path e f

theorem collects_nil : edge.Collects slots [] [] where
  nodup := List.nodup_nil
  mem := by simp
  closed := by simp [Closed]
  perm := .refl _
  path := by simp

/-- A walk from an end next to a slot that was not passed finds one more path. -/
theorem Collects.exists_follow {passed : List σ} {links : List (ε × ε)}
    (hcollects : edge.Collects slots passed links) (h : edge.Lawful slots) {fuel : Nat}
    (hfuel : slots.length ≤ fuel) {d : Heading} {a : σ} {start : ε} (hnew : a ∉ passed)
    (hstart : edge d.flip a = some (.stop start)) :
    ∃ trail e, edge.follow fuel d a = some (trail, e) ∧ a ∈ trail ∧
      edge.Collects slots (trail ++ passed) (links ++ [(start, e)]) := by
  obtain ⟨trail, e, hfollow, ha, hnodup, hslots, hclosed⟩ :=
    edge.exists_follow h (d := d) (Nat.le_add_right_of_le (k := passed.length) hfuel)
      (h.mem_of_eq_some hstart)
      (List.nodup_cons.2 ⟨hnew, hcollects.nodup⟩) hcollects.mem
      (fun x hx k y hy => .inl (hcollects.closed x hx k y hy))
      (fun y hy => by rw [hstart] at hy; cases hy)
  have hends := perm_of_follow h hfollow
  have hat : edge.endsAt d.flip a = [start] := by simp [endsAt, hstart]
  refine ⟨trail, e, hfollow, ha, hnodup, fun x hx => ?_, hclosed, ?_, fun {f g} hmem => ?_⟩
  · rcases List.mem_append.1 hx with hx | hx
    · exact hslots x hx
    · exact hcollects.mem x hx
  · rw [pairEnds_append, List.flatMap_append]
    rw [hat] at hends
    exact List.perm_append_comm.trans (hends.symm.append hcollects.perm)
  · rcases List.mem_append.1 hmem with hmem | hmem
    · exact hcollects.path hmem
    · cases List.mem_singleton.1 hmem
      exact ⟨d, a, .stop hstart, reaches_of_follow hfollow⟩

/-- When every slot with an end next to it was passed, every end is one of a path. -/
theorem Collects.perm_of_complete {passed : List σ} {links : List (ε × ε)}
    (h : edge.Collects slots passed links) (hslots : slots.Nodup)
    (hcomplete : ∀ d a e, edge d a = some (.stop e) → a ∈ passed) [DecidableEq σ] :
    (pairEnds links).Perm (slots.flatMap edge.endsOf) := by
  have hsplit : slots.Perm (passed ++ slots.filter fun x => x ∉ passed) := by
    rw [List.perm_ext_iff_of_nodup hslots]
    · intro x
      by_cases hx : x ∈ passed
      · simp [hx, h.mem x hx]
      · simp [hx]
    · refine h.nodup.append (hslots.filter _) fun x hx hx' => ?_
      simp_all
  have hrest : (slots.filter fun x => x ∉ passed).flatMap edge.endsOf = [] := by
    rw [List.flatMap_eq_nil_iff]
    intro x hx
    rw [List.eq_nil_iff_forall_not_mem]
    intro e he
    obtain ⟨d, hd⟩ := mem_endsOf_iff.1 he
    have hnot : x ∉ passed := by simpa using (List.mem_filter.1 hx).2
    exact hnot (hcomplete d x e hd)
  refine h.perm.trans ?_
  have hflat := hsplit.flatMap_right edge.endsOf
  rw [List.flatMap_append, hrest, List.append_nil] at hflat
  exact hflat.symm

/-! ### All paths -/

/-- The links are the paths with two ends, each once. -/
structure Links (edge : Edges σ ε) (slots : List σ) (links : List (ε × ε)) : Prop where
  perm : (pairEnds links).Perm (slots.flatMap edge.endsOf)
  path : ∀ {e f}, (e, f) ∈ links → edge.turns.Path e f

/-- The ends of all slots are different, but for those that are not single. -/
private theorem pairwise_endsOf (hslots : slots.Nodup) {nowhere : ε}
    (hsingle : ∀ e, e ≠ nowhere → edge.turns.Single e) :
    (slots.flatMap edge.endsOf).Pairwise fun e f => e = f → e = nowhere := by
  have hmem : ∀ {d a e}, e ∈ edge.endsAt d a → edge d a = some (.stop e) := by
    intro d a e he
    unfold endsAt at he
    split at he
    · rename_i hf
      rw [hf, List.mem_singleton.1 he]
    · cases he
  have hat : ∀ d a, (edge.endsAt d a).Pairwise fun e f => e = f → e = nowhere := by
    intro d a
    unfold endsAt
    split <;> simp
  refine List.pairwise_flatMap.2 ⟨fun a _ => ?_, hslots.imp fun hne e he f hf heq => ?_⟩
  · refine List.pairwise_append.2 ⟨hat _ _, hat _ _, fun e he f hf heq => ?_⟩
    subst heq
    by_contra hnot
    obtain ⟨hd, -⟩ := hsingle e hnot (hmem he) (hmem hf)
    cases hd
  · subst heq
    by_contra hnot
    obtain ⟨d, hd⟩ := mem_endsOf_iff.1 he
    obtain ⟨k, hk⟩ := mem_endsOf_iff.1 hf
    exact hne (hsingle e hnot hd hk).2

end Edges

/-- Links list the paths with two ends, each once; paths may have one end in common only if it
leads nowhere. -/
structure Turns.Matches (turns : Turns σ ε) (nowhere : ε) (links : List (ε × ε)) : Prop where
  path : ∀ {e f}, (e, f) ∈ links → turns.Path e f
  mem : ∀ {e f}, e ≠ nowhere → turns.Path e f → (e, f) ∈ links ∨ (f, e) ∈ links
  nodup : (pairEnds links).Pairwise fun e f => e = f → e = nowhere
  /-- An end that leads somewhere has one opposite end. -/
  unique : ∀ {e f g}, e ≠ nowhere → turns.Path e f → turns.Path e g → f = g
  exists_path : ∀ {d a e}, e ≠ nowhere → turns d a (.stop e) → ∃ f, turns.Path e f
  exists_turn : ∀ {e f}, turns.Path e f → ∃ d a, turns d a (.stop e)

/-- The links found by walking match the turns of the edges. -/
theorem Edges.Links.matches {edge : Edges σ ε} {slots : List σ} {links : List (ε × ε)}
    (hlinks : edge.Links slots links) (h : edge.Lawful slots) (hslots : slots.Nodup) {nowhere : ε}
    (hsingle : ∀ e, e ≠ nowhere → edge.turns.Single e) : edge.turns.Matches nowhere links := by
  have hopposite : ∀ {d a e}, edge d a = some (.stop e) →
      ∃ f, (e, f) ∈ links ∨ (f, e) ∈ links := by
    intro d a e ha
    refine mem_pairEnds.1 (hlinks.perm.mem_iff.2 (List.mem_flatMap.2 ⟨a, ?_, ?_⟩))
    · exact h.mem_of_eq_some ha
    · exact Edges.mem_endsOf_iff.2 ⟨d, ha⟩
  have hpath : ∀ {e f}, (e, f) ∈ links ∨ (f, e) ∈ links → edge.turns.Path e f :=
    fun hef => hef.elim hlinks.path fun hfe => (hlinks.path hfe).symm
  constructor
  case path => exact hlinks.path
  case mem =>
    intro e f he hef
    obtain ⟨d, a, ha, -⟩ := h.regular.exists_first hef
    obtain ⟨g, hg⟩ := hopposite ha
    obtain rfl := h.regular.path_unique (hsingle e he) hef (hpath hg)
    exact hg
  case nodup =>
    refine (hlinks.perm.pairwise_iff ?_).2 (Edges.pairwise_endsOf hslots hsingle)
    intro e f hef heq
    rw [heq]
    exact hef heq.symm
  case unique =>
    intro e f g he hef heg
    exact h.regular.path_unique (hsingle e he) hef heg
  case exists_path =>
    intro d a e _ ha
    obtain ⟨f, hf⟩ := hopposite ha
    exact ⟨f, hpath hf⟩
  case exists_turn =>
    intro e f hef
    obtain ⟨d, a, ha, -⟩ := h.regular.exists_first hef
    exact ⟨d, a, ha⟩

end InteractionNets
