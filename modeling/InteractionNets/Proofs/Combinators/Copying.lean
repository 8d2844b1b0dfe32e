import InteractionNets.Proofs.Combinators.Erasing

/-!
# What a duplicator makes of a tree

A duplicator goes down a tree of constructors and erasers, one interaction for each of them. It
leaves two copies of the tree, and a duplicator for each leaf, between the leaf and its two copies
(`Combinators.turns_copyTree`). Nothing is left to interact in the cells of the copies and of the
duplicators (`Combinators.IsCopied.nodup_headsOf`).
-/

namespace InteractionNets.Combinators

open Net RuleSet

variable {net : Net} {rs : RuleSet} {t : Tree} {w x y : Nat} {cells result : List (Cell Nat)}
  {frees : List Nat}

/-- There is no duplicator in the tree. -/
def Tree.IsPlain : Tree → Prop
  | leaf | eraser => True
  | fork k left right => k = .constructor ∧ left.IsPlain ∧ right.IsPlain

/-- Duplicators between some names and two more lists of names: the head of each is the next of the
names, and its other ports are the next of the first and of the second list. -/
inductive Splits : List Nat → List Nat → List Nat → List (Cell Nat) → Prop
  | nil : Splits [] [] [] []
  | cons (w x y : Nat) {ws xs ys : List Nat} {cells : List (Cell Nat)} : Splits ws xs ys cells →
      Splits (w :: ws) (x :: xs) (y :: ys) (⟨delta, [w, x, y]⟩ :: cells)

theorem Splits.append {ws xs ys ws' xs' ys' : List Nat} {cells cells' : List (Cell Nat)}
    (h : Splits ws xs ys cells) (h' : Splits ws' xs' ys' cells') :
    Splits (ws ++ ws') (xs ++ xs') (ys ++ ys') (cells ++ cells') := by
  induction h with
  | nil => exact h'
  | cons w x y _ ih => exact .cons w x y ih

theorem Splits.headsOf_eq {ws xs ys : List Nat} (h : Splits ws xs ys cells) :
    headsOf cells = ws := by
  induction h with
  | nil => rfl
  | cons w x y _ ih => rw [headsOf_cons, ih]; rfl

/-- Some cells are two copies of a tree, with the given names of their roots, and duplicators
between some names and the leaves of the copies. -/
def IsCopied (t : Tree) (x y : Nat) (frees : List Nat) (cells : List (Cell Nat)) : Prop :=
  ∃ first second duplicators ls ls', IsTree t x first ls ∧ IsTree t y second ls' ∧
    Splits frees ls ls' duplicators ∧ cells = first ++ second ++ duplicators

/-! ### Reduction -/

/-- A constructor and a duplicator pass through each other. -/
theorem turns_commute (hrs : rules = .ok rs) (w x y c d : Nat) :
    rs.Turns 1 [⟨delta, [w, c, d]⟩, ⟨gamma, [w, x, y]⟩] fun result => ∃ m n m' n',
      result = [⟨gamma, [c, m, m']⟩, ⟨gamma, [d, n, n']⟩, ⟨delta, [x, m, n]⟩,
        ⟨delta, [y, m', n']⟩] := by
  have hmade : gammaDelta ∈ makers := by simp [makers]
  have hreading : gammaDelta.map Rule.reading = .ok ⟨gamma, delta,
      [⟨delta, [.inl (.left 0), .inr 1, .inr 2]⟩, ⟨delta, [.inl (.left 1), .inr 4, .inr 5]⟩,
        ⟨gamma, [.inl (.right 0), .inr 1, .inr 4]⟩, ⟨gamma, [.inl (.right 1), .inr 2, .inr 5]⟩],
      false⟩ := by
    decide +kernel
  refine ((Turns.of_mapM (lawful_of_rules hrs) (rules_eq ▸ hrs) hmade hreading w [x, y]
    [c, d]).mono ?_).perm (.swap _ _ _)
  rintro _ ⟨fresh, rfl⟩
  exact ⟨_, (List.perm_append_comm : ([_, _] ++ [_, _]).Perm _),
    fresh 1, fresh 2, fresh 4, fresh 5, rfl⟩

/-- Two copies of a constructor stand above the copies of what was below it. -/
theorem IsCopied.fork {left right : Tree} {c d m n m' n' : Nat} {ls rs : List Nat}
    {below below' : List (Cell Nat)} (h : IsCopied left m n ls below)
    (h' : IsCopied right m' n' rs below') : ∃ result,
      (⟨gamma, [c, m, m']⟩ :: ⟨gamma, [d, n, n']⟩ :: (below ++ below')).Perm result ∧
      IsCopied (.fork .constructor left right) c d (ls ++ rs) result := by
  obtain ⟨first, second, duplicators, xs, ys, hfirst, hsecond, hsplits, rfl⟩ := h
  obtain ⟨first', second', duplicators', xs', ys', hfirst', hsecond', hsplits', rfl⟩ := h'
  refine ⟨_, ?_, _, _, _, _, _, .fork .constructor c hfirst hfirst',
    .fork .constructor d hsecond hsecond', hsplits.append hsplits', rfl⟩
  refine List.perm_iff_count.2 fun cell => ?_
  simp only [Fork.symbol, List.cons_append, List.count_cons, List.count_append]
  omega

/-- **A duplicator goes through a tree** of constructors and erasers agent by agent. It leaves
copies of the tree in the places of its two other ports, and is left at the leaves. -/
theorem turns_copyTree (hrs : rules = .ok rs) (ht : t.IsPlain) (h : IsTree t w cells frees)
    (c d : Nat) : rs.Turns t.size (⟨delta, [w, c, d]⟩ :: cells) (IsCopied t c d frees) := by
  induction h generalizing c d with
  | leaf w =>
    exact .refl ⟨[], [], _, [c], [d], .leaf c, .leaf d, .cons w c d .nil, rfl⟩
  | eraser w =>
    refine ((turns_eraseFork hrs .duplicator).perm (.swap _ _ _)).mono ?_
    rintro _ rfl
    exact ⟨_, .refl _, _, _, _, _, _, .eraser c, .eraser d, .nil, rfl⟩
  | @fork k w left right x y xs ys ls rs' _ _ ihl ihr =>
    obtain ⟨rfl, hleft, hright⟩ := ht
    refine (turns_commute hrs w x y c d).step (xs ++ ys) (.refl _) (Nat.add_comm _ 1) ?_
    rintro _ ⟨m, n, m', n', rfl⟩
    -- the two duplicators go on below, and the two constructors stay
    refine (((ihl hleft m n).beside (ihr hright m' n')).frame
      [⟨gamma, [c, m, m']⟩, ⟨gamma, [d, n, n']⟩]).perm ?_ |>.mono ?_
    · refine List.perm_iff_count.2 fun cell => ?_
      simp only [List.cons_append, List.nil_append, List.append_assoc, List.count_cons,
        List.count_append, List.count_nil]
      omega
    · rintro _ ⟨_, ⟨below, below', hbelow, hbelow', rfl⟩, rfl⟩
      obtain ⟨result, hperm, hresult⟩ := hbelow.fork hbelow'
      exact ⟨result, List.perm_append_comm.trans hperm, hresult⟩

/-! ### Normal forms -/

/-- The root of a tree is the head of a cell, and the other heads are auxiliary ports. -/
theorem IsTree.headsOf_subset (h : IsTree t w cells frees) :
    headsOf cells ⊆ w :: auxiliariesOf cells := by
  induction h with
  | leaf w => exact List.nil_subset _
  | eraser w => exact List.Subset.refl [w]
  | fork k w _ _ ihl ihr =>
    intro v hv
    rw [headsOf_cons, headsOf_append] at hv
    rw [auxiliariesOf_cons, auxiliariesOf_append]
    simp only [List.mem_cons, List.mem_append, List.head?_cons, Option.toList_some,
      List.tail_cons, List.not_mem_nil, or_false] at hv ⊢
    -- the root of a tree below is an auxiliary port here
    rcases hv with rfl | hv | hv
    · exact .inl rfl
    · exact .inr ((List.mem_cons.1 (ihl hv)).imp .inl .inl)
    · exact .inr ((List.mem_cons.1 (ihr hv)).imp .inr .inr)

/-- No two cells of copies face each other when the roots and the names that are split are on the
interface. -/
theorem IsCopied.nodup_headsOf {free : List Nat} (h : IsCopied t x y frees cells)
    (hw : net.Written cells free) (hfree : x :: y :: frees ⊆ free) : (headsOf cells).Nodup := by
  obtain ⟨first, second, duplicators, ls, ls', hfirst, hsecond, hsplits, rfl⟩ := h
  refine hw.nodup_headsOf fun v hv => ?_
  rw [headsOf_append, headsOf_append, hsplits.headsOf_eq, List.mem_append, List.mem_append] at hv
  rw [auxiliariesOf_append, auxiliariesOf_append, List.mem_append, List.mem_append, List.mem_append]
  rcases hv with (hv | hv) | hv
  case inr => exact .inr (hfree (List.mem_cons_of_mem x (List.mem_cons_of_mem y hv)))
  case inl.inl =>
    rcases List.mem_cons.1 (hfirst.headsOf_subset hv) with rfl | hv
    · exact .inr (hfree List.mem_cons_self)
    · exact .inl (.inl (.inl hv))
  case inl.inr =>
    rcases List.mem_cons.1 (hsecond.headsOf_subset hv) with rfl | hv
    · exact .inr (hfree (List.mem_cons_of_mem x List.mem_cons_self))
    · exact .inl (.inl (.inr hv))

end InteractionNets.Combinators
