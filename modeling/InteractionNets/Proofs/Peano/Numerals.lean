import Mathlib.Data.Nat.Choose.Basic
import Mathlib.Tactic.Ring
import InteractionNets.Proofs.Peano.Rules

/-!
# Operators on numbers

A number is written down as a chain of successors on top of a zero. What the operators make of
numbers, and with how many interactions: their arguments are numbers, and the result is a number at
the last name, whatever else there is in the net.
-/

namespace InteractionNets.Peano

open Net

/-- The cells of a number, whose root has a name. -/
inductive IsNumeral : Nat → Nat → List (Cell Nat) → Prop
  | zero (root : Nat) : IsNumeral 0 root [⟨Peano.zero, [root]⟩]
  | succ (root : Nat) {n x : Nat} {cells : List (Cell Nat)} : IsNumeral n x cells →
      IsNumeral (n + 1) root (⟨Peano.succ, [root, x]⟩ :: cells)

variable {n a b root p x y r u v : Nat} {cells ps ys : List (Cell Nat)}

namespace IsNumeral

theorem root_mem (h : IsNumeral n root cells) : root ∈ wiresOf cells := by
  cases h <;> simp

/-- The choice of the names does not matter. -/
theorem map (h : IsNumeral n root cells) (f : Nat → Nat) :
    IsNumeral n (f root) (cells.map (Cell.map f)) := by
  induction h with
  | zero root => exact .zero (f root)
  | succ root _ ih => exact .succ (f root) ih

end IsNumeral

/-! ### What the operators make of numbers -/

/-- The interactions of a multiplication: each agent of the first number takes one, and one more for
each of its successors to add a copy up; the second number is copied or dropped agent by agent, and
the partial products are added agent by agent. -/
def mulSteps (a b : Nat) : Nat :=
  3 * a + 2 + b + a * b + b * a * (a - 1) / 2

theorem mulSteps_zero (b : Nat) : mulSteps 0 b = 1 + (b + 1) := by
  simp only [mulSteps, Nat.mul_zero, Nat.zero_mul, Nat.zero_div]
  ring

theorem mulSteps_succ (a b : Nat) :
    mulSteps (a + 1) b = 1 + (b + 1 + (mulSteps a b + (a * b + 1))) := by
  have hhalf : ∀ a, b * a * (a - 1) / 2 = b * (a * (a - 1) / 2) := fun a => by
    rw [Nat.mul_assoc, Nat.mul_div_assoc b (Nat.even_mul_pred_self a).two_dvd]
  rw [mulSteps, mulSteps, hhalf, hhalf, Nat.triangle_succ]
  ring

variable {rs : RuleSet} (hrs : rules = .ok rs)

include hrs

/-- Addition takes as many interactions as the first number has agents. -/
theorem turns_add (ha : IsNumeral a p ps) (hb : IsNumeral b y ys) (r : Nat) :
    rs.Turns (a + 1) (⟨add, [p, y, r]⟩ :: (ps ++ ys)) (IsNumeral (a + b) r) := by
  induction ha generalizing r with
  | zero p =>
    refine (turns_addZero hrs hb.root_mem).mono ?_
    rintro _ rfl
    have hmapped := hb.map (Function.update id y r)
    rw [Function.update_self] at hmapped
    exact ⟨_, .refl _, by rwa [Nat.zero_add]⟩
  | @succ p a x ps _ ih =>
    refine (turns_addSucc hrs).step (ps ++ ys) (.refl _) (Nat.add_comm (a + 1) 1) ?_
    rintro _ ⟨sum, rfl⟩
    have hrest := ((ih sum).frame [⟨succ, [r, sum]⟩]).perm (List.perm_append_singleton _ _).symm
    refine hrest.mono ?_
    rintro _ ⟨zs, hzs, rfl⟩
    exact ⟨_, List.perm_append_singleton _ zs, by rw [Nat.add_right_comm]; exact .succ r hzs⟩

/-- A number is dropped agent by agent. -/
theorem turns_era (hb : IsNumeral b y ys) : rs.Turns (b + 1) (⟨era, [y]⟩ :: ys) (· = []) := by
  induction hb with
  | zero y => exact turns_eraZero hrs
  | @succ y b x ys _ ih =>
    refine (turns_eraSucc hrs).step ys (.refl _) (Nat.add_comm (b + 1) 1) ?_
    rintro _ rfl
    exact ih

/-- A number is copied agent by agent. -/
theorem turns_dup (hb : IsNumeral b y ys) (u v : Nat) :
    rs.Turns (b + 1) (⟨dup, [y, u, v]⟩ :: ys) fun result =>
      ∃ us vs, IsNumeral b u us ∧ IsNumeral b v vs ∧ result = us ++ vs := by
  induction hb generalizing u v with
  | zero y =>
    refine (turns_dupZero hrs).mono ?_
    rintro _ rfl
    exact ⟨_, .refl _, _, _, .zero u, .zero v, rfl⟩
  | @succ y b x ys _ ih =>
    refine (turns_dupSucc hrs).step ys (.refl _) (Nat.add_comm (b + 1) 1) ?_
    rintro _ ⟨first, second, rfl⟩
    have hrest := ((ih first second).frame [⟨succ, [u, first]⟩, ⟨succ, [v, second]⟩]).perm
      (List.perm_append_comm.cons _)
    refine hrest.mono ?_
    rintro _ ⟨_, ⟨us, vs, hus, hvs, rfl⟩, rfl⟩
    refine ⟨_, ?_, _, _, .succ u hus, .succ v hvs, rfl⟩
    refine List.perm_append_comm.trans ?_
    simp only [List.cons_append, List.nil_append]
    exact List.perm_middle.symm.cons _

/-- Multiplication copies the second number once for each successor of the first one, and adds the
copies up. -/
theorem turns_mul (ha : IsNumeral a p ps) (hb : IsNumeral b y ys) (r : Nat) :
    rs.Turns (mulSteps a b) (⟨mul, [p, y, r]⟩ :: (ps ++ ys)) (IsNumeral (a * b) r) := by
  induction ha generalizing y ys r with
  | zero p =>
    refine (turns_mulZero hrs).step ys (.refl _) (mulSteps_zero b) ?_
    rintro _ rfl
    have hrest := ((turns_era hrs hb).frame [⟨zero, [r]⟩]).perm
      ((List.perm_append_singleton _ _).symm.cons _)
    refine hrest.mono ?_
    rintro _ ⟨_, rfl, rfl⟩
    exact ⟨_, .refl _, by rw [Nat.zero_mul]; exact .zero r⟩
  | @succ p a x ps _ ih =>
    refine (turns_mulSucc hrs).step (ps ++ ys) (.refl _) (mulSteps_succ a b) ?_
    rintro _ ⟨first, second, product, rfl⟩
    refine (turns_dup hrs hb first second).step
      (⟨mul, [x, first, product]⟩ :: ⟨add, [product, second, r]⟩ :: ps) ?_ rfl ?_
    · refine List.perm_iff_count.2 fun cell => ?_
      simp only [List.count_append, List.count_cons, List.cons_append, List.nil_append]
      ring
    rintro _ ⟨us, vs, hus, hvs, rfl⟩
    refine (ih hus product).step (⟨add, [product, second, r]⟩ :: vs) ?_ rfl ?_
    · refine List.perm_iff_count.2 fun cell => ?_
      simp only [List.count_append, List.count_cons, List.cons_append]
      ring
    intro zs hzs
    have hadd := (turns_add hrs hzs hvs r).perm List.perm_middle
    rwa [← Nat.succ_mul] at hadd

end InteractionNets.Peano
