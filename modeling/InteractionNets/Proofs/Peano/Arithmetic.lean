import InteractionNets.Proofs.Peano.Chains
import InteractionNets.Proofs.Written.Normal

/-!
# Unary arithmetic

Sums and products are reduced to the nets of numbers, with known numbers of interactions, and the
numbers are read back from the results.
-/

namespace InteractionNets.Peano

open Net

variable {net other : Net} {n root root' : Nat} {cells cells' : List (Cell Nat)}

/-! ### Nets that are numbers -/

namespace IsNumeral

/-- In a number whose root is on the interface, every name occurs twice: as a root, and where the
root is connected. -/
theorem count_eq (h : IsNumeral n root cells) (m : Nat) :
    (wiresOf cells ++ [root]).count m = 2 * (headsOf cells).count m := by
  induction h with
  | zero root =>
    show [root, root].count m = 2 * [root].count m
    rw [List.count_cons, Nat.two_mul, List.count_singleton]
  | @succ root n x cells _ ih =>
    show ([root, x] ++ wiresOf cells ++ [root]).count m = 2 * (root :: headsOf cells).count m
    rw [List.count_append, List.count_singleton] at ih
    simp only [List.count_append, List.count_cons, List.count_nil]
    omega

theorem length_headsOf (h : IsNumeral n root cells) : (headsOf cells).length = n + 1 := by
  induction h with
  | zero root => rfl
  | succ root _ ih => exact congrArg Nat.succ ih

theorem nodup_headsOf (h : IsNumeral n root cells) (hw : net.Written cells [root]) :
    (headsOf cells).Nodup := by
  refine List.nodup_iff_count_le_one.2 fun m => ?_
  have htwice := hw.count_le_two m
  rw [h.count_eq] at htwice
  omega

theorem length_eq (h : IsNumeral n root cells) : cells.length = n + 1 := by
  induction h with
  | zero root => rfl
  | succ root _ ih => exact congrArg Nat.succ ih

/-- Numbers differ in nothing but their names. -/
theorem map_eq (h : IsNumeral n root cells) (h' : IsNumeral n root' cells') {f : Nat → Nat}
    (hf : (headsOf cells).map f = headsOf cells') :
    f root = root' ∧ cells.map (Cell.map f) = cells' := by
  induction h generalizing root' cells' with
  | zero root =>
    cases h'
    obtain ⟨hroot, -⟩ := List.cons.inj hf
    exact ⟨hroot, by rw [List.map_cons, Cell.map, List.map_cons, hroot]; rfl⟩
  | @succ root n x cells _ ih =>
    cases h' with
    | @succ _ _ x' cells' h' =>
      obtain ⟨hroot, hrest⟩ := List.cons.inj hf
      obtain ⟨hx, hcells⟩ := ih h' hrest
      refine ⟨hroot, ?_⟩
      rw [List.map_cons, hcells, Cell.map, List.map_cons, List.map_cons, hroot, hx]
      rfl

end IsNumeral

/-- Nets that are one number are isomorphic. -/
theorem isomorphic_of_isNumeral (hw : net.Written cells [root]) (h : IsNumeral n root cells)
    (hw' : other.Written cells' [root']) (h' : IsNumeral n root' cells') :
    net.Isomorphic other := by
  obtain ⟨f, -, hf⟩ := exists_map_eq (h.nodup_headsOf hw)
    (h.length_headsOf.trans h'.length_headsOf.symm) id
  obtain ⟨hroot, hcells⟩ := h.map_eq h' hf
  have hinj : Set.InjOn f {m | m ∈ wiresOf cells} := by
    have hmem : ∀ m ∈ wiresOf cells, m ∈ headsOf cells := by
      intro m hm
      have hcount := h.count_eq m
      have hpos := List.count_pos_iff.2 hm
      rw [List.count_append] at hcount
      exact List.count_pos_iff.1 (by omega)
    intro m hm m' hm' heq
    exact List.inj_on_of_nodup_map (hf ▸ h'.nodup_headsOf hw') (hmem m hm) (hmem m' hm') heq
  have hrenamed := hw.rename hinj
  rw [hcells, List.map_singleton, hroot] at hrenamed
  exact hrenamed.isomorphic hw'

/-! ### Sums and products -/

/-- A net is made, and an engine without a limit reduces it to a number, on both strategies and with
a known number of interactions. Nothing but the number is left, and it is read back. -/
def Evaluates (rs : RuleSet) (made : Except Fault Net) (steps value : Nat) : Prop :=
  ∃ net number, made = .ok net ∧ nat value = .ok number ∧
    ∀ (strategy : Strategy) (watch : Stopwatch) (spare : Nat), ∃ after,
      ((Engine.mk ⟨none, strategy⟩ ⟨rs, watch⟩).run (steps + spare)).run net =
        (.ok (some ⟨.normalForm, steps⟩), after) ∧
      after.Isomorphic number ∧ after.agents.size = value + 1 ∧ readNat after = some value

/-- Cells that turn into a number are reduced to it. -/
theorem evaluates_of_turns {rs : RuleSet} (hrs : rules = .ok rs) {made : Except Fault Net}
    (hmade : made = .ok net) {steps : Nat} (hw : net.Written cells [root])
    (hturns : rs.Turns steps cells (IsNumeral n root)) : Evaluates rs made steps n := by
  obtain ⟨number, p, hnumber, -, root', cells', hw', h'⟩ := exists_nat n
  obtain ⟨result, hresult, hruns⟩ := Engine.exists_run_of_turns (lawful_of_rules hrs) hw hturns
    fun hresult hnormal => hresult.nodup_headsOf hnormal
  refine ⟨net, number, hmade, hnumber, fun strategy watch spare => ?_⟩
  obtain ⟨after, hrun, hafter⟩ := hruns strategy watch spare
  exact ⟨after, hrun, isomorphic_of_isNumeral hafter hresult hw' h',
    hafter.size_agents.trans hresult.length_eq, readNat_eq hafter hresult⟩

/-- **Unary arithmetic is right.** The net of a sum is reduced to the net of the sum, with as many
interactions as the first number has agents, and the net of a product to the net of the product. -/
theorem evaluates_sum_product : ∃ rs, rules = .ok rs ∧ ∀ a b,
    Evaluates rs (sum a b) (a + 1) (a + b) ∧
      Evaluates rs (product a b) (3 * a + 2 + b + a * b + b * a * (a - 1) / 2) (a * b) := by
  obtain ⟨rs, hrs, -⟩ := exists_rules
  refine ⟨rs, hrs, fun a b => ⟨?_, ?_⟩⟩
  · obtain ⟨net, x, y, r, ps, ys, hmade, hw, ha, hb⟩ := exists_apply (rfl : add.arity = 3) a b
    exact evaluates_of_turns hrs hmade hw (turns_add hrs ha hb r)
  · obtain ⟨net, x, y, r, ps, ys, hmade, hw, ha, hb⟩ := exists_apply (rfl : mul.arity = 3) a b
    exact evaluates_of_turns hrs hmade hw (turns_mul hrs ha hb r)

end InteractionNets.Peano
