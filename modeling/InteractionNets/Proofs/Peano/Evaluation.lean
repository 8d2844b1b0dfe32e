import InteractionNets.Proofs.Peano.Arithmetic
import InteractionNets.Proofs.Peano.Building

/-!
# Evaluating expressions

The net of an expression is reduced to the net of its value, with a known number of interactions. It
is enough to look at one order in which active pairs can interact, in which the arguments of an
operator are numbers before the operator is applied; by confluence, the same happens in every other
order, also when arguments are copied or dropped that are not numbers yet.
-/

namespace InteractionNets.Peano

open Net RuleSet

variable {net : Net} {e : Expression} {root : Nat} {cells : List (Cell Nat)} {rs : RuleSet}

/-- What an operator makes of two numbers. -/
theorem Operator.turns (hrs : rules = .ok rs) (o : Operator) {a b p y : Nat}
    {ps ys : List (Cell Nat)} (ha : IsNumeral a p ps) (hb : IsNumeral b y ys) (r : Nat) :
    rs.Turns (o.steps a b) (⟨o.symbol, [p, y, r]⟩ :: (ps ++ ys)) (IsNumeral (o.value a b) r) := by
  cases o with
  | add => exact turns_add hrs ha hb r
  | mul => exact turns_mul hrs ha hb r

/-- The cells of an expression turn into the number that is its value. -/
theorem turns_expression (hrs : rules = .ok rs) (h : IsExpression e root cells) :
    rs.Turns e.steps cells (IsNumeral e.value root) := by
  induction h with
  | numeral hcells => exact .refl hcells
  | @apply o root left right x y xs ys _ _ ihl ihr =>
    refine (ihl.beside ihr).step [⟨o.symbol, [x, y, root]⟩] (List.perm_append_singleton _ _).symm
      (Nat.add_assoc _ _ _).symm ?_
    rintro _ ⟨ps, qs, hps, hqs, rfl⟩
    exact (o.turns hrs hps hqs root).perm (List.perm_append_singleton _ _)

/-- **Unary arithmetic evaluates every expression.** Reducing the net of an expression is never
refused. It ends after a number of interactions that depends on the expression alone, with a net
that is isomorphic to the net of the value. -/
theorem reduce_expression (h : IsNetOf net e) : ∃ rs number, rules = .ok rs ∧
    nat e.value = .ok number ∧ ∀ (watch : Stopwatch) (fuel : Nat), ∃ after,
      ((Reducer.mk rs watch).reduce fuel).run net =
        (.ok (if e.steps ≤ fuel then some ⟨.normalForm, e.steps⟩ else none), after) ∧
      (e.steps ≤ fuel → after.Isomorphic number) := by
  obtain ⟨rs, hrs, -⟩ := exists_rules
  obtain ⟨root, cells, hw, hcells⟩ := h.exists_written
  obtain ⟨number, p, hnumber, -, root', cells', hw', hcells'⟩ := exists_nat e.value
  obtain ⟨normal, result, hresult, hreduces, hnormal⟩ :=
    turns_expression hrs hcells net [] [root] (by rwa [List.append_nil])
  rw [List.append_nil] at hnormal
  have hrules := lawful_of_rules hrs
  have haway := IsAway.of_reduces hrules hw.wellFormed hreduces
    (hnormal.isNormal (hresult.nodup_headsOf hnormal))
  refine ⟨rs, number, hrs, hnumber, fun watch fuel => ?_⟩
  obtain ⟨after, hrun, hleft⟩ := Reducer.exists_reduce (r := ⟨rs, watch⟩) hrules haway fuel
  refine ⟨after, hrun, fun hle => ?_⟩
  rw [Nat.sub_eq_zero_of_le hle] at hleft
  have hafter := hnormal.of_isomorphic hleft.wellFormed hleft.isomorphic
  exact isomorphic_of_isNumeral hafter hresult hw' hcells'

/-- A product with a sum as its second argument. -/
def productOfSum : Expression :=
  .apply .mul (.numeral 1) (.apply .add (.numeral 0) (.numeral 1))

/-- The operators may be made and connected before some of the numbers are there, and the numbers
may be connected in either direction, whether their roots were exposed or hidden. -/
theorem exists_isNetOf_productOfSum : ∃ net, IsNetOf net productOfSum := by
  have hzeroRoot : (numberNet 0).interface = [0] := by decide +kernel
  have honeRoot : (numberNet 1).interface = [1] := by decide +kernel
  have hmul := Built.empty.newAgent .mul (p := 0) (q := 1) (r := 2) rfl
  have hadd := hmul.newAgent .add (p := 3) (q := 4) (r := 5) rfl
  have hone : Built _ (.numeral 1 7 :: _) _ :=
    hadd.inject true (nat_eq 1) honeRoot (by decide +kernel)
  have hsecond := hone.connect (run_connect_of_none (a := 5) (b := 1) (by decide +kernel))
  have hzero : Built _ (.numeral 0 9 :: _) _ :=
    hsecond.inject false (nat_eq 0) hzeroRoot (by decide +kernel)
  have hleft := hzero.connect (run_connect_of_none (a := 9) (b := 3) (by decide +kernel))
  have hfirst := hleft.connect (run_connect_of_none (a := 0) (b := 7) (by decide +kernel))
  have hother : Built _ (.numeral 1 11 :: _) _ :=
    hfirst.inject true (nat_eq 1) honeRoot (by decide +kernel)
  have hlast := hother.connect (run_connect_of_none (a := 4) (b := 11) (by decide +kernel))
  have harranges : Arranges [(4, 11), (0, 7), (9, 3), (5, 1)] productOfSum 2 _ :=
    .apply .mul 2 (p := 0) (q := 1) (by decide) (.numeral 1 7) (by decide)
      (.apply .add 5 (p := 3) (q := 4) (by decide) (.numeral 0 9) (by decide) (.numeral 1 11))
  exact ⟨_, hlast.isNetOf (by decide) harranges (by decide +kernel)⟩

/-- The product of one with the sum of zero and one is one, after eight interactions. -/
theorem reduce_productOfSum : ∃ net, IsNetOf net productOfSum ∧ ∃ rs number,
    rules = .ok rs ∧ nat 1 = .ok number ∧ ∀ (watch : Stopwatch) (fuel : Nat), ∃ after,
      ((Reducer.mk rs watch).reduce fuel).run net =
        (.ok (if 8 ≤ fuel then some ⟨.normalForm, 8⟩ else none), after) ∧
      (8 ≤ fuel → after.Isomorphic number) := by
  have hvalue : productOfSum.value = 1 := by decide
  have hsteps : productOfSum.steps = 8 := by decide
  obtain ⟨net, hnet⟩ := exists_isNetOf_productOfSum
  obtain ⟨rs, number, hrs, hnumber, hall⟩ := reduce_expression hnet
  rw [hvalue] at hnumber
  rw [hsteps] at hall
  exact ⟨net, hnet, rs, number, hrs, hnumber, hall⟩

end InteractionNets.Peano
