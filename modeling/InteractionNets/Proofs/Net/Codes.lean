import Mathlib.Data.List.Sort
import InteractionNets.Net.Shape

/-!
# The order of codes

Tokens are compared by their kinds and then by their fields, so they are in a linear order, and
so are codes, which are compared token by token. Hence the least of some codes and the sorted list
of some codes depend on nothing but which codes there are (`Code.least_congr`,
`Code.mergeSort_congr`).
-/

namespace InteractionNets

open Std

namespace Token

/-! ### Tokens -/

/-- The kind of a token and its fields. Fields that tokens of a kind do not have are all filled
alike. -/
def key : Token → Nat × String × Nat × Nat
  | boundary n position => (0, "", n, position)
  | agent name ports => (1, name, ports, 0)
  | peer n position => (2, "", n, position)
  | free index => (3, "", index, 0)
  | hidden => (4, "", 0, 0)

theorem key_injective : Function.Injective key := by
  intro t t' h
  cases t <;> cases t' <;> simp_all [key]

/-- Compare keys component by component. -/
def compareKey : Nat × String × Nat × Nat → Nat × String × Nat × Nat → Ordering :=
  compareLex (compareOn (·.1)) <| compareLex (compareOn (·.2.1)) <|
    compareLex (compareOn (·.2.2.1)) (compareOn (·.2.2.2))

instance : TransCmp compareKey :=
  inferInstanceAs (TransCmp (compareLex _ _))

instance : LawfulEqCmp compareKey where
  eq_of_compare {a b} h := by
    simp only [compareKey, compareLex_eq_eq, compareOn, LawfulEqOrd.compare_eq_iff_eq] at h
    obtain ⟨hkind, hname, hfirst, hsecond⟩ := h
    exact Prod.ext hkind (Prod.ext hname (Prod.ext hfirst hsecond))

theorem compare_eq_compareKey (t t' : Token) : compare t t' = compareKey t.key t'.key := by
  show instOrdToken.ord t t' = compareKey t.key t'.key
  cases t <;> cases t' <;>
    simp [instOrdToken.ord, key, compareKey, compareLex, compareOn, Nat.compare_eq_ite_lt]

instance : TransOrd Token where
  eq_swap {t t'} := by
    rw [compare_eq_compareKey, compare_eq_compareKey]
    exact OrientedCmp.eq_swap
  isLE_trans {t t' t''} h h' := by
    rw [compare_eq_compareKey] at h h' ⊢
    exact TransCmp.isLE_trans h h'

instance : LawfulEqOrd Token where
  eq_of_compare {t t'} h := by
    rw [compare_eq_compareKey] at h
    exact key_injective (LawfulEqCmp.eq_of_compare h)

end Token

namespace Code

/-! ### Codes -/

theorem order_eq_compareLex (c d : Code) : order c d = List.compareLex compare c d := by
  fun_induction order c d with
  | case1 => rfl
  | case2 => rfl
  | case3 => rfl
  | case4 t c u d ih =>
    rw [List.compareLex_cons_cons, ih]

theorem le_iff {c d : Code} : le c d = true ↔ (List.compareLex compare c d).isLE := by
  rw [le, order_eq_compareLex]
  cases List.compareLex compare c d <;> simp

theorem le_refl (c : Code) : le c c :=
  le_iff.2 ReflCmp.isLE_rfl

theorem le_trans {c d e : Code} (h : le c d) (h' : le d e) : le c e :=
  le_iff.2 (TransCmp.isLE_trans (le_iff.1 h) (le_iff.1 h'))

theorem le_antisymm {c d : Code} (h : le c d) (h' : le d c) : c = d :=
  LawfulEqCmp.eq_of_compare (OrientedCmp.isLE_antisymm (le_iff.1 h) (le_iff.1 h'))

theorem le_total (c d : Code) : le c d || le d c := by
  have hswap : List.compareLex compare d c = (List.compareLex compare c d).swap :=
    OrientedCmp.eq_swap
  rw [Bool.or_eq_true, le_iff, le_iff, hswap]
  cases List.compareLex compare c d <;> simp

/-! ### The least code -/

theorem least_mem {codes : List Code} (h : codes ≠ []) : least codes ∈ codes := by
  induction codes with
  | nil => exact absurd rfl h
  | cons code rest ih =>
    cases rest with
    | nil => exact List.mem_singleton_self code
    | cons other rest =>
      have hrest := ih (List.cons_ne_nil other rest)
      rw [least]
      · split
        · exact List.mem_cons_self
        · exact List.mem_cons_of_mem _ hrest
      · exact List.cons_ne_nil other rest

theorem least_le {codes : List Code} {code : Code} (h : code ∈ codes) : le (least codes) code := by
  induction codes with
  | nil => cases h
  | cons first rest ih =>
    cases rest with
    | nil =>
      rw [List.mem_singleton.1 h]
      exact le_refl first
    | cons other rest =>
      rw [least]
      · split
        · rename_i hle
          rcases List.mem_cons.1 h with rfl | h
          · exact le_refl code
          · exact le_trans hle (ih h)
        · rename_i hle
          rcases List.mem_cons.1 h with rfl | h
          · have htotal := le_total (least (other :: rest)) code
            simpa [hle] using htotal
          · exact ih h
      · exact List.cons_ne_nil other rest

/-- The least code depends on nothing but which codes there are. -/
theorem least_congr {codes codes' : List Code} (h : ∀ code, code ∈ codes ↔ code ∈ codes') :
    least codes = least codes' := by
  by_cases hnil : codes = []
  · subst hnil
    have hnil' : codes' = [] := List.eq_nil_iff_forall_not_mem.2 fun code hcode =>
      List.not_mem_nil ((h code).2 hcode)
    rw [hnil']
  · have hnil' : codes' ≠ [] := fun hnil' => hnil <| List.eq_nil_iff_forall_not_mem.2
      fun code hcode => List.not_mem_nil (hnil' ▸ (h code).1 hcode)
    exact le_antisymm (least_le ((h _).2 (least_mem hnil'))) (least_le ((h _).1 (least_mem hnil)))

/-! ### Sorted codes -/

/-- The sorted list depends on nothing but which codes there are, and how often. -/
theorem mergeSort_congr {codes codes' : List Code} (h : codes.Perm codes') :
    codes.mergeSort le = codes'.mergeSort le := by
  have hsorted : ∀ l : List Code, (l.mergeSort le).Pairwise fun c d => le c d :=
    List.pairwise_mergeSort (fun _ _ _ => le_trans) le_total
  have hperm : (codes.mergeSort le).Perm (codes'.mergeSort le) :=
    ((List.mergeSort_perm codes le).trans h).trans (List.mergeSort_perm codes' le).symm
  exact hperm.eq_of_pairwise (fun _ _ _ _ => le_antisymm) (hsorted codes) (hsorted codes')

end Code

end InteractionNets
