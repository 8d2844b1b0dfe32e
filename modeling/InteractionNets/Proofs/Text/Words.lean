import InteractionNets.Text.Letters

/-!
# Words tell numbers apart

Different numbers have different words (`Letters.ofNat_injective`), and words are over the letters
(`Letters.mem_word`).
-/

namespace InteractionNets.Letters

theorem letter_inj {i j : Nat} (hi : i < 26) (hj : j < 26) (h : letter i = letter j) : i = j := by
  have hall : ∀ i < 26, ∀ j < 26, letter i = letter j → i = j := by decide
  exact hall i hi j hj h

theorem word_injective : Function.Injective word := by
  intro m
  induction m using Nat.strongRecOn with
  | ind m ih =>
    intro n h
    match m, n with
    | 0, n => exact (word_eq_nil_iff.1 (h ▸ word_zero)).symm
    | m + 1, 0 => exact word_eq_nil_iff.1 (h.trans word_zero)
    | m + 1, n + 1 =>
      rw [word_succ, word_succ] at h
      obtain ⟨hfront, hlast⟩ := List.append_inj' h rfl
      have hdiv := ih (m / 26) (Nat.lt_succ_of_le (Nat.div_le_self m 26)) hfront
      have hmod := letter_inj (Nat.mod_lt m (by decide)) (Nat.mod_lt n (by decide))
        (List.cons.inj hlast).1
      rw [← Nat.div_add_mod m 26, ← Nat.div_add_mod n 26, hdiv, hmod]

/-- **Different numbers have different words.** -/
theorem ofNat_injective : Function.Injective ofNat := by
  intro m n h
  exact Nat.succ.inj (word_injective (String.ofList_injective h))

theorem letter_mem {i : Nat} (hi : i < 26) : 'a' ≤ letter i ∧ letter i ≤ 'z' := by
  have hall : ∀ i < 26, 'a' ≤ letter i ∧ letter i ≤ 'z' := by decide
  exact hall i hi

/-- Words are over the letters. -/
theorem mem_word {place : Nat} : ∀ c ∈ word place, 'a' ≤ c ∧ c ≤ 'z' := by
  induction place using Nat.strongRecOn with
  | ind place ih =>
    cases place with
    | zero =>
      rw [word_zero]
      exact List.forall_mem_nil _
    | succ n =>
      rw [word_succ]
      exact List.forall_mem_append.2 ⟨ih _ (Nat.lt_succ_of_le (Nat.div_le_self n 26)),
        List.forall_mem_singleton.2 (letter_mem (Nat.mod_lt n (by decide)))⟩

end InteractionNets.Letters
