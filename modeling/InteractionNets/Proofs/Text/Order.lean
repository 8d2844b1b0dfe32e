import Mathlib.Data.List.Induction
import Mathlib.Data.List.Shortlex
import Mathlib.Data.Set.Card
import InteractionNets.Proofs.Text.Words
import InteractionNets.Text.Spelling

/-!
# The order of the names

Names are the words over the letters, without the empty one. The shorter names come first and names
of one length come in alphabetical order (`Letters.Precedes`), which is the order of the numbers that
they name (`Letters.precedes_iff`), and every name names a number (`Letters.exists_ofNat`). So a name
names its rank, the number of the names before it (`Letters.rank_ofNat`), and the names that are
written in machine words are those of the first 2⁶⁴ − 1 ranks (`Letters.names_enumerate`).
-/

namespace InteractionNets.Letters

variable {s t : String} {k m i j : Nat}

/-! ### Letters -/

theorem letter_lt (hi : i < j) (hj : j < 26) : letter i < letter j := by
  have hall : ∀ j < 26, ∀ i < j, letter i < letter j := by decide
  exact hall j hj i hi

theorem exists_letter {c : Char} (h : 'a' ≤ c ∧ c ≤ 'z') : ∃ i < 26, letter i = c := by
  have hlow : 97 ≤ c.toNat := h.1
  have hhigh : c.toNat ≤ 122 := h.2
  refine ⟨c.toNat - 97, by omega, ?_⟩
  have hsum : 'a'.toNat + (c.toNat - 97) = c.toNat := Nat.add_sub_cancel' hlow
  rw [letter, hsum, Char.ofNat_toNat]

/-! ### Words -/

/-- Two words of one length that are in order stay so when something is put behind them. -/
theorem lex_append {v w : List Char} (h : List.Lex (· < ·) v w) (hlength : v.length = w.length)
    (v' w' : List Char) : List.Lex (· < ·) (v ++ v') (w ++ w') := by
  induction h with
  | nil => simp at hlength
  | rel hlt => exact .rel hlt
  | cons _ ih => exact .cons (ih (Nat.succ.inj hlength))

theorem shortlex_concat {v w : List Char} (h : List.Shortlex (· < ·) v w) (c d : Char) :
    List.Shortlex (· < ·) (v ++ [c]) (w ++ [d]) := by
  rcases List.shortlex_def.1 h with hshorter | ⟨hlength, hlex⟩
  · exact .of_length_lt (by simpa using hshorter)
  · exact .of_lex (by simpa using hlength) (lex_append hlex hlength [c] [d])

/-- Words come in the order of their places: the order of the letters before the last ones decides,
and the last ones if these are the same. -/
theorem shortlex_word (h : i < j) : List.Shortlex (· < ·) (word i) (word j) := by
  induction j using Nat.strongRecOn generalizing i with
  | ind j ih =>
    obtain ⟨n, rfl⟩ : ∃ n, j = n + 1 := ⟨j - 1, by omega⟩
    rw [word_succ]
    obtain _ | l := i
    · rw [word_zero]
      exact .of_length_lt (by simp)
    · rw [word_succ]
      have hln : l < n := Nat.lt_of_succ_lt_succ h
      have hle : l / 26 ≤ n / 26 := Nat.div_le_div_right (Nat.le_of_lt hln)
      rcases Nat.lt_or_eq_of_le hle with hlt | heq
      · exact shortlex_concat (ih _ (by omega) hlt) _ _
      · have hmod : l % 26 < n % 26 := by omega
        rw [heq]
        exact .append_left ((List.shortlex_singleton_iff _ _).2
          (letter_lt hmod (Nat.mod_lt n (by decide)))) _

/-- Every word over the letters has a place. -/
theorem exists_word (w : List Char) (hw : ∀ c ∈ w, 'a' ≤ c ∧ c ≤ 'z') : ∃ i, word i = w := by
  induction w using List.reverseRecOn with
  | nil => exact ⟨0, word_zero⟩
  | append_singleton front c ih =>
    obtain ⟨i, rfl⟩ := ih fun d hd => hw d (List.mem_append_left _ hd)
    obtain ⟨l, hl, rfl⟩ := exists_letter (hw c List.mem_concat_self)
    have hdiv : (26 * i + l) / 26 = i := by omega
    have hmod : (26 * i + l) % 26 = l := by omega
    exact ⟨26 * i + l + 1, by rw [word_succ, hdiv, hmod]⟩

/-! ### Names -/

/-- A **name** is a word over the letters that is not empty. -/
def IsName (s : String) : Prop :=
  s ≠ "" ∧ ∀ c ∈ s.toList, 'a' ≤ c ∧ c ≤ 'z'

/-- A name **precedes** the longer ones, and those of the same length that are alphabetically
behind it. -/
def Precedes (s t : String) : Prop :=
  s.length < t.length ∨ (s.length = t.length ∧ s < t)

/-- The names before a name. -/
def before (t : String) : Set String :=
  {s | IsName s ∧ Precedes s t}

/-- The **rank** of a name is the number of names before it. -/
noncomputable def rank (t : String) : Nat :=
  (before t).ncard

theorem precedes_iff_shortlex :
    Precedes s t ↔ List.Shortlex (· < ·) s.toList t.toList := by
  rw [List.shortlex_def, Precedes, String.length_toList, String.length_toList]
  exact Iff.rfl

theorem Precedes.asymm (h : Precedes s t) : ¬ Precedes t s := by
  rintro (hlonger | ⟨hlength, hlt⟩)
  · rcases h with hshorter | ⟨hlength, -⟩ <;> omega
  · rcases h with hshorter | ⟨-, hlt'⟩
    · omega
    · exact String.lt_asymm hlt hlt'

theorem isName_ofNat (k : Nat) : IsName (ofNat k) := by
  refine ⟨fun hempty => ?_, fun c hc => ?_⟩
  · have hnil : word (k + 1) = [] := by
      rw [← String.toList_ofList (l := word (k + 1)), ← ofNat, hempty, String.toList_empty]
    exact absurd (word_eq_nil_iff.1 hnil) (Nat.succ_ne_zero k)
  · rw [ofNat, String.toList_ofList] at hc
    exact mem_word c hc

/-- Every name names a number. -/
theorem exists_ofNat (h : IsName s) : ∃ k, ofNat k = s := by
  obtain ⟨hne, hletters⟩ := h
  obtain ⟨place, hplace⟩ := exists_word s.toList hletters
  obtain ⟨k, rfl⟩ : ∃ k, place = k + 1 := by
    refine Nat.exists_eq_succ_of_ne_zero fun hzero => hne ?_
    rw [← String.toList_eq_nil_iff, ← hplace, hzero, word_zero]
  exact ⟨k, by rw [ofNat, hplace, String.ofList_toList]⟩

/-- **Names come in the order of the numbers.** -/
theorem precedes_iff : Precedes (ofNat k) (ofNat m) ↔ k < m := by
  have hmono {k m : Nat} (h : k < m) : Precedes (ofNat k) (ofNat m) := by
    rw [precedes_iff_shortlex, ofNat, ofNat, String.toList_ofList, String.toList_ofList]
    exact shortlex_word (Nat.succ_lt_succ h)
  refine ⟨fun h => ?_, hmono⟩
  rcases Nat.lt_trichotomy k m with hlt | rfl | hgt
  · exact hlt
  · exact absurd h h.asymm
  · exact absurd h (hmono hgt).asymm

theorem before_ofNat (k : Nat) : before (ofNat k) = ofNat '' (Finset.range k : Set Nat) := by
  ext s
  constructor
  · rintro ⟨hname, hprecedes⟩
    obtain ⟨m, rfl⟩ := exists_ofNat hname
    exact ⟨m, Finset.mem_coe.2 (Finset.mem_range.2 (precedes_iff.1 hprecedes)), rfl⟩
  · rintro ⟨m, hm, rfl⟩
    exact ⟨isName_ofNat m, precedes_iff.2 (Finset.mem_range.1 (Finset.mem_coe.1 hm))⟩

theorem finite_before_ofNat (k : Nat) : (before (ofNat k)).Finite :=
  before_ofNat k ▸ (Finset.finite_toSet _).image _

/-- **A number is the rank of its name.** -/
theorem rank_ofNat (k : Nat) : rank (ofNat k) = k := by
  rw [rank, before_ofNat, Set.ncard_image_of_injective _ ofNat_injective, Set.ncard_coe_finset,
    Finset.card_range]

/-! ### Names in machine words -/

/-- The largest number whose place fits into a word of 64 bits. -/
def greatest : Nat :=
  Word.count64 - 2

theorem ofNat?_of_le (h : k ≤ greatest) : ofNat? k = some (ofNat k) := by
  have hfits : k + 1 < Word.count64 := by
    rw [greatest, Word.count64] at h
    rw [Word.count64]
    omega
  rw [ofNat?_eq, if_pos hfits]

/-- **The names of the numbers are all the words**, the shorter ones first and those of one length in
alphabetical order, and writing one in machine words never overflows or goes below 0 as long as the
number is not the last one of 64 bits. -/
theorem names_enumerate :
    (∀ k m, k < m → m ≤ greatest → ∃ s t, ofNat? k = some s ∧ ofNat? m = some t ∧
      IsName s ∧ IsName t ∧ Precedes s t) ∧
    (∀ s, IsName s → (before s).Finite ∧
      (rank s ≤ greatest → ofNat? (rank s) = some s)) ∧
    ∀ k, k ≤ greatest → ofNat? k = some (ofNat k) := by
  refine ⟨fun k m hkm hm => ?_, fun s hs => ?_, fun k hk => ofNat?_of_le hk⟩
  · have hk : k ≤ greatest := Nat.le_trans (Nat.le_of_lt hkm) hm
    exact ⟨ofNat k, ofNat m, ofNat?_of_le hk, ofNat?_of_le hm, isName_ofNat k, isName_ofNat m,
      precedes_iff.2 hkm⟩
  · obtain ⟨k, rfl⟩ := exists_ofNat hs
    refine ⟨finite_before_ofNat k, fun hrank => ?_⟩
    rw [rank_ofNat] at hrank ⊢
    exact ofNat?_of_le hrank

/-- At the end of the range, and at the first name of three letters. -/
theorem names_enumerate_carries :
    (greatest - 1 < greatest ∧ greatest ≤ greatest ∧ ∃ s t, ofNat? (greatest - 1) = some s ∧
      ofNat? greatest = some t ∧ IsName s ∧ IsName t ∧ Precedes s t) ∧
    (IsName "aaa" ∧ rank "aaa" ≤ greatest ∧ ofNat? (rank "aaa") = some "aaa") ∧
    ofNat? greatest = some (ofNat greatest) := by
  have hname : ofNat 702 = "aaa" := by
    rw [ofNat, word_succ, word_succ, word_succ, word_zero]
    decide
  have hisName : IsName "aaa" := hname ▸ isName_ofNat 702
  have hrank : rank "aaa" ≤ greatest := by
    rw [← hname, rank_ofNat]
    decide
  have hlt : greatest - 1 < greatest := by decide
  obtain ⟨hordered, hnamed, hwritten⟩ := names_enumerate
  exact ⟨⟨hlt, Nat.le_refl _, hordered _ _ hlt (Nat.le_refl _)⟩,
    ⟨hisName, hrank, (hnamed "aaa" hisName).2 hrank⟩, hwritten greatest (Nat.le_refl _)⟩

end InteractionNets.Letters
