import InteractionNets.Text.Letters
import InteractionNets.Word

/-!
# Spelling words in machine arithmetic

A word is written from its last letter on, one letter a turn, and the arithmetic of a turn is that of
machine words: the number before the place has 64 bits and the code of a letter 8. A turn never
leaves that range (`Letters.turn?_succ`), so the turns write the word (`Letters.spell?_eq`), and only
the place of the word itself may be too large (`Letters.ofNat?_eq`).
-/

namespace InteractionNets.Letters

/-- The last letter of the word at a place and the place of the letters before it. The number before
the place is one of 64 bits and the code of the letter one of 8 bits; there is no turn when one of
them does not fit. -/
def turn? (place : Nat) : Option (Char × Nat) := do
  let before ← Word.sub? place 1
  let code ← Word.add? Word.count8 'a'.toNat (before % 26 % Word.count8)
  return (Char.ofNat code, before / 26)

/-- A turn writes the last letter of the word: nothing goes below 0, and the code of a letter fits
into 8 bits. -/
theorem turn?_succ (n : Nat) : turn? (n + 1) = some (letter (n % 26), n / 26) := by
  have hmod : n % 26 < 26 := Nat.mod_lt n (by decide)
  have hbyte : n % 26 % Word.count8 = n % 26 := Nat.mod_eq_of_lt (Nat.lt_trans hmod (by decide))
  have hcode : 'a'.toNat + n % 26 < Word.count8 :=
    Nat.lt_of_lt_of_le (Nat.add_lt_add_left hmod _) (by decide)
  rw [turn?, Word.sub?, if_pos (Nat.le_add_left 1 n), Nat.add_sub_cancel]
  simp only [Option.bind_eq_bind, Option.bind_some, hbyte, Word.add?, if_pos hcode]
  rfl

theorem lt_of_turn? {place rest : Nat} {c : Char} (h : turn? place = some (c, rest)) :
    rest < place := by
  cases place with
  | zero => simp [turn?, Word.sub?] at h
  | succ n =>
    rw [turn?_succ, Option.some.injEq, Prod.mk.injEq] at h
    exact h.2 ▸ Nat.lt_succ_of_le (Nat.div_le_self n 26)

/-- Write the word at a place in front of some letters, turn by turn. -/
def spell? (place : Nat) (letters : List Char) : Option (List Char) :=
  if place = 0 then some letters
  else
    match _hturn : turn? place with
    | none => none
    | some (c, rest) => spell? rest (c :: letters)
termination_by place
decreasing_by exact lt_of_turn? _hturn

/-- The turns write the word. -/
theorem spell?_eq (place : Nat) (letters : List Char) :
    spell? place letters = some (word place ++ letters) := by
  induction place using Nat.strongRecOn generalizing letters with
  | ind place ih =>
    cases place with
    | zero => rw [spell?, if_pos rfl, word_zero, List.nil_append]
    | succ n =>
      rw [spell?, if_neg (Nat.succ_ne_zero n)]
      split
      · rename_i hturn
        rw [turn?_succ] at hturn
        cases hturn
      · rename_i c rest hturn
        rw [turn?_succ, Option.some.injEq, Prod.mk.injEq] at hturn
        obtain ⟨rfl, rfl⟩ := hturn
        rw [ih (n / 26) (Nat.lt_succ_of_le (Nat.div_le_self n 26)), word_succ, List.append_assoc]
        rfl

/-- The name of a number, written in machine words; there is none when the place of the word does not
fit into 64 bits. -/
def ofNat? (n : Nat) : Option String := do
  let place ← Word.add? Word.count64 n 1
  let letters ← spell? place []
  return String.ofList letters

/-- In machine words the name of a number is written if its place fits into 64 bits, and only
then. -/
theorem ofNat?_eq (n : Nat) : ofNat? n = if n + 1 < Word.count64 then some (ofNat n) else none := by
  rw [ofNat?, Word.add?]
  split
  · simp only [Option.bind_eq_bind, Option.bind_some, spell?_eq, List.append_nil]
    rfl
  · rfl

end InteractionNets.Letters
