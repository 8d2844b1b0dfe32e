/-!
# Words for numbers

Numbers are named by the words over the letters `a` to `z`, the shorter words first and words of
one length alphabetically: `a`, `b`, …, `z`, `aa`, `ab`, …, `zz`, `aaa`, and so on. Every word
names exactly one number.
-/

namespace InteractionNets.Letters

/-- The letter with the given place in the alphabet, counted from 0. -/
def letter (i : Nat) : Char :=
  Char.ofNat ('a'.toNat + i)

/-- The letters of the word at the given place, counted from 1; place 0 is the empty word. -/
def word (place : Nat) : List Char :=
  if _h : place = 0 then []
  else word ((place - 1) / 26) ++ [letter ((place - 1) % 26)]
termination_by place
decreasing_by omega

@[simp] theorem word_zero : word 0 = [] := by
  rw [word, dif_pos rfl]

/-- The last letter of a word is the remainder by 26 of the number before its place, and the
letters before it make the word at the quotient. -/
theorem word_succ (n : Nat) : word (n + 1) = word (n / 26) ++ [letter (n % 26)] := by
  rw [word, dif_neg (Nat.succ_ne_zero n)]
  rfl

theorem word_eq_nil_iff {place : Nat} : word place = [] ↔ place = 0 := by
  cases place with
  | zero => simp
  | succ n => simp [word_succ]

/-- The name of a number, counted from 0. -/
def ofNat (n : Nat) : String :=
  String.ofList (word (n + 1))

end InteractionNets.Letters
