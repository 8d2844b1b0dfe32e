import InteractionNets.Proofs.Term.Cells
import InteractionNets.Proofs.Text.Words

/-!
# Reading terms

Terms can be read back from their texts, when the names of the agents in them do not look like
anything else that is written (`IsPlain`). A text starts with a token, which goes on to the next
blank, bracket, comma or end of line, and tells what kind of term it is. So no text can be read in
two ways (`Term.Legible.eq_of_text`), and neither can the lines of a net
(`Net.equations_eq_of_text`).
-/

namespace InteractionNets

/-! ### Plain names -/

/-- A name that is not empty, has none of the characters that mean something else, and does not
consist only of letters of which variables do. -/
def IsPlain (name : String) : Prop :=
  name ≠ "" ∧ (∀ c ∈ name.toList, c ∉ [' ', '\n', '(', ')', ',', '=', '~', '#', '_']) ∧
    ¬ ∀ c ∈ name.toList, 'a' ≤ c ∧ c ≤ 'z'

instance (name : String) : Decidable (IsPlain name) :=
  -- only the characters in the name are looked at, not all characters there are
  letI (p : Char → Prop) [DecidablePred p] : Decidable (∀ c ∈ name.toList, p c) :=
    List.decidableBAll p name.toList
  inferInstanceAs (Decidable (_ ∧ _))

/-! ### Tokens -/

/-- The characters that end a token. -/
def isStop (c : Char) : Bool :=
  [' ', '\n', '(', ')', ','].contains c

theorem isStop_eq_false_iff {c : Char} : isStop c = false ↔ c ∉ [' ', '\n', '(', ')', ','] := by
  rw [isStop, Bool.eq_false_iff, Ne, List.contains_iff_mem]

/-- A text in which a token has ended. -/
def Stops (s : List Char) : Prop :=
  ∃ c rest, s = c :: rest ∧ isStop c

theorem takeWhile_token {x s : List Char} (hx : ∀ c ∈ x, isStop c = false) (hs : Stops s) :
    (x ++ s).takeWhile (fun c => !isStop c) = x := by
  obtain ⟨c, rest, rfl, hc⟩ := hs
  rw [List.takeWhile_append_of_pos fun c hc => by rw [hx c hc]; rfl, List.takeWhile_cons, hc]
  exact List.append_nil x

/-- Tokens end in one place only. -/
theorem token_inj {x y s s' : List Char} (hx : ∀ c ∈ x, isStop c = false)
    (hy : ∀ c ∈ y, isStop c = false) (hs : Stops s) (hs' : Stops s') (h : x ++ s = y ++ s') :
    x = y ∧ s = s' := by
  have htoken := congrArg (List.takeWhile fun c => !isStop c) h
  rw [takeWhile_token hx hs, takeWhile_token hy hs'] at htoken
  obtain rfl := htoken
  exact ⟨rfl, List.append_cancel_left h⟩

namespace Term

/-- The token a term starts with; nothing is said about agents that do not exist. -/
def token : Term → List Char
  | .agent name _ => name.toList
  | .variable number => Letters.word (number + 1)
  | .free index => '#' :: Nat.toDigits 10 index
  | .hidden => ['_']
  | .missing => []

/-- The arguments of a term. -/
def args : Term → List Term
  | .agent _ args => args
  | _ => []

/-- A term that exists and whose name is plain, if it has one. -/
def IsReadable : Term → Prop
  | .agent name _ => IsPlain name
  | .missing => False
  | _ => True

/-- What kind of term a token starts. -/
def kindOf (token : List Char) : Nat :=
  if token.contains '#' then 3
  else if token.contains '_' then 2
  else if token.all fun c => 'a' ≤ c ∧ c ≤ 'z' then 1
  else 0

/-- The kind of a term. -/
def kind : Term → Nat
  | .agent _ _ => 0
  | .variable _ => 1
  | .hidden => 2
  | .free _ => 3
  | .missing => 4

variable {t t' : Term} {ts ts' : List Term} {r r' : List Char}

theorem kindOf_token (h : t.IsReadable) : kindOf t.token = t.kind := by
  cases t with
  | agent name args =>
    obtain ⟨-, hclean, hword⟩ : IsPlain name := h
    have hnot : ∀ c ∈ ['#', '_'], ¬ name.toList.contains c := by
      have hmeans : ['#', '_'] ⊆ [' ', '\n', '(', ')', ',', '=', '~', '#', '_'] := by decide
      intro c hc
      rw [List.contains_iff_mem]
      exact fun hmem => hclean c hmem (hmeans hc)
    have hletters : ¬ name.toList.all fun c => 'a' ≤ c ∧ c ≤ 'z' := by
      rw [List.all_eq_true]
      exact fun hall => hword fun c hc => of_decide_eq_true (hall c hc)
    rw [token, kindOf, if_neg (hnot '#' (by decide)), if_neg (hnot '_' (by decide)),
      if_neg hletters, kind]
  | «variable» number =>
    have hnot : ∀ c, ¬ ('a' ≤ c ∧ c ≤ 'z') → ¬ (Letters.word (number + 1)).contains c := by
      intro c hc
      rw [List.contains_iff_mem]
      exact fun hmem => hc (Letters.mem_word c hmem)
    have hletters : (Letters.word (number + 1)).all fun c => 'a' ≤ c ∧ c ≤ 'z' :=
      List.all_eq_true.2 fun c hc => decide_eq_true (Letters.mem_word c hc)
    rw [token, kindOf, if_neg (hnot '#' (by decide)), if_neg (hnot '_' (by decide)),
      if_pos hletters, kind]
  | free index => rw [token, kindOf, if_pos (List.contains_iff_mem.2 List.mem_cons_self), kind]
  | hidden => rfl
  | missing => cases h

/-- The tokens of terms end where they should. -/
theorem isStop_of_mem_token (h : t.IsReadable) : ∀ c ∈ t.token, isStop c = false := by
  intro c hc
  rw [isStop_eq_false_iff]
  cases t with
  | agent name args =>
    have hplain : IsPlain name := h
    exact fun hmem => hplain.2.1 c hc (List.mem_append_left ['=', '~', '#', '_'] hmem)
  | «variable» number =>
    have hall : ∀ c ∈ [' ', '\n', '(', ')', ','], ¬ ('a' ≤ c ∧ c ≤ 'z') :=
      List.forall_iff_forall_mem.1 (by decide)
    exact fun hmem => hall c hmem (Letters.mem_word c hc)
  | free index =>
    have hall : ∀ c ∈ [' ', '\n', '(', ')', ','], ¬ (c = '#' ∨ c.isDigit) :=
      List.forall_iff_forall_mem.1 (by decide)
    refine fun hmem => hall c hmem ((List.mem_cons.1 hc).imp id fun hdigit => ?_)
    exact Nat.isDigit_of_mem_toDigits (by decide) (by decide) hdigit
  | hidden =>
    rw [List.mem_singleton.1 hc]
    decide
  | missing => cases h

/-- Terms that start with one token and have the same arguments are equal. -/
theorem eq_of_token (h : t.IsReadable) (h' : t'.IsReadable) (htoken : t.token = t'.token)
    (hargs : t.args = t'.args) : t = t' := by
  -- the token tells the kind, so only terms of one kind have to be compared
  have hkind : t.kind = t'.kind := by rw [← kindOf_token h, ← kindOf_token h', htoken]
  cases t <;> cases t' <;> try (cases hkind; done)
  case agent.agent name args name' args' =>
    rw [String.toList_injective htoken, show args = args' from hargs]
  case variable.variable number number' =>
    rw [Nat.succ.inj (Letters.word_injective htoken)]
  case free.free index index' =>
    have hdigits := congrArg (Nat.ofDigitChars 10 · 0) (List.cons.inj htoken).2
    simp only [Nat.ofDigitChars_ten_toDigits] at hdigits
    rw [hdigits]
  case hidden.hidden => rfl
  case missing.missing => cases h

/-! ### Texts of terms -/

/-- The text of some terms, each after a comma. -/
def more (ts : List Term) : List Char :=
  ts.flatMap fun t => ',' :: ' ' :: t.text.toList

/-- The text of the arguments of an agent. -/
def inBrackets : List Term → List Char
  | [] => []
  | t :: rest => '(' :: (t.text.toList ++ more rest ++ [')'])

theorem textAll_eq (ts : List Term) : textAll ts = ts.map text := by
  induction ts with
  | nil => rw [textAll, List.map_nil]
  | cons t rest ih => rw [textAll, ih, List.map_cons]

theorem toList_intercalate (s : String) (texts : List String) :
    (", ".intercalate (s :: texts)).toList =
      s.toList ++ texts.flatMap fun text => ',' :: ' ' :: text.toList := by
  induction texts generalizing s with
  | nil => rw [String.intercalate_singleton, List.flatMap_nil, List.append_nil]
  | cons text texts ih =>
    rw [String.intercalate_cons_cons, String.toList_append, String.toList_append, ih,
      List.flatMap_cons, List.append_assoc]
    rfl

/-- A text is a token and what stands in brackets. -/
theorem toList_text (h : t.IsReadable) : t.text.toList = t.token ++ inBrackets t.args := by
  cases t with
  | agent name args =>
    cases args with
    | nil => rw [text, token, Term.args, inBrackets, List.append_nil]
    | cons arg rest =>
      simp only [text, String.toList_append, toList_intercalate, textAll_eq, token, Term.args,
        inBrackets, more, List.flatMap_map, List.append_assoc]
      rfl
  | «variable» number =>
    rw [text, Letters.ofNat, String.toList_ofList, token]
    exact (List.append_nil _).symm
  | free index =>
    simp only [text, String.toList_append, token, Term.args, inBrackets, List.append_nil]
    exact congrArg ('#' :: ·) Nat.toList_repr
  | hidden => rfl
  | missing => cases h

/-- Terms that can be read back, with everything in them. -/
inductive Legible : List Term → Prop
  | nil : Legible []
  | cons {t : Term} {rest : List Term} : t.IsReadable → Legible t.args → Legible rest →
      Legible (t :: rest)

/-- What may come after some terms. -/
def Closes (r : List Char) : Prop :=
  ∃ c rest, r = c :: rest ∧ c ∈ [' ', '\n', ')']

theorem more_cons (t : Term) (ts : List Term) :
    more (t :: ts) = ',' :: ' ' :: (t.text.toList ++ more ts) := by
  rw [more, List.flatMap_cons]
  rfl

/-- After a term, there is a comma, or whatever comes after the last one. -/
theorem exists_more_append (ts : List Term) (hr : Closes r) :
    ∃ c rest, more ts ++ r = c :: rest ∧ c ∈ [' ', '\n', ')', ','] := by
  cases ts with
  | nil =>
    obtain ⟨c, rest, rfl, hc⟩ := hr
    exact ⟨c, rest, rfl, List.mem_append_left [','] hc⟩
  | cons t ts => exact ⟨',', _, by rw [more_cons, List.cons_append], by decide⟩

/-- After a token, there is a bracket, or whatever comes after the term. -/
theorem stops_inBrackets (args ts : List Term) (hr : Closes r) :
    Stops (inBrackets args ++ (more ts ++ r)) := by
  cases args with
  | nil =>
    obtain ⟨c, rest, heq, hc⟩ := exists_more_append ts hr
    have hall : ∀ c ∈ [' ', '\n', ')', ','], isStop c :=
      List.forall_iff_forall_mem.1 (by decide)
    exact ⟨c, rest, heq, hall c hc⟩
  | cons arg rest => exact ⟨'(', _, rfl, by decide⟩

/-- What stands in brackets is read in one way, when the arguments are. -/
theorem inBrackets_inj {args args' : List Term} (hr : Closes r) (hr' : Closes r')
    (hargs : ∀ {s s'}, more args ++ ')' :: s = more args' ++ ')' :: s' → args = args' ∧ s = s')
    (h : inBrackets args ++ (more ts ++ r) = inBrackets args' ++ (more ts' ++ r')) :
    args = args' ∧ more ts ++ r = more ts' ++ r' := by
  have hbracket : ∀ c ∈ [' ', '\n', ')', ','], c ≠ '(' :=
    List.forall_iff_forall_mem.1 (by decide)
  match args, args' with
  | [], [] => exact ⟨rfl, h⟩
  | [], arg :: rest =>
    obtain ⟨c, s, heq, hc⟩ := exists_more_append ts hr
    rw [inBrackets, List.nil_append, heq] at h
    exact absurd (List.cons.inj h).1 (hbracket c hc)
  | arg :: rest, [] =>
    obtain ⟨c, s, heq, hc⟩ := exists_more_append ts' hr'
    rw [inBrackets, inBrackets, List.nil_append, heq] at h
    exact absurd (List.cons.inj h).1.symm (hbracket c hc)
  | arg :: rest, arg' :: rest' =>
    refine hargs ?_
    simp only [inBrackets, List.cons_append, List.append_assoc, List.nil_append] at h
    rw [more_cons, more_cons, List.cons_append, List.cons_append, List.cons_append,
      List.cons_append, List.append_assoc, List.append_assoc, (List.cons.inj h).2]

/-- **Texts are read in one way.** Terms with one text are equal. -/
theorem Legible.eq_of_text (h : Legible ts) (h' : Legible ts') (hr : Closes r) (hr' : Closes r')
    (heq : more ts ++ r = more ts' ++ r') : ts = ts' ∧ r = r' := by
  have hcomma : ∀ {s : List Char}, ¬ Closes (',' :: s) := by
    rintro s ⟨c, rest, hc, hmem⟩
    obtain rfl := (List.cons.inj hc).1
    exact absurd hmem (by decide)
  -- by induction on the terms that are read, those in the brackets of the first one included; what
  -- comes after the brackets is part of the rest of the text, so the rest must not be fixed
  induction h generalizing ts' r r' with
  | nil =>
    cases h' with
    | nil => exact ⟨rfl, heq⟩
    | cons _ _ _ =>
      have hclose : r = _ := heq
      rw [more_cons] at hclose
      exact absurd (hclose ▸ hr) hcomma
  | @cons t rest ht _ _ ihargs ih =>
    cases h' with
    | nil =>
      have hclose : _ = r' := heq
      rw [more_cons] at hclose
      exact absurd (hclose ▸ hr') hcomma
    | @cons t' rest' ht' hargs' hrest' =>
      rw [more_cons, more_cons, toList_text ht, toList_text ht'] at heq
      simp only [List.cons_append, List.append_assoc, List.cons.injEq, true_and] at heq
      obtain ⟨htoken, hafter⟩ := token_inj (isStop_of_mem_token ht) (isStop_of_mem_token ht')
        (stops_inBrackets _ _ hr) (stops_inBrackets _ _ hr') heq
      have hcloses : ∀ {s : List Char}, Closes (')' :: s) := ⟨')', _, rfl, by decide⟩
      obtain ⟨hargs, hmore⟩ := inBrackets_inj hr hr'
        (fun hall => (ihargs hargs' hcloses hcloses hall).imp id fun h => (List.cons.inj h).2)
        hafter
      obtain ⟨rfl, hr⟩ := ih hrest' hr hr' hmore
      exact ⟨by rw [eq_of_token ht ht' htoken hargs], hr⟩

/-- One term is read from the front of a text. -/
theorem Legible.eq_of_text_append (h : Legible [t]) (h' : Legible [t']) (hr : Closes r)
    (hr' : Closes r') (heq : t.text.toList ++ r = t'.text.toList ++ r') : t = t' ∧ r = r' := by
  have hmore : ∀ (t : Term) s, more [t] ++ s = ',' :: ' ' :: (t.text.toList ++ s) := by
    intro t s
    rw [more_cons, more, List.flatMap_nil, List.append_nil, List.cons_append, List.cons_append]
  obtain ⟨hterm, hrest⟩ := h.eq_of_text h' hr hr' (by rw [hmore, hmore, heq])
  exact ⟨(List.cons.inj hterm).1, hrest⟩

end Term

/-! ### Texts of lines -/

namespace Equation

/-- The first term in a line. -/
def first : Equation → Term
  | pair left _ => left
  | root label _ => label
  | lone tree => tree

/-- The other term in a line, if there is one, and the sign before it. -/
def second? : Equation → Option (Char × Term)
  | pair _ right => some ('~', right)
  | root _ tree => some ('=', tree)
  | lone _ => none

/-- A line whose terms can be read back. -/
structure IsLegible (equation : Equation) : Prop where
  first : Term.Legible [equation.first]
  second : ∀ side ∈ equation.second?, Term.Legible [side.2]

/-- The text after the first term of a line. -/
def tail : Option (Char × Term) → List Char
  | none => []
  | some (sign, term) => ' ' :: sign :: ' ' :: term.text.toList

theorem toList_text (equation : Equation) :
    equation.text.toList = equation.first.text.toList ++ tail equation.second? := by
  cases equation with
  | pair _ _ | root _ _ =>
    rw [text, String.toList_append, String.toList_append, List.append_assoc]
    rfl
  | lone _ => exact (List.append_nil _).symm

theorem closes_tail (side : Option (Char × Term)) (s : List Char) :
    Term.Closes (tail side ++ '\n' :: s) := by
  cases side with
  | none => exact ⟨'\n', s, rfl, by decide⟩
  | some side => exact ⟨' ', _, rfl, by decide⟩

/-- What comes after the first term of a line is read in one way. -/
theorem tail_inj {side side' : Option (Char × Term)} (h : ∀ x ∈ side, Term.Legible [x.2])
    (h' : ∀ x ∈ side', Term.Legible [x.2]) {s s' : List Char}
    (heq : tail side ++ '\n' :: s = tail side' ++ '\n' :: s') : side = side' ∧ s = s' := by
  match side, side' with
  | none, none => exact ⟨rfl, (List.cons.inj heq).2⟩
  | none, some _ => exact absurd (List.cons.inj heq).1 (by decide)
  | some _, none => exact absurd (List.cons.inj heq).1 (by decide)
  | some (sign, t), some (sign', t') =>
    simp only [tail, List.cons_append, List.cons.injEq, true_and] at heq
    obtain ⟨rfl, heq⟩ := heq
    obtain ⟨rfl, hs⟩ := (h _ rfl).eq_of_text_append (h' _ rfl) (closes_tail none s)
      (closes_tail none s') heq
    exact ⟨rfl, (List.cons.inj hs).2⟩

/-- Lines with one text are equal. -/
theorem IsLegible.eq_of_text {equation equation' : Equation} (h : equation.IsLegible)
    (h' : equation'.IsLegible) {s s' : List Char}
    (heq : equation.text.toList ++ '\n' :: s = equation'.text.toList ++ '\n' :: s') :
    equation = equation' ∧ s = s' := by
  rw [toList_text, toList_text, List.append_assoc, List.append_assoc] at heq
  obtain ⟨hfirst, htail⟩ :=
    h.first.eq_of_text_append h'.first (closes_tail _ s) (closes_tail _ s') heq
  obtain ⟨hsecond, hs⟩ := tail_inj h.second h'.second htail
  refine ⟨?_, hs⟩
  cases equation <;> cases equation' <;> simp_all [Equation.first, second?]

/-- The text of some lines after the same margin. -/
def lines (margin : List Char) (equations : List Equation) : List Char :=
  equations.flatMap fun equation => margin ++ (equation.text.toList ++ ['\n'])

/-- **Lines are read in one way.** -/
theorem eq_of_lines {margin : List Char} {equations equations' : List Equation}
    (h : ∀ equation ∈ equations, equation.IsLegible)
    (h' : ∀ equation ∈ equations', equation.IsLegible)
    (heq : lines margin equations = lines margin equations') : equations = equations' := by
  have hcons : ∀ equation rest, lines margin (equation :: rest) =
      margin ++ (equation.text.toList ++ '\n' :: lines margin rest) := by
    intro equation rest
    rw [lines, List.flatMap_cons, List.append_assoc, List.append_assoc, List.singleton_append]
    rfl
  have hne : ∀ equation rest, lines margin (equation :: rest) ≠ [] := by
    intro equation rest hnil
    rw [hcons] at hnil
    simp at hnil
  induction equations generalizing equations' with
  | nil =>
    cases equations' with
    | nil => rfl
    | cons equation' rest' => exact absurd heq.symm (hne equation' rest')
  | cons equation rest ih =>
    cases equations' with
    | nil => exact absurd heq (hne equation rest)
    | cons equation' rest' =>
      rw [List.forall_mem_cons] at h h'
      rw [hcons, hcons] at heq
      obtain ⟨rfl, hrest⟩ := h.1.eq_of_text h'.1 (List.append_cancel_left heq)
      rw [ih h.2 h'.2 hrest]

end Equation

/-- Nets that are printed in the same way have the same lines. -/
theorem Net.equations_eq_of_text {net other : Net} {indent : Nat}
    (h : ∀ equation ∈ net.equations, equation.IsLegible)
    (h' : ∀ equation ∈ other.equations, equation.IsLegible)
    (heq : net.text indent = other.text indent) : net.equations = other.equations := by
  have htext : ∀ net : Net, (net.text indent).toList =
      Equation.lines (List.replicate (4 * indent) ' ') net.equations := by
    intro net
    simp only [Net.text, String.toList_join, List.flatMap_map, Equation.lines,
      String.toList_append, String.toList_ofList, List.append_assoc]
    rfl
  exact Equation.eq_of_lines h h' (by rw [← htext, ← htext, heq])

end InteractionNets
