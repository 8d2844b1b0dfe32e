import InteractionNets.Proofs.Rule.Symmetric
import InteractionNets.Proofs.Written.Turning
import InteractionNets.Systems.Peano

/-!
# The rules of unary arithmetic

What each rule of unary arithmetic makes of two agents that face each other. The result is at the
last name of an operator, and its first argument at the first name.
-/

namespace InteractionNets.Peano

open Assembly Net

/-! ### The set -/

/-- How the rules are made, in order of entry. -/
def makers : List (Except Fault Rule) :=
  [addZero, addSucc, mulZero, mulSucc, dupZero, dupSucc, eraZero, eraSucc]

theorem rules_eq : rules = makers.mapM id >>= RuleSet.ofList := by
  simp [rules, makers]

theorem exists_rules : ∃ rs, rules = .ok rs ∧ rs.isConfluent := by
  have hconfluent : rules.map RuleSet.isConfluent = .ok true := by decide +kernel
  cases hrules : rules with
  | error fault =>
    rw [hrules] at hconfluent
    cases hconfluent
  | ok rs =>
    rw [hrules] at hconfluent
    exact ⟨rs, rfl, Except.ok.inj hconfluent⟩

/-- The rules are made from well-formed nets. -/
theorem accepted_of_mem_makers {made : Except Fault Rule} (hmade : made ∈ makers) {rule : Rule}
    (hrule : made = .ok rule) : rule.Accepted := by
  simp only [makers, List.mem_cons, List.not_mem_nil, or_false] at hmade
  rcases hmade with rfl | rfl | rfl | rfl | rfl | rfl | rfl | rfl
  case inl =>
    rw [addZero] at hrule
    exact ⟨add, zero, Replacement.empty.wire (.left 0) (.left 1), wellFormed_empty, hrule⟩
  case inr.inr.inr.inr.inr.inr.inl =>
    rw [eraZero] at hrule
    exact ⟨era, zero, .empty, wellFormed_empty, hrule⟩
  all_goals
    simp only [addSucc, mulZero, mulSucc, dupZero, dupSucc, eraSucc] at hrule
    refine accepted_of_replacement ?_ hrule
    repeat' first
      | with_reducible exact keeps_agent _
      | with_reducible exact keeps_portAt _ _
      | with_reducible exact keeps_wire _ _ _ _
      | with_reducible exact Edit.Keeps.pure _
      | refine Edit.Keeps.bind ?_ fun _ => ?_

variable {rs : RuleSet}

theorem lawful_of_rules (hrs : rules = .ok rs) : rs.Lawful := by
  obtain ⟨rs', hrs', hconfluent⟩ := exists_rules
  obtain rfl := Except.ok.inj (hrs.symm.trans hrs')
  rw [rules_eq] at hrs
  refine RuleSet.lawful_of_isConfluent (fun rule hrule => ?_) hconfluent
  exact accepted_of_mem_makers ((RuleSet.of_mapM hrs).2 rule hrule) rfl

/-- What there is to see of each rule, in order of entry. -/
def readings : List Rule.Reading :=
  [⟨add, zero, [], true⟩,
    ⟨add, succ, [⟨succ, [.inl (.left 1), .inr 1]⟩,
      ⟨add, [.inl (.right 0), .inl (.left 0), .inr 1]⟩], false⟩,
    ⟨mul, zero, [⟨era, [.inl (.left 0)]⟩, ⟨zero, [.inl (.left 1)]⟩], false⟩,
    ⟨mul, succ, [⟨dup, [.inl (.left 0), .inr 1, .inr 2]⟩,
      ⟨mul, [.inl (.right 0), .inr 1, .inr 5]⟩, ⟨add, [.inr 5, .inr 2, .inl (.left 1)]⟩], false⟩,
    ⟨dup, zero, [⟨zero, [.inl (.left 0)]⟩, ⟨zero, [.inl (.left 1)]⟩], false⟩,
    ⟨dup, succ, [⟨dup, [.inl (.right 0), .inr 1, .inr 2]⟩, ⟨succ, [.inl (.left 0), .inr 1]⟩,
      ⟨succ, [.inl (.left 1), .inr 2]⟩], false⟩,
    ⟨era, zero, [], false⟩,
    ⟨era, succ, [⟨era, [.inl (.right 0)]⟩], false⟩]

theorem map_reading_makers : makers.map (·.map Rule.reading) = readings.map .ok := by
  decide +kernel

/-- A rule of the set puts in what there is to see of it. -/
theorem turns_of_reading (hrs : rules = .ok rs) (i : Nat) {left right : Symbol}
    {cells : List (Cell (Slot ⊕ PortId))}
    (hreading : readings[i]? = some ⟨left, right, cells, false⟩) (w : Nat) (ls ws : List Nat) :
    rs.Turns 1 [⟨left, w :: ls⟩, ⟨right, w :: ws⟩] fun result =>
      ∃ fresh, result = cells.map (Cell.map (putNames ls ws fresh)) := by
  have hat : (makers.map (·.map Rule.reading))[i]? = some (.ok ⟨left, right, cells, false⟩) := by
    rw [map_reading_makers, List.getElem?_map, hreading, Option.map_some]
  rw [List.getElem?_map, Option.map_eq_some_iff] at hat
  obtain ⟨made, hmade, hread⟩ := hat
  exact .of_mapM (lawful_of_rules hrs) (rules_eq ▸ hrs) (List.mem_of_getElem? hmade) hread
    w ls ws

/-! ### What the rules make of two agents -/

variable {p x y r u v : Nat}

/-- The sum of zero and a number is the number, so both names are names of one number. -/
theorem turns_addZero (hrs : rules = .ok rs) {cells : List (Cell Nat)} (hy : y ∈ wiresOf cells) :
    rs.Turns 1 (⟨add, [p, y, r]⟩ :: ⟨zero, [p]⟩ :: cells) fun result =>
      result = cells.map (Cell.map (Function.update id y r)) := by
  have hmade : addZero = .ok ⟨add, zero, Replacement.empty.wire (.left 0) (.left 1)⟩ := by
    decide +kernel
  have hset := hrs
  rw [rules_eq] at hset
  obtain ⟨rule, hok, hrule⟩ := (RuleSet.of_mapM hset).1 addZero List.mem_cons_self
  obtain rfl := Except.ok.inj (hok.symm.trans hmade)
  have hwires : rs.Wires add zero (.left 0) (.left 1) :=
    ⟨_, hrule, rfl, rfl, Rule.isWire_wire add zero (.left 0) (.left 1)⟩
  have hs : slotWire? [y, r] [] (.left 0) = some y := rfl
  have ht : slotWire? [y, r] [] (.left 1) = some r := rfl
  exact .of_wire (lawful_of_rules hrs) hwires hs ht hy

theorem turns_addSucc (hrs : rules = .ok rs) :
    rs.Turns 1 [⟨add, [p, y, r]⟩, ⟨succ, [p, x]⟩] fun result =>
      ∃ sum, result = [⟨succ, [r, sum]⟩, ⟨add, [x, y, sum]⟩] := by
  refine (turns_of_reading hrs 1 rfl p [y, r] [x]).mono ?_
  rintro _ ⟨fresh, rfl⟩
  exact ⟨_, .refl _, fresh 1, rfl⟩

theorem turns_mulZero (hrs : rules = .ok rs) :
    rs.Turns 1 [⟨mul, [p, y, r]⟩, ⟨zero, [p]⟩] fun result =>
      result = [⟨era, [y]⟩, ⟨zero, [r]⟩] := by
  refine (turns_of_reading hrs 2 rfl p [y, r] []).mono ?_
  rintro _ ⟨fresh, rfl⟩
  exact ⟨_, .refl _, rfl⟩

theorem turns_mulSucc (hrs : rules = .ok rs) :
    rs.Turns 1 [⟨mul, [p, y, r]⟩, ⟨succ, [p, x]⟩] fun result =>
      ∃ first second product, result =
        [⟨dup, [y, first, second]⟩, ⟨mul, [x, first, product]⟩, ⟨add, [product, second, r]⟩] := by
  refine (turns_of_reading hrs 3 rfl p [y, r] [x]).mono ?_
  rintro _ ⟨fresh, rfl⟩
  exact ⟨_, .refl _, fresh 1, fresh 2, fresh 5, rfl⟩

theorem turns_dupZero (hrs : rules = .ok rs) :
    rs.Turns 1 [⟨dup, [p, u, v]⟩, ⟨zero, [p]⟩] fun result =>
      result = [⟨zero, [u]⟩, ⟨zero, [v]⟩] := by
  refine (turns_of_reading hrs 4 rfl p [u, v] []).mono ?_
  rintro _ ⟨fresh, rfl⟩
  exact ⟨_, .refl _, rfl⟩

theorem turns_dupSucc (hrs : rules = .ok rs) :
    rs.Turns 1 [⟨dup, [p, u, v]⟩, ⟨succ, [p, x]⟩] fun result =>
      ∃ first second, result =
        [⟨dup, [x, first, second]⟩, ⟨succ, [u, first]⟩, ⟨succ, [v, second]⟩] := by
  refine (turns_of_reading hrs 5 rfl p [u, v] [x]).mono ?_
  rintro _ ⟨fresh, rfl⟩
  exact ⟨_, .refl _, fresh 1, fresh 2, rfl⟩

theorem turns_eraZero (hrs : rules = .ok rs) :
    rs.Turns 1 [⟨era, [p]⟩, ⟨zero, [p]⟩] fun result => result = [] := by
  refine (turns_of_reading hrs 6 rfl p [] []).mono ?_
  rintro _ ⟨fresh, rfl⟩
  exact ⟨_, .refl _, rfl⟩

theorem turns_eraSucc (hrs : rules = .ok rs) :
    rs.Turns 1 [⟨era, [p]⟩, ⟨succ, [p, x]⟩] fun result => result = [⟨era, [x]⟩] := by
  refine (turns_of_reading hrs 7 rfl p [] [x]).mono ?_
  rintro _ ⟨fresh, rfl⟩
  exact ⟨_, .refl _, rfl⟩

end InteractionNets.Peano
