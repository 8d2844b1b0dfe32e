import InteractionNets.Proofs.Rule.Assembly
import InteractionNets.Proofs.Written.Facing

/-!
# Cells that turn into others

Some cells of a net turn into others by a number of interactions, whatever else there is in the net
(`RuleSet.Turns`). What cells turn into is put together from what their parts turn into
(`RuleSet.Turns.bind`), down to single rules (`RuleSet.Turns.of_rule`).
-/

namespace InteractionNets

open Net

/-- What there is to see of a rule: its symbols, its cells, and whether it has wires. -/
structure Rule.Reading where
  left : Symbol
  right : Symbol
  cells : List (Cell (Slot ⊕ PortId))
  hasWires : Bool
deriving DecidableEq

/-- Read a rule. -/
def Rule.reading (rule : Rule) : Rule.Reading :=
  ⟨rule.left, rule.right, rule.cells,
    rule.replacement.splices.entries.any fun entry => entry.2 matches .wire _⟩

/-- Agents with two symbols have a rule that puts some cells in their place, without wires. -/
def RuleSet.PutsIn (rules : RuleSet) (left right : Symbol) (cells : List (Cell (Slot ⊕ PortId))) :
    Prop :=
  ∃ rule, rules.Contains rule ∧ rule.left = left ∧ rule.right = right ∧ rule.cells = cells ∧
    ∀ s t, rule.replacement.splice? s ≠ some (.wire t)

theorem RuleSet.putsIn_of_reading {rules : RuleSet} {rule : Rule} (hrule : rules.Contains rule)
    {left right : Symbol} {cells : List (Cell (Slot ⊕ PortId))}
    (hreading : rule.reading = ⟨left, right, cells, false⟩) : rules.PutsIn left right cells := by
  simp only [Rule.reading, Rule.Reading.mk.injEq] at hreading
  obtain ⟨hleft, hright, hcells, hwires⟩ := hreading
  refine ⟨rule, hrule, hleft, hright, hcells, fun s t hst => ?_⟩
  have hmem := (lookup_eq_some_iff_mem rule.replacement.splices.keys_nodup).1 hst
  exact List.any_eq_false.1 hwires _ hmem rfl

/-- Agents with two symbols have a rule that puts nothing but a wire between two slots in their
place. -/
def RuleSet.Wires (rules : RuleSet) (left right : Symbol) (s t : Slot) : Prop :=
  ∃ rule, rules.Contains rule ∧ rule.left = left ∧ rule.right = right ∧ rule.IsWire s t

theorem Rule.isWire_wire (left right : Symbol) (s t : Slot) :
    (Rule.mk left right (Replacement.empty.wire s t)).IsWire s t :=
  ⟨rfl, fun u => Replacement.splice?_wire .empty s t u⟩

/-- Some cells turn into cells with a property by a number of interactions, whatever else there is
in the net. -/
def RuleSet.Turns (rules : RuleSet) (n : Nat) (cells : List (Cell Nat))
    (goal : List (Cell Nat) → Prop) : Prop :=
  ∀ net rest free, net.Written (cells ++ rest) free → ∃ after cells', goal cells' ∧
    rules.Reduces n net after ∧ after.Written (cells' ++ rest) free

namespace RuleSet.Turns

variable {rules : RuleSet} {m n : Nat} {cells cells' extra : List (Cell Nat)}
  {goal goal' : List (Cell Nat) → Prop}

theorem refl (hgoal : goal cells) : rules.Turns 0 cells goal :=
  fun net _ _ hw => ⟨net, cells, hgoal, .refl net, hw⟩

/-- The order of the cells does not matter. -/
theorem perm (h : rules.Turns n cells goal) (hperm : cells'.Perm cells) :
    rules.Turns n cells' goal :=
  fun net rest free hw => h net rest free (hw.perm (hperm.append_right rest))

/-- The order of the resulting cells does not matter. -/
theorem mono (h : rules.Turns n cells goal)
    (hgoal : ∀ result, goal result → ∃ result', result.Perm result' ∧ goal' result') :
    rules.Turns n cells goal' := by
  intro net rest free hw
  obtain ⟨after, result, hresult, hreduces, hafter⟩ := h net rest free hw
  obtain ⟨result', hperm, hresult'⟩ := hgoal result hresult
  exact ⟨after, result', hresult', hreduces, hafter.perm (hperm.append_right rest)⟩

/-- **One after another.** Some cells turn into others, and these, with extra cells, go on. -/
theorem bind (h : rules.Turns m cells goal)
    (h' : ∀ result, goal result → rules.Turns n (result ++ extra) goal') :
    rules.Turns (m + n) (cells ++ extra) goal' := by
  intro net rest free hw
  rw [List.append_assoc] at hw
  obtain ⟨mid, result, hresult, hreduces, hmid⟩ := h net _ free hw
  rw [← List.append_assoc] at hmid
  obtain ⟨after, result', hresult', hreduces', hafter⟩ := h' result hresult mid rest free hmid
  exact ⟨after, result', hresult', hreduces.trans hreduces', hafter⟩

/-- Some of the cells turn into others, and then all go on. -/
theorem step {k : Nat} {start : List (Cell Nat)} (h : rules.Turns m cells goal)
    (extra : List (Cell Nat)) (hperm : start.Perm (cells ++ extra)) (hk : k = m + n)
    (h' : ∀ result, goal result → rules.Turns n (result ++ extra) goal') :
    rules.Turns k start goal' :=
  hk ▸ (h.bind h').perm hperm

/-- Extra cells stay. -/
theorem frame (h : rules.Turns n cells goal) (extra : List (Cell Nat)) :
    rules.Turns n (cells ++ extra) fun result => ∃ own, goal own ∧ result = own ++ extra :=
  h.bind fun own hown => .refl ⟨own, hown, rfl⟩

/-- Some cells and some others turn into what each of them turn into. -/
theorem beside (h : rules.Turns m cells goal) (h' : rules.Turns n cells' goal') :
    rules.Turns (m + n) (cells ++ cells') fun result =>
      ∃ own other, goal own ∧ goal' other ∧ result = own ++ other := by
  refine h.bind fun own hown => ((h'.frame own).perm List.perm_append_comm).mono ?_
  rintro _ ⟨other, hother, rfl⟩
  exact ⟨_, List.perm_append_comm, own, other, hown, hother, rfl⟩

/-- **A rule without wires** puts its cells in the place of two that face each other. -/
theorem of_rule (hrules : rules.Lawful) {left right : Symbol} {put : List (Cell (Slot ⊕ PortId))}
    (hrule : rules.PutsIn left right put) (w : Nat) (ls rs : List Nat) :
    rules.Turns 1 [⟨left, w :: ls⟩, ⟨right, w :: rs⟩] fun result =>
      ∃ fresh, result = put.map (Cell.map (putNames ls rs fresh)) := by
  obtain ⟨rule, hrule, rfl, rfl, rfl, hports⟩ := hrule
  intro net rest free hw
  obtain ⟨after, fresh, hreduces, hafter⟩ := hw.exists_reduces_of_ports hrules hrule hports
  exact ⟨after, _, ⟨fresh, rfl⟩, hreduces, hafter⟩

/-- Of a set that is made of some rules, each rule puts in what there is to see of it. -/
theorem of_mapM (hrules : rules.Lawful) {makers : List (Except Fault Rule)}
    (hset : makers.mapM id >>= RuleSet.ofList = .ok rules) {made : Except Fault Rule}
    (hmade : made ∈ makers) {left right : Symbol} {put : List (Cell (Slot ⊕ PortId))}
    (hreading : made.map Rule.reading = .ok ⟨left, right, put, false⟩) (w : Nat)
    (ls rs : List Nat) : rules.Turns 1 [⟨left, w :: ls⟩, ⟨right, w :: rs⟩] fun result =>
      ∃ fresh, result = put.map (Cell.map (putNames ls rs fresh)) := by
  obtain ⟨rule, rfl, hrule⟩ := (RuleSet.of_mapM hset).1 made hmade
  exact .of_rule hrules (putsIn_of_reading hrule (Except.ok.inj hreading)) w ls rs

/-- **A wire** identifies the names of its slots, if one of them occurs in the other cells. -/
theorem of_wire (hrules : rules.Lawful) {left right : Symbol} {s t : Slot}
    (hrule : rules.Wires left right s t) {w a b : Nat} {ls rs : List Nat}
    (hs : slotWire? ls rs s = some a) (ht : slotWire? ls rs t = some b) (ha : a ∈ wiresOf cells) :
    rules.Turns 1 (⟨left, w :: ls⟩ :: ⟨right, w :: rs⟩ :: cells) fun result =>
      result = cells.map (Cell.map (Function.update id a b)) := by
  obtain ⟨rule, hrule, rfl, rfl, hwire⟩ := hrule
  intro net rest free hw
  rw [List.cons_append, List.cons_append] at hw
  -- the name occurs in the two cells and in the other ones, so it does not occur in the rest
  have hrest : rest.map (Cell.map (Function.update id a b)) = rest := by
    refine map_cells_eq_self fun k hk => Function.update_of_ne ?_ b id
    rintro rfl
    have hcount := hw.count_le_two k
    have hslot := List.count_pos_iff.2 (mem_of_slotWire? hs)
    have hcells := List.count_pos_iff.2 ha
    have hrest := List.count_pos_iff.2 hk
    simp only [wiresOf_cons, wiresOf_append, List.count_append, List.count_cons] at hcount hslot
    omega
  obtain ⟨after, hreduces, hafter⟩ := hw.exists_reduces_of_wire hwire hs ht hrules hrule
    (by rw [wiresOf_append]; exact List.mem_append_left _ ha)
  rw [List.map_append, hrest] at hafter
  exact ⟨after, _, rfl, hreduces, hafter⟩

end RuleSet.Turns

end InteractionNets
