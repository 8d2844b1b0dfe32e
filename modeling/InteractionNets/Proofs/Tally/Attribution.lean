import InteractionNets.Proofs.Rule.Lookup
import InteractionNets.Proofs.Tally.Counting

/-!
# Interactions by each rule

A tally counts interactions by the labels of rules, and a label is the text of a key. The number
under a label is the number of the interactions by all rules with that label, which are the
interactions by a given rule only if no other rule with its label was used
(`Reducer.interactionsBy_label`). Labels tell rules apart as long as there is no comma in a name;
otherwise two rules of a set may share a label, and then they share an entry, too
(`Reducer.interactionsBy_commaRules`).
-/

namespace InteractionNets

open Net RuleSet

variable {net : Net} {jobs : List (ActivePair × Rule)} {rule : Rule} {r : Reducer}

/-! ### Labels -/

/-- A key of names without commas is told by its text. -/
theorem RuleKey.eq_of_text_eq {k l : RuleKey} (hfirst : ',' ∉ k.first.toList)
    (hsecond : ',' ∉ k.second.toList) (h : k.text = l.text) : k = l := by
  have htext : ∀ key : RuleKey, key.text.toList =
      '(' :: (key.first.toList ++ ',' :: ' ' :: (key.second.toList ++ [')'])) := by
    intro key
    simp [text]
  have hlist := congrArg String.toList h
  rw [htext, htext, List.cons_inj_right,
    List.append_cons_inj_of_notMem hfirst (by simpa using hsecond)] at hlist
  obtain ⟨hnames, -, hrest⟩ := hlist
  have hnames' := List.append_cancel_right (List.cons.inj hrest).2
  cases k
  cases l
  rw [RuleKey.mk.injEq]
  exact ⟨String.toList_inj.1 hnames, String.toList_inj.1 hnames'⟩

/-- The rules of a set with names without commas are told by their labels. -/
theorem RuleSet.eq_of_label_eq {rules : RuleSet} {other : Rule} (hrule : rules.Contains rule)
    (hother : rules.Contains other) (hleft : ',' ∉ rule.left.name.toList)
    (hright : ',' ∉ rule.right.name.toList) (h : rule.label = other.label) : rule = other := by
  have hkey : rule.key = other.key := by
    refine RuleKey.eq_of_text_eq ?_ ?_ h <;> rw [Rule.key, RuleKey.of] <;> split <;> assumption
  rw [Contains, hkey] at hrule
  exact Option.some.inj (hrule.symm.trans hother)

namespace Tally

variable {before after : Tally}

/-! ### Counts -/

/-- The number of interactions that are counted under a name. -/
def interactionsBy (t : Tally) (name : String) : Nat :=
  ((t.byRule.get? name).map RuleTally.interactions).getD 0

@[simp] theorem interactionsBy_record (t : Tally) (label : String) (took : Duration)
    (name : String) : (t.record label took).interactionsBy name =
      t.interactionsBy name + if label = name then 1 else 0 := by
  rw [interactionsBy, record, OrderedMap.get?_upsert]
  by_cases hname : label = name
  · subst hname
    rw [if_pos rfl, if_pos rfl, interactionsBy]
    cases t.byRule.get? label <;> rfl
  · rw [if_neg hname, if_neg (Ne.symm hname)]
    rfl

@[simp] theorem interactionsBy_recordReplan (t : Tally) (label name : String) :
    (t.recordReplan label).interactionsBy name = t.interactionsBy name := by
  rw [interactionsBy, recordReplan, OrderedMap.get?_upsert]
  by_cases hname : name = label
  · subst hname
    rw [if_pos rfl, interactionsBy]
    cases t.byRule.get? name <;> rfl
  · rw [if_neg hname]
    rfl

/-- A tally counts interactions on top of another one, each under the label of its rule. -/
def Counts (before after : Tally) (jobs : List (ActivePair × Rule)) : Prop :=
  ∀ name, after.interactionsBy name =
    before.interactionsBy name + jobs.countP fun job => job.2.label = name

/-- What happens adds to the number under a name when it is an interaction with that label. -/
theorem interactionsBy_count (t : Tally) (event : Event) (name : String) :
    (t.count event).interactionsBy name =
      t.interactionsBy name + if event.label? = some name then 1 else 0 := by
  cases event with
  | interaction label took =>
    simp only [count, interactionsBy_record, Event.label?, Option.some.injEq]
  | replan label => exact interactionsBy_recordReplan t label name
  | round => rfl
  | run took => rfl

theorem interactionsBy_foldl (events : List Event) (t : Tally) (name : String) :
    (events.foldl count t).interactionsBy name =
      t.interactionsBy name + (events.filterMap Event.label?).count name := by
  induction events generalizing t with
  | nil => rfl
  | cons event rest ih =>
    rw [List.foldl_cons, ih, interactionsBy_count, List.filterMap_cons]
    cases event.label? with
    | none => simp
    | some label => simp [List.count_cons, Nat.add_assoc, Nat.add_comm]

theorem Enters.counts (h : before.Enters after jobs) : before.Counts after jobs := by
  obtain ⟨events, rfl, hlabels⟩ := h
  intro name
  rw [interactionsBy_foldl, hlabels, List.count, List.countP_map]
  rfl

end Tally

namespace Reducer

theorem counts_leaveAll (hempty : ∀ rule ∈ r.rules.rules, rule.replacement.net.tally = .empty)
    (calls : List Call) (net : Net) :
    net.tally.Counts (r.leaveAll calls net).tally (r.madeAll calls net) :=
  ((isLedger_enters hempty).leaveAll calls net).counts

/-! ### Attribution -/

/-- Of the elements with one property, all have another one if there are as many of them. -/
private theorem countP_eq_iff {α : Type} {l : List α} {p q : α → Bool} (h : ∀ a, q a → p a) :
    l.countP p = l.countP q ↔ ∀ a ∈ l, p a → q a := by
  have hq : l.countP q = (l.filter p).countP q := by
    rw [List.countP_filter]
    exact List.countP_congr fun a _ => by simpa using h a
  rw [hq, List.countP_eq_length_filter, eq_comm, List.countP_eq_length]
  simp only [List.mem_filter, and_imp]

/-- **Interactions by each rule.** When a reducer has served some calls on a net without a tally,
the number under a name is the number of interactions that were made by all rules with that label.
So the number under the label of a rule is the number of its own interactions exactly when no other
rule with the label was used. This is so for every rule whose names have no comma. The interactions
are those by the rules that are looked up for their pairs, and they leave what the calls leave. -/
theorem interactionsBy_label {list : List Rule} (hrules : ofList list = .ok r.rules)
    (haccepted : ∀ rule ∈ list, rule.Accepted) (hnet : net.tally = .empty) (calls : List Call) :
    (∀ name, (r.leaveAll calls net).tally.interactionsBy name =
        (r.madeAll calls net).countP fun job => job.2.label = name) ∧
      (∀ rule, (r.leaveAll calls net).tally.interactionsBy rule.label =
          ((r.madeAll calls net).countP fun job => job.2 = rule) ↔
        ∀ job ∈ r.madeAll calls net, job.2.label = rule.label → job.2 = rule) ∧
      (∀ rule ∈ list, ',' ∉ rule.left.name.toList → ',' ∉ rule.right.name.toList →
        (r.leaveAll calls net).tally.interactionsBy rule.label =
          (r.madeAll calls net).countP fun job => job.2 = rule) ∧
      (∀ job ∈ r.madeAll calls net, r.rules.ruleFor job.1 = some job.2) ∧
      (net.WellFormed → (r.leaveAll calls net).IsLeftBy (r.madeAll calls net) net) := by
  have haccepted' : ∀ rule ∈ r.rules.rules, rule.Accepted := by rwa [rules_ofList hrules]
  have hcount : ∀ name, (r.leaveAll calls net).tally.interactionsBy name =
      (r.madeAll calls net).countP fun job => job.2.label = name := by
    intro name
    have hcounts := counts_leaveAll (fun rule hrule => (haccepted' rule hrule).tally_eq_empty)
      calls net name
    rw [hcounts, hnet]
    exact Nat.zero_add _
  have hown : ∀ rule, (r.leaveAll calls net).tally.interactionsBy rule.label =
        ((r.madeAll calls net).countP fun job => job.2 = rule) ↔
      ∀ job ∈ r.madeAll calls net, job.2.label = rule.label → job.2 = rule := by
    intro rule
    rw [hcount, countP_eq_iff]
    · simp only [decide_eq_true_eq]
    · intro job hjob
      simp only [decide_eq_true_eq] at hjob ⊢
      rw [hjob]
  refine ⟨hcount, hown, fun rule hrule hleft hright => (hown rule).2 fun job hjob hlabel => ?_,
    fun job => ruleFor_of_mem_madeAll, fun h => isLeftBy_madeAll haccepted' h calls⟩
  exact (eq_of_label_eq (contains_of_ofList hrules hrule)
    (contains_of_ruleFor (ruleFor_of_mem_madeAll hjob)) hleft hright hlabel.symm).symm

/-- Two pairs of agents with one port each. -/
def unitPairs (a b c d : String) : Net :=
  (Operation.connectInterface [0, 2] [1, 3]).perform
    ((((Net.single ⟨a, 1⟩).newAgent ⟨b, 1⟩).2.newAgent ⟨c, 1⟩).2.newAgent ⟨d, 1⟩).2

/-- The rules by which the agents of two such pairs annihilate. -/
def unitPairRules (a b c d : String) : List Rule :=
  [⟨⟨a, 1⟩, ⟨b, 1⟩, .empty⟩, ⟨⟨c, 1⟩, ⟨d, 1⟩, .empty⟩]

theorem accepted_unitPairRules (a b c d : String) :
    ∀ rule ∈ unitPairRules a b c d, rule.Accepted := by
  intro rule hrule
  obtain rfl | rfl : rule = ⟨⟨a, 1⟩, ⟨b, 1⟩, .empty⟩ ∨ rule = ⟨⟨c, 1⟩, ⟨d, 1⟩, .empty⟩ := by
    simpa [unitPairRules] using hrule
  · exact ⟨⟨a, 1⟩, ⟨b, 1⟩, Replacement.empty, wellFormed_empty, rfl⟩
  · exact ⟨⟨c, 1⟩, ⟨d, 1⟩, Replacement.empty, wellFormed_empty, rfl⟩

/-- A reducer that stops no times. -/
def ofRules (rules : List Rule) : Reducer :=
  ⟨(ofList rules).toOption.getD .empty, .stopped⟩

/-- A step and a round make one interaction by each of two rules, and one is counted for each. -/
theorem interactionsBy_label_units :
    (unitPairRules "X" "X" "Y" "X").map (fun rule =>
      ((ofRules (unitPairRules "X" "X" "Y" "X")).leaveAll [.step, .round none]
        (unitPairs "X" "X" "X" "Y")).tally.interactionsBy rule.label) = [1, 1] := by
  have hrules : ofList (unitPairRules "X" "X" "Y" "X") =
      .ok (ofRules (unitPairRules "X" "X" "Y" "X")).rules := by decide +kernel
  have hnet : (unitPairs "X" "X" "X" "Y").tally = .empty := by decide +kernel
  have hplain : ∀ rule ∈ unitPairRules "X" "X" "Y" "X",
      ',' ∉ rule.left.name.toList ∧ ',' ∉ rule.right.name.toList := by decide +kernel
  obtain ⟨-, -, hown, -⟩ := interactionsBy_label hrules (accepted_unitPairRules _ _ _ _) hnet
    [.step, .round none]
  rw [List.map_congr_left fun rule hrule =>
    hown rule hrule (hplain rule hrule).1 (hplain rule hrule).2]
  decide +kernel

/-- Two rules of a set with one label: one interaction is made by each of them, and two are counted
under the label of either. -/
theorem interactionsBy_commaRules :
    ofList (unitPairRules "a" "b, c" "a, b" "c") =
        .ok (ofRules (unitPairRules "a" "b, c" "a, b" "c")).rules ∧
      ∀ rule ∈ unitPairRules "a" "b, c" "a, b" "c",
        (((ofRules (unitPairRules "a" "b, c" "a, b" "c")).madeAll [.reduce 2]
          (unitPairs "a" "b, c" "a, b" "c")).countP fun job => job.2 = rule) = 1 ∧
        ((ofRules (unitPairRules "a" "b, c" "a, b" "c")).leaveAll [.reduce 2]
          (unitPairs "a" "b, c" "a, b" "c")).tally.interactionsBy rule.label = 2 := by
  decide +kernel

end Reducer

end InteractionNets
