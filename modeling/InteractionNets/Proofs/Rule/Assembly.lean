import InteractionNets.Proofs.Net.Edits
import InteractionNets.Proofs.Rule.Sets
import InteractionNets.Rule.Assembly

/-!
# Rules that are assembled by hand

The steps of an assembly keep nets well-formed, so a rule that is assembled from the empty net is an
accepted one. A set that is made from a list has the rules of the list and no others.
-/

namespace InteractionNets

/-- An edit keeps nets well-formed, whether or not it is refused. -/
def Edit.Keeps {α : Type} (edit : Edit α) : Prop :=
  ∀ {net : Net}, net.WellFormed → (edit.run net).2.WellFormed

namespace Edit.Keeps

variable {α β : Type}

theorem pure (a : α) : (Pure.pure a : Edit α).Keeps :=
  fun h => h

theorem bind {edit : Edit α} {next : α → Edit β} (hedit : edit.Keeps)
    (hnext : ∀ a, (next a).Keeps) : (edit >>= next).Keeps :=
  fun {net} => Net.followsWiring_wellFormed.bind (fun _ => hedit) (fun a _ => hnext a) net

end Edit.Keeps

namespace Assembly

theorem keeps_portAt (agent : AgentId) (position : Nat) : (portAt agent position).Keeps :=
  fun h => h

theorem keeps_agent (symbol : Symbol) : (agent symbol).Keeps :=
  fun h => h.newAgent symbol

theorem keeps_wire (a : AgentId) (i : Nat) (b : AgentId) (j : Nat) : (wire a i b j).Keeps :=
  Edit.Keeps.bind (keeps_portAt a i) fun p => Edit.Keeps.bind (keeps_portAt b j) fun q =>
    Edit.Keeps.bind (fun h => h.run_connect p q) fun _ => Edit.Keeps.pure ()

/-- A replacement that is assembled has a well-formed net. -/
theorem wellFormed_of_replacement {edit : Edit (List (Slot × PortId))} (hedit : edit.Keeps)
    {r : Replacement} (hr : replacement edit = .ok r) : r.net.WellFormed := by
  have hafter := hedit Net.wellFormed_empty
  have hbind : ∀ (ports : List (Slot × PortId)) (r : Replacement),
      (ports.foldl (fun r entry => r.bind entry.1 entry.2) r).net = r.net := by
    intro ports
    induction ports with
    | nil => exact fun r => rfl
    | cons entry rest ih => exact fun r => ih (r.bind entry.1 entry.2)
  rw [replacement, Edit.result] at hr
  rw [Edit.run] at hafter
  generalize edit .empty = out at hr hafter
  obtain ⟨fault | ports, after⟩ := out
  · cases hr
  · obtain rfl := Except.ok.inj hr
    rw [hbind]
    exact hafter

/-- A rule that is made from an assembled replacement is accepted. -/
theorem accepted_of_replacement {edit : Edit (List (Slot × PortId))} (hedit : edit.Keeps)
    {left right : Symbol} {rule : Rule}
    (hrule : (replacement edit >>= Rule.ofReplacement left right) = .ok rule) : rule.Accepted := by
  cases hr : replacement edit with
  | error fault =>
    rw [hr] at hrule
    cases hrule
  | ok r =>
    rw [hr] at hrule
    exact ⟨left, right, r, wellFormed_of_replacement hedit hr, hrule⟩

end Assembly

/-! ### Sets that are made from a list -/

namespace RuleSet

variable {rules : RuleSet} {list : List Rule}

theorem byKey_insertAll {start : RuleSet} (h : start.insertAll list = .ok rules) (key : RuleKey)
    (rule : Rule) : rules.byKey.get? key = some rule ↔
      start.byKey.get? key = some rule ∨ (rule ∈ list ∧ rule.key = key) := by
  induction list generalizing start with
  | nil =>
    obtain rfl := Except.ok.inj h
    simp
  | cons first rest ih =>
    rw [insertAll, insert] at h
    cases hfirst : start.byKey.get? first.key with
    | some other =>
      rw [hfirst] at h
      cases h
    | none =>
      rw [hfirst] at h
      rw [ih h, OrderedMap.get?_insert, List.mem_cons]
      by_cases hkey : key = first.key
      · subst hkey
        rw [if_pos rfl, hfirst, Option.some.injEq]
        constructor
        · rintro (rfl | ⟨hrest, hsame⟩)
          · exact .inr ⟨.inl rfl, rfl⟩
          · exact .inr ⟨.inr hrest, hsame⟩
        · rintro (hnone | ⟨rfl | hrest, hsame⟩)
          · cases hnone
          · exact .inl rfl
          · exact .inr ⟨hrest, hsame⟩
      · rw [if_neg hkey]
        refine or_congr_right (and_congr_left fun hsame => (or_iff_right ?_).symm)
        rintro rfl
        exact hkey hsame.symm

/-- A set that is made from a list has its rules. -/
theorem contains_of_ofList (h : ofList list = .ok rules) {rule : Rule} (hrule : rule ∈ list) :
    rules.Contains rule :=
  (byKey_insertAll h rule.key rule).2 (.inr ⟨hrule, rfl⟩)

/-- A set that is made from a list has no other rules. -/
theorem mem_of_mem_rules (h : ofList list = .ok rules) {rule : Rule} (hrule : rule ∈ rules.rules) :
    rule ∈ list := by
  obtain ⟨⟨key, _⟩, hentry, rfl⟩ := List.mem_map.1 hrule
  have hget := (lookup_eq_some_iff_mem rules.byKey.keys_nodup).2 hentry
  rcases (byKey_insertAll h key _).1 hget with hempty | ⟨hmem, -⟩
  · cases hempty
  · exact hmem

private theorem eq_map_of_mapM {makers : List (Except Fault Rule)}
    (h : makers.mapM id = .ok list) : makers = list.map .ok := by
  induction makers generalizing list with
  | nil =>
    obtain rfl := Except.ok.inj h
    rfl
  | cons made rest ih =>
    rw [List.mapM_cons] at h
    cases made with
    | error fault => cases h
    | ok rule =>
      cases hrest : rest.mapM id with
      | error fault =>
        rw [hrest] at h
        cases h
      | ok others =>
        rw [hrest] at h
        obtain rfl := Except.ok.inj h
        rw [List.map_cons, ih hrest]

/-- A set has the rules that are made for it, and no others. -/
theorem of_mapM {makers : List (Except Fault Rule)}
    (h : (makers.mapM id >>= ofList) = .ok rules) :
    (∀ made ∈ makers, ∃ rule, made = .ok rule ∧ rules.Contains rule) ∧
      ∀ rule ∈ rules.rules, .ok rule ∈ makers := by
  cases hmakers : makers.mapM id with
  | error fault =>
    rw [hmakers] at h
    cases h
  | ok list =>
    rw [hmakers] at h
    obtain rfl := eq_map_of_mapM hmakers
    refine ⟨fun made hmade => ?_, fun rule hrule => List.mem_map_of_mem (mem_of_mem_rules h hrule)⟩
    obtain ⟨rule, hrule, rfl⟩ := List.mem_map.1 hmade
    exact ⟨rule, rfl, contains_of_ofList h hrule⟩

end RuleSet

end InteractionNets
