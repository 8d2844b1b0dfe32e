import InteractionNets.Proofs.Written.Rewrite

/-!
# Cells that face each other

Two cells of a net face each other when their first names are the same. They interact, and the
cells of the rule take their place (`Net.Written.exists_reduces`). The cells of a rule without wires
between slots have the names of the slots and new ones (`Net.Written.exists_reduces_of_ports`).
-/

namespace InteractionNets

open Net Relation

/-- A rule puts nothing but a wire between two slots in the place of its agents. -/
structure Rule.IsWire (rule : Rule) (s t : Slot) : Prop where
  cells_eq_nil : rule.cells = []
  splice?_eq : ∀ u, rule.replacement.splice? u =
    if u = t then some (.wire s) else if u = s then some (.wire t) else none

namespace Net

variable {N : Type} {net : Net} {rules : RuleSet} {rule : Rule} {roles : Side → AgentId}
  {new : Slot ⊕ PortId → N}

/-- The name that two cells have for a slot. -/
def slotWire? (ls rs : List N) (s : Slot) : Option N :=
  match s.side with
  | .left => ls[s.index]?
  | .right => rs[s.index]?

/-- Names for a net with two cells that face each other and for the replacement net, once this is
put in: merging identifies the names of slots with a wire in between, and no others; a port that a
slot is reconnected to has the name of the slot, and the other names were not used. -/
structure MergesWires (rule : Rule) (ls rs used : List N) (merge : N → N)
    (new : Slot ⊕ PortId → N) : Prop where
  eq_of_wire : ∀ {s t m m'}, rule.replacement.splice? s = some (.wire t) →
    slotWire? ls rs s = some m → slotWire? ls rs t = some m' → merge m = merge m'
  wire_of_eq : ∀ {m m'}, m ∈ used → m' ∈ used → merge m = merge m' → m = m' ∨
    ∃ s t, rule.replacement.splice? s = some (.wire t) ∧ slotWire? ls rs s = some m ∧
      slotWire? ls rs t = some m'
  slot : ∀ {s m}, slotWire? ls rs s = some m → new (.inl s) = merge m
  fresh_injective : ∀ {p q}, new (.inr p) = new (.inr q) → p = q
  fresh_ne : ∀ {m q}, m ∈ used → merge m ≠ new (.inr q)

variable {n : N} {ls rs free : List N} {merge : N → N} {name : PortId → N} {left right : Agent}

section Facing

variable (h : net.WellFormed) (hname : net.IsNaming name)
  (hleft : net.agent? left.id = some left) (hright : net.agent? right.id = some right)
  (hls : left.ports.map name = n :: ls) (hrs : right.ports.map name = n :: rs)
  (hroles : roles .left = left.id) (hroles' : roles .right = right.id)

include hleft hright hls hrs hroles hroles'

/-- The port of a slot has the name that the cells have for the slot. -/
private theorem map_slotPort? (s : Slot) :
    (net.slotPort? roles s).map name = slotWire? ls rs s := by
  obtain ⟨side, index⟩ := s
  cases side with
  | left =>
    show (net.portsOf (roles .left))[index + 1]?.map name = ls[index]?
    rw [hroles, portsOf_eq hleft, ← List.getElem?_map, hls, List.getElem?_cons_succ]
  | right =>
    show (net.portsOf (roles .right))[index + 1]?.map name = rs[index]?
    rw [hroles', portsOf_eq hright, ← List.getElem?_map, hrs, List.getElem?_cons_succ]

include h hname

/-- Agents with the symbols of a rule whose first names are the same are a redex. -/
private theorem isRedex_of_facing (hne : left.id ≠ right.id) (hsymbol : left.symbol = rule.left)
    (hsymbol' : right.symbol = rule.right) : net.IsRedex rule roles := by
  obtain ⟨p, ps, hps, hp, -⟩ := List.map_eq_cons_iff.1 hls
  obtain ⟨q, qs, hqs, hq, -⟩ := List.map_eq_cons_iff.1 hrs
  have hfirst : (net.portsOf left.id)[0]? = some p := by rw [portsOf_eq hleft, hps]; rfl
  have hfirst' : (net.portsOf right.id)[0]? = some q := by rw [portsOf_eq hright, hqs]; rfl
  refine ⟨fun side => ?_, p, q, hroles ▸ hfirst, hroles' ▸ hfirst', ?_⟩
  · cases side with
    | left => exact ⟨left, hroles ▸ hleft, hsymbol⟩
    | right => exact ⟨right, hroles' ▸ hright, hsymbol'⟩
  · refine ((hname (h.port?_isSome_iff.2 ⟨_, _, hfirst⟩)
      (h.port?_isSome_iff.2 ⟨_, _, hfirst'⟩)).1 (hp.trans hq.symm)).resolve_left ?_
    rintro rfl
    exact hne (h.port_unique hfirst hfirst').1

/-- Names that can be merged for the cells can be merged for the ports. -/
private theorem merges_of_mergesWires {used : List N}
    (hused : ∀ {p}, (net.port? p).isSome → name p ∈ used)
    (hmerges : MergesWires rule ls rs used merge new) :
    net.Merges rule roles (merge ∘ name) new := by
  have hslot : ∀ {s p}, net.slotPort? roles s = some p → slotWire? ls rs s = some (name p) := by
    intro s p hp
    rw [← map_slotPort? hleft hright hls hrs hroles hroles', hp]
    rfl
  have hchain : ∀ {p q}, (net.port? p).isSome → (net.port? q).isSome → name p = name q →
      ReflTransGen (net.Bridged rule roles) p q := by
    intro p q hp hq heq
    rcases (hname hp hq).1 heq with rfl | hpq
    · exact .refl
    · exact .single (.joined hpq)
  -- names become one because of a wire only: its ends are bridged, and each name is a chain before
  refine ⟨?_, fun {p q} hp hq heq => ?_, fun hp => hmerges.slot (hslot hp),
    hmerges.fresh_injective, fun hp => hmerges.fresh_ne (hused hp)⟩
  · rintro p q (hpq | ⟨hst, hp, hq⟩)
    · exact congrArg merge (hname.eq_of_joined h hpq)
    · exact hmerges.eq_of_wire hst (hslot hp) (hslot hq)
  · rcases hmerges.wire_of_eq (hused hp) (hused hq) heq with heq | ⟨s, t, hst, hs, ht⟩
    · exact hchain hp hq heq
    · rw [← map_slotPort? hleft hright hls hrs hroles hroles'] at hs ht
      obtain ⟨p', hp', hpname⟩ := Option.map_eq_some_iff.1 hs
      obtain ⟨q', hq', hqname⟩ := Option.map_eq_some_iff.1 ht
      have hfirst := hchain hp (h.port?_isSome_iff.2 ⟨_, _, hp'⟩) hpname.symm
      have hlast := hchain (h.port?_isSome_iff.2 ⟨_, _, hq'⟩) hq hqname
      exact (hfirst.tail (.wired hst hp' hq')).trans hlast

end Facing

variable {rest : List (Cell N)}

/-- **Two cells that face each other interact**, and the cells of the rule take their place. -/
theorem Written.exists_reduces
    (hw : net.Written (⟨rule.left, n :: ls⟩ :: ⟨rule.right, n :: rs⟩ :: rest) free)
    (hrules : rules.Lawful) (hrule : rules.Contains rule)
    (hmerges : MergesWires rule ls rs
      (wiresOf (⟨rule.left, n :: ls⟩ :: ⟨rule.right, n :: rs⟩ :: rest)) merge new)
    (hnodup : (free.map merge).Nodup)
    (hkeep : ∀ m ∈ free.map merge,
      m ∈ wiresOf (rule.cells.map (Cell.map new) ++ rest.map (Cell.map merge))) :
    ∃ after, rules.Reduces 1 net after ∧
      after.Written (rule.cells.map (Cell.map new) ++ rest.map (Cell.map merge))
        (free.map merge) := by
  obtain ⟨name, agents, hname, hagents, hcells, rfl⟩ := hw.exists_agents
  have h := hw.wellFormed
  rw [← hcells] at hmerges
  obtain ⟨left, agents, rfl, hleft, htail⟩ := List.map_eq_cons_iff.1 hcells
  obtain ⟨right, others, rfl, hright, rfl⟩ := List.map_eq_cons_iff.1 htail
  obtain ⟨hleftSymbol, hls⟩ := Cell.mk.inj hleft
  obtain ⟨hrightSymbol, hrs⟩ := Cell.mk.inj hright
  have hleftLive : net.agent? left.id = some left := (h.mem_agents_iff hagents).1 (by simp)
  have hrightLive : net.agent? right.id = some right := (h.mem_agents_iff hagents).1 (by simp)
  have hne : left.id ≠ right.id := by
    have hids := h.nodup_map_id hagents
    rintro heq
    simp [heq] at hids
  obtain ⟨roles, hroles, hroles'⟩ :
      ∃ roles : Side → AgentId, roles .left = left.id ∧ roles .right = right.id :=
    ⟨fun | .left => left.id | .right => right.id, rfl, rfl⟩
  have hr : net.IsRedex rule roles := isRedex_of_facing h hname hleftLive hrightLive hls hrs hroles
    hroles' hne hleftSymbol hrightSymbol
  have hports : net.Merges rule roles (merge ∘ name) new :=
    merges_of_mergesWires h hname hleftLive hrightLive hls hrs hroles hroles'
      (h.name_mem_wiresOf hagents name) hmerges
  have hothers : (others.map (Cell.of name)).map (Cell.map merge) =
      others.map (Cell.of (merge ∘ name)) := by
    rw [List.map_map]
    exact List.map_congr_left fun data _ => Cell.map_of merge name data
  rw [hothers] at hkeep ⊢
  rw [List.map_map] at hnodup hkeep ⊢
  exact hports.exists_reduces hr h hrules hrule hagents hroles hroles' hnodup hkeep

/-! ### Slots and names -/

section Slots

variable {n m : Nat} {ls rs free : List Nat} {rest : List (Cell Nat)} {s : Slot}

theorem mem_of_slotWire? (hs : slotWire? ls rs s = some m) : m ∈ ls ++ rs := by
  obtain ⟨side, index⟩ := s
  cases side with
  | left => exact List.mem_append_left rs (List.mem_of_getElem? hs)
  | right => exact List.mem_append_right ls (List.mem_of_getElem? hs)

theorem exists_slotWire? (hm : m ∈ ls ++ rs) : ∃ s, slotWire? ls rs s = some m := by
  rcases List.mem_append.1 hm with hm | hm
  · obtain ⟨i, hi⟩ := List.mem_iff_getElem?.1 hm
    exact ⟨.left i, hi⟩
  · obtain ⟨i, hi⟩ := List.mem_iff_getElem?.1 hm
    exact ⟨.right i, hi⟩

variable (hw : net.Written (⟨rule.left, n :: ls⟩ :: ⟨rule.right, n :: rs⟩ :: rest) free)

include hw

/-- The slots of two cells are those of the rule. -/
private theorem mem_slots_of_slotWire? (hs : slotWire? ls rs s = some m) : s ∈ rule.slots := by
  have hleft := hw.length_wires (List.mem_cons_self ..)
  have hright := hw.length_wires (List.mem_cons_of_mem _ (List.mem_cons_self ..))
  simp only [List.length_cons] at hleft hright
  rw [Rule.mem_slots_iff, Symbol.auxArity]
  obtain ⟨side, index⟩ := s
  cases side with
  | left =>
    have hindex : index < ls.length := (List.getElem?_eq_some_iff.1 hs).1
    show index < rule.left.arity - 1
    omega
  | right =>
    have hindex : index < rs.length := (List.getElem?_eq_some_iff.1 hs).1
    show index < rule.right.arity - 1
    omega

/-- The names on the interface are names of slots or of other cells. -/
private theorem mem_slot_or_rest (hm : m ∈ free) :
    (∃ s ∈ rule.slots, slotWire? ls rs s = some m) ∨ m ∈ wiresOf rest := by
  have hne : m ≠ n := by
    rintro rfl
    have hcount := hw.count_le_two m
    have hfree := List.count_pos_iff.2 hm
    simp only [wiresOf_cons, List.count_append, List.count_cons_self] at hcount
    omega
  have hmem := hw.mem_wiresOf hm
  simp only [wiresOf_cons, List.mem_append, List.mem_cons, hne, false_or] at hmem
  refine (or_assoc.2 hmem).imp_left fun hcell => ?_
  obtain ⟨s, hs⟩ := exists_slotWire? (List.mem_append.2 hcell)
  exact ⟨s, mem_slots_of_slotWire? hw hs, hs⟩

end Slots

/-! ### Rules without wires -/

/-- The names of the cells of a rule, when two cells have names for the slots and there are new
names for the connections inside. -/
def putNames (ls rs : List Nat) (fresh : PortId → Nat) : Slot ⊕ PortId → Nat :=
  Sum.elim (fun s => (slotWire? ls rs s).getD 0) fresh

section Ports

variable {n : Nat} {ls rs free : List Nat} {rest : List (Cell Nat)} {fresh : PortId → Nat}

theorem putNames_inl {s : Slot} {m : Nat} (hs : slotWire? ls rs s = some m) :
    putNames ls rs fresh (.inl s) = m := by
  rw [putNames, Sum.elim_inl, hs]
  rfl

/-- The names of the slots are names in the cells of a rule without wires. -/
private theorem mem_wiresOf_of_slot (hv : rule.Valid)
    (hports : ∀ s t, rule.replacement.splice? s ≠ some (.wire t)) {s : Slot} (hs : s ∈ rule.slots) :
    .inl s ∈ wiresOf rule.cells := by
  obtain ⟨splice, hsplice⟩ := Option.isSome_iff_exists.1 (hv.splice_isSome.2 hs)
  cases splice with
  | wire t => exact absurd hsplice (hports s t)
  | port p =>
    rw [Rule.cells, Net.wiresOf_map_of, ← hv.wireAt_eq_inl_iff.2 hsplice]
    exact List.mem_map_of_mem ((hv.wellFormed.mem_ports_iff (.refl _)).2
      (hv.wellFormed.isFree_iff.1 (hv.port_free hsplice)).1)

/-- **A rule without wires** puts its cells in the place of two that face each other. The slots keep
their names, and the connections between the new agents get new ones. -/
theorem Written.exists_reduces_of_ports
    (hw : net.Written (⟨rule.left, n :: ls⟩ :: ⟨rule.right, n :: rs⟩ :: rest) free)
    (hrules : rules.Lawful) (hrule : rules.Contains rule)
    (hports : ∀ s t, rule.replacement.splice? s ≠ some (.wire t)) :
    ∃ after fresh, rules.Reduces 1 net after ∧
      after.Written (rule.cells.map (Cell.map (putNames ls rs fresh)) ++ rest) free := by
  -- the new names are those from the bound of the old ones on
  obtain ⟨bound, hbound⟩ :=
    exists_bound (wiresOf (⟨rule.left, n :: ls⟩ :: ⟨rule.right, n :: rs⟩ :: rest))
  have hmerges : MergesWires rule ls rs (wiresOf (⟨rule.left, n :: ls⟩ ::
      ⟨rule.right, n :: rs⟩ :: rest)) id (putNames ls rs (bound + ·)) := by
    refine ⟨fun hst => absurd hst (hports _ _), fun _ _ heq => .inl heq,
      fun hs => putNames_inl hs, fun heq => Nat.add_left_cancel heq, fun {m p} hm => ?_⟩
    exact Nat.ne_of_lt (Nat.lt_of_lt_of_le (hbound m hm) (Nat.le_add_right bound p))
  have hkeep : ∀ m ∈ free,
      m ∈ wiresOf (rule.cells.map (Cell.map (putNames ls rs (bound + ·))) ++ rest) := by
    intro m hm
    rw [wiresOf_append, List.mem_append]
    refine (mem_slot_or_rest hw hm).imp_left ?_
    rintro ⟨s, hslot, hs⟩
    have hname : putNames ls rs (bound + ·) (.inl s) = m := putNames_inl hs
    rw [wiresOf_map, ← hname]
    exact List.mem_map_of_mem (mem_wiresOf_of_slot (hrules.valid hrule) hports hslot)
  have hrest : rest.map (Cell.map id) = rest := map_cells_eq_self fun _ _ => rfl
  have hfree : free.map id = free := List.map_id free
  obtain ⟨after, hreduces, hafter⟩ := hw.exists_reduces hrules hrule hmerges
    (by rw [hfree]; exact hw.nodup_free) (by rw [hfree, hrest]; exact hkeep)
  rw [hfree, hrest] at hafter
  exact ⟨after, _, hreduces, hafter⟩

end Ports

/-! ### A wire -/

section Wire

variable {w m n : Nat} {ls rs free : List Nat} {rest : List (Cell Nat)} {s t : Slot}
  (hwire : rule.IsWire s t)

include hwire

private theorem ends_of_splice? {u v : Slot} (huv : rule.replacement.splice? u = some (.wire v)) :
    (u = t ∧ v = s) ∨ (u = s ∧ v = t) := by
  rw [hwire.splice?_eq] at huv
  split at huv
  · exact .inl ⟨‹_›, (Splice.wire.inj (Option.some.inj huv)).symm⟩
  · split at huv
    · exact .inr ⟨‹_›, (Splice.wire.inj (Option.some.inj huv)).symm⟩
    · cases huv

/-- A wire has no slots but its ends. -/
private theorem eq_or_eq_of_mem_slots (hv : rule.Valid) {u : Slot} (hu : u ∈ rule.slots) :
    u = t ∨ u = s := by
  obtain ⟨splice, hsplice⟩ := Option.isSome_iff_exists.1 (hv.splice_isSome.2 hu)
  rw [hwire.splice?_eq] at hsplice
  split at hsplice
  · exact .inl ‹_›
  · split at hsplice
    · exact .inr ‹_›
    · cases hsplice

variable (hs : slotWire? ls rs s = some m) (ht : slotWire? ls rs t = some n)

include hs ht

/-- The only names that a wire merges are those of its slots. -/
private theorem mergesWires_of_wire {used : List Nat} (hn : n ∈ used) {bound : Nat}
    (hbound : ∀ u ∈ used, u < bound) : MergesWires rule ls rs used (Function.update id m n)
      (Sum.elim (fun u => Function.update id m n ((slotWire? ls rs u).getD 0)) (bound + ·)) := by
  have hmerge : ∀ k, Function.update id m n k = if k = m then n else k := fun k =>
    Function.update_apply id m n k
  have hst : m ≠ n → rule.replacement.splice? s = some (.wire t) := by
    intro hne
    have hne' : s ≠ t := by
      rintro rfl
      exact hne (Option.some.inj (hs.symm.trans ht))
    rw [hwire.splice?_eq, if_neg hne', if_pos rfl]
  have hts : rule.replacement.splice? t = some (.wire s) := by rw [hwire.splice?_eq, if_pos rfl]
  refine ⟨fun {u v k k'} huv hu hv => ?_, fun {k k'} _ _ heq => ?_, fun hu => ?_,
    fun heq => Nat.add_left_cancel heq, fun {k q} hk => ?_⟩
  · rw [hmerge, hmerge]
    obtain ⟨rfl, rfl⟩ | ⟨rfl, rfl⟩ := ends_of_splice? hwire huv
    · obtain rfl := Option.some.inj (hu.symm.trans ht)
      obtain rfl := Option.some.inj (hv.symm.trans hs)
      simp
    · obtain rfl := Option.some.inj (hu.symm.trans hs)
      obtain rfl := Option.some.inj (hv.symm.trans ht)
      simp
  · rw [hmerge, hmerge] at heq
    by_cases hk : k = m <;> by_cases hk' : k' = m
    · exact .inl (hk.trans hk'.symm)
    · rw [if_pos hk, if_neg hk'] at heq
      subst hk heq
      exact .inr ⟨s, t, hst (Ne.symm hk'), hs, ht⟩
    · rw [if_neg hk, if_pos hk'] at heq
      subst hk' heq
      exact .inr ⟨t, s, hts, ht, hs⟩
    · rw [if_neg hk, if_neg hk'] at heq
      exact .inl heq
  · rw [Sum.elim_inl, hu]
    rfl
  · refine Nat.ne_of_lt (Nat.lt_of_lt_of_le ?_ (Nat.le_add_right bound q))
    rw [hmerge]
    split
    · exact hbound n hn
    · exact hbound k hk

/-- **A wire** identifies the names of its slots, if one of them occurs elsewhere. -/
theorem Written.exists_reduces_of_wire
    (hw : net.Written (⟨rule.left, w :: ls⟩ :: ⟨rule.right, w :: rs⟩ :: rest) free)
    (hrules : rules.Lawful) (hrule : rules.Contains rule) (hm : m ∈ wiresOf rest) :
    ∃ after, rules.Reduces 1 net after ∧
      after.Written (rest.map (Cell.map (Function.update id m n))) free := by
  -- the name occurs in a slot and elsewhere, so it is not on the interface
  have hne : ∀ k ∈ free, k ≠ m := by
    rintro k hk rfl
    have hcount := hw.count_le_two k
    have hslot := List.count_pos_iff.2 (mem_of_slotWire? hs)
    have hrest := List.count_pos_iff.2 hm
    have hfree := List.count_pos_iff.2 hk
    simp only [wiresOf_cons, List.count_append, List.count_cons] at hcount hslot
    omega
  have hmerged : free.map (Function.update id m n) = free :=
    (List.map_congr_left fun k hk => Function.update_of_ne (hne k hk) n id).trans
      (List.map_id free)
  have hkeep : ∀ k ∈ free, k ∈ wiresOf (rest.map (Cell.map (Function.update id m n))) := by
    intro k hk
    rw [wiresOf_map]
    rcases mem_slot_or_rest hw hk with ⟨u, hslot, hu⟩ | hrest
    · obtain rfl | rfl := eq_or_eq_of_mem_slots hwire (hrules.valid hrule) hslot
      · obtain rfl := Option.some.inj (hu.symm.trans ht)
        exact List.mem_map.2 ⟨m, hm, Function.update_self m k id⟩
      · exact absurd (Option.some.inj (hu.symm.trans hs)) (hne k hk)
    · exact List.mem_map.2 ⟨k, hrest, Function.update_of_ne (hne k hk) n id⟩
  have hn : n ∈ wiresOf (⟨rule.left, w :: ls⟩ :: ⟨rule.right, w :: rs⟩ :: rest) := by
    have hn := List.mem_append.1 (mem_of_slotWire? ht)
    simp only [wiresOf_cons, List.mem_append, List.mem_cons]
    tauto
  obtain ⟨bound, hbound⟩ :=
    exists_bound (wiresOf (⟨rule.left, w :: ls⟩ :: ⟨rule.right, w :: rs⟩ :: rest))
  obtain ⟨after, hreduces, hafter⟩ := hw.exists_reduces hrules hrule
    (mergesWires_of_wire hwire hs ht hn hbound) (by rw [hmerged]; exact hw.nodup_free)
    (by rw [hwire.cells_eq_nil, hmerged]; exact hkeep)
  rw [hwire.cells_eq_nil, hmerged] at hafter
  exact ⟨after, hreduces, hafter⟩

end Wire

end Net

end InteractionNets
