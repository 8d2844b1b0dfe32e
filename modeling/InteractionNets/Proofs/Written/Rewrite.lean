import InteractionNets.Proofs.Written.Merging

/-!
# Interactions of nets that are written down

An interaction of two cells whose first names are the same puts the cells of the rule in their
place (`Net.Merges.exists_reduces`). The slots of the pattern have the names that the two cells had
for them, and the connections inside get names that were not used.
-/

namespace InteractionNets

open Net

namespace Net

variable {N : Type} {net after : Net} {rules : RuleSet} {rule : Rule} {roles : Side → AgentId}
  {labels : List (PortId × Nat)} {old : PortId → N} {new : Slot ⊕ PortId → N}

variable (old new) in
/-- An agent of the rewritten diagram has a name for every port. -/
private theorem exists_named_of_symbol (h : net.WellFormed) (hv : rule.Valid)
    {c : AgentId ⊕ AgentId} {symbol : Symbol} {k : Nat}
    (hc : (net.rewritten rule roles labels).symbol c = some symbol) (hk : k < symbol.arity) :
    ∃ n, net.NamedAt rule labels old new (.port c k) n := by
  have hlive : ((net.rewritten rule roles labels).symbol c).isSome := by
    rw [hc]
    rfl
  rcases c with a | b
  · rw [Diagram.symbol_rewrite_inl (isSome_symbol_rewritten_inl.1 hlive).1] at hc
    obtain ⟨data, hdata, rfl⟩ := Option.map_eq_some_iff.1 hc
    rw [← h.arity hdata, ← portsOf_eq hdata] at hk
    exact ⟨_, .host (List.getElem?_eq_getElem hk)⟩
  · obtain ⟨data, hdata, rfl⟩ := Option.map_eq_some_iff.1 hc
    rw [← hv.wellFormed.arity hdata, ← portsOf_eq hdata] at hk
    exact ⟨_, .fresh (List.getElem?_eq_getElem hk)⟩

/-- The agents outside of a redex are the remaining ones. -/
private theorem mem_rest_iff (h : net.WellFormed) {left right : Agent} {rest : List Agent}
    (hagents : net.agentList.Perm (left :: right :: rest)) (hleft : roles .left = left.id)
    (hright : roles .right = right.id) {a : AgentId} :
    a ∈ rest.map Agent.id ↔ (∀ side, a ≠ roles side) ∧ (net.agent? a).isSome := by
  have hids := h.nodup_map_id hagents
  simp only [List.map_cons, List.nodup_cons, List.mem_cons, not_or] at hids
  obtain ⟨⟨-, hleftRest⟩, hrightRest, -⟩ := hids
  rw [← h.mem_map_id_iff hagents, List.map_cons, List.map_cons, List.mem_cons, List.mem_cons,
    ← hleft, ← hright]
  constructor
  · intro ha
    refine ⟨?_, .inr (.inr ha)⟩
    rintro (_ | _) rfl
    · exact hleftRest (hleft ▸ ha)
    · exact hrightRest (hright ▸ ha)
  · rintro ⟨hne, rfl | rfl | ha⟩
    · exact absurd rfl (hne .left)
    · exact absurd rfl (hne .right)
    · exact ha

section After

variable {labels' : List (PortId × Nat)} {f : AgentId ⊕ AgentId → AgentId}
  {g : AgentId → AgentId ⊕ AgentId}
  (hiso : (net.rewritten rule roles labels).IsIso (after.diagram labels') f g)

include hiso

/-- The agents after an interaction are those of the rewritten diagram. -/
private theorem live_after {a : AgentId} {data : Agent} (ha : after.agent? a = some data) :
    (net.rewritten rule roles labels).symbol (g a) = some data.symbol ∧ f (g a) = a := by
  have hsymbol : (after.diagram labels').symbol a = some data.symbol :=
    congrArg (Option.map Agent.symbol) ha
  have hlive : ((after.diagram labels').symbol a).isSome := by
    rw [hsymbol]
    rfl
  exact ⟨(hiso.backward.symbol hlive).trans hsymbol, hiso.backward.inverse hlive⟩

variable (old new) in
/-- The ports after an interaction can be named like the points of the rewritten diagram. -/
private theorem exists_name_after (h : net.WellFormed) (hv : rule.Valid)
    (hafter : after.WellFormed) : ∃ name : PortId → N, ∀ {a k r},
      (after.portsOf a)[k]? = some r →
        net.NamedAt rule labels old new (.port (g a) k) (name r) := by
  have hall : ∀ r, ∃ n, ∀ a k, (after.portsOf a)[k]? = some r →
      net.NamedAt rule labels old new (.port (g a) k) n := by
    intro r
    by_cases hr : (after.port? r).isSome
    · obtain ⟨a, k, hk⟩ := hafter.port?_isSome_iff.1 hr
      obtain ⟨data, hdata⟩ := Option.isSome_iff_exists.1 (isSome_agent?_of_getElem? hk)
      have hlt : k < data.symbol.arity := by
        rw [← hafter.arity hdata, ← portsOf_eq hdata]
        exact (List.getElem?_eq_some_iff.1 hk).1
      obtain ⟨n, hn⟩ := exists_named_of_symbol old new h hv
        (live_after hiso hdata).1 hlt
      refine ⟨n, fun b j hj => ?_⟩
      obtain ⟨rfl, rfl⟩ := hafter.port_unique hk hj
      exact hn
    · refine ⟨old 0, fun a k hk => ?_⟩
      exact absurd (hafter.port?_isSome_iff.2 ⟨a, k, hk⟩) hr
  choose name hname using hall
  exact ⟨name, fun hk => hname _ _ _ hk⟩

variable (hmerges : net.Merges rule roles old new) (hr : net.IsRedex rule roles)
  (h : net.WellFormed) (hv : rule.Valid) (hl : net.IsLabelling labels)
  (hafter : after.WellFormed) {name : PortId → N}
  (hname : ∀ {a k r}, (after.portsOf a)[k]? = some r →
    net.NamedAt rule labels old new (.port (g a) k) (name r))

include hname

omit hname in
/-- A port after an interaction stands at a point that is still there. -/
private theorem not_isGone_after {a : AgentId} {k : Nat} {r : PortId}
    (hk : (after.portsOf a)[k]? = some r) :
    ¬ (Point.port (g a) k : Point Nat (AgentId ⊕ AgentId)).IsGone roles := by
  obtain ⟨data, hdata⟩ := Option.isSome_iff_exists.1 (isSome_agent?_of_getElem? hk)
  refine Diagram.not_isGone_of_isLive (D := net.diagram labels) (T := rule.template) ?_
  show Option.isSome _
  rw [(live_after hiso hdata).1]
  rfl

include hmerges hr h hv hl hafter

/-- The names of the points are a naming of the net afterwards. -/
private theorem isNaming_after : after.IsNaming name := by
  intro r s hlive hlive'
  obtain ⟨a, j, hr'⟩ := hafter.port?_isSome_iff.1 hlive
  obtain ⟨b, k, hs'⟩ := hafter.port?_isSome_iff.1 hlive'
  have ha := isSome_agent?_of_getElem? hr'
  have hb := isSome_agent?_of_getElem? hs'
  have hdrawn : (after.diagram labels').joined (.port a j) (.port b k) ↔ after.Joined r s :=
    diagram_joined_port_iff hr' hs'
  have hjoined : after.Joined r s ↔
      (Point.port (g a) j : Point Nat (AgentId ⊕ AgentId)) ≠ .port (g b) k ∧ name r = name s := by
    rw [← hdrawn,
      hiso.symm.joined_iff (x := .port a j) (y := .port b k) (isSome_symbol_draw.2 ha)
        (isSome_symbol_draw.2 hb)]
    exact hmerges.joined_rewritten_iff hr h hv hl (hname hr') (hname hs')
      (not_isGone_after hiso hr') (not_isGone_after hiso hs')
  have hsame : (Point.port (g a) j : Point Nat (AgentId ⊕ AgentId)) = .port (g b) k → r = s := by
    intro heq
    obtain ⟨hagent, rfl⟩ := Point.port.inj heq
    obtain rfl := hiso.backward.injective (isSome_symbol_draw.2 ha) (isSome_symbol_draw.2 hb) hagent
    exact Option.some.inj (hr'.symm.trans hs')
  rw [hjoined]
  constructor
  · intro heq
    by_cases hpoint : (Point.port (g a) j : Point Nat (AgentId ⊕ AgentId)) = .port (g b) k
    · exact .inl (hsame hpoint)
    · exact .inr ⟨hpoint, heq⟩
  · rintro (rfl | ⟨-, heq⟩)
    · rfl
    · exact heq

omit hmerges hr h hv in
/-- An agent of the rewritten diagram is an agent afterwards, with the names of its points. -/
private theorem exists_agent_after {c : AgentId ⊕ AgentId} {cell : Cell N}
    (hc : (net.rewritten rule roles labels).symbol c = some cell.symbol)
    (hlength : cell.wires.length = cell.symbol.arity)
    (hwires : ∀ {k n}, cell.wires[k]? = some n → net.NamedAt rule labels old new (.port c k) n) :
    ∃ data, after.agent? (f c) = some data ∧ Cell.of name data = cell := by
  have hlive : ((net.rewritten rule roles labels).symbol c).isSome := by
    rw [hc]
    rfl
  have hsymbol := (hiso.forward.symbol hlive).trans hc
  obtain ⟨data, hdata, heq⟩ := Option.map_eq_some_iff.1 hsymbol
  have hback := hiso.forward.inverse hlive
  have hports : data.ports.map name = cell.wires := by
    refine List.ext_getElem? fun k => ?_
    rcases Nat.lt_or_ge k cell.wires.length with hk | hk
    · have hk' : k < data.ports.length := by rwa [hafter.arity hdata, heq, ← hlength]
      have hnamed := hname (a := f c) (k := k) (r := data.ports[k])
        (by rw [portsOf_eq hdata, List.getElem?_eq_getElem hk'])
      rw [hback] at hnamed
      rw [List.getElem?_map, List.getElem?_eq_getElem hk', Option.map_some,
        hnamed.unique hl (hwires (List.getElem?_eq_getElem hk)), List.getElem?_eq_getElem hk]
    · have hk' : data.ports.length ≤ k := by rwa [hafter.arity hdata, heq, ← hlength]
      rw [List.getElem?_map, List.getElem?_eq_none hk', List.getElem?_eq_none hk, Option.map_none]
  exact ⟨data, hdata, by rw [Cell.of, heq, hports]⟩

omit hmerges hr in
/-- The agents that the rule puts in and those that stay, with the cells they have afterwards. -/
private theorem exists_cells_after {rest : List Agent} (hrest : ∀ data ∈ rest,
      net.agent? data.id = some data ∧ ∀ side, data.id ≠ roles side) :
    (∀ data ∈ rule.replacement.net.agentList, ∃ data',
      after.agent? (f (.inr data.id)) = some data' ∧
        Cell.of name data' = (Cell.of rule.wireAt data).map new) ∧
    ∀ data ∈ rest, ∃ data', after.agent? (f (.inl data.id)) = some data' ∧
      Cell.of name data' = .of old data := by
  constructor
  · intro data hdata
    have hlive := hv.wellFormed.mem_agentList_iff.1 hdata
    refine exists_agent_after hiso hl hafter hname (congrArg (Option.map Agent.symbol) hlive) ?_ ?_
    · rw [Cell.map_of, Cell.of, List.length_map, hv.wellFormed.arity hlive]
    · intro k n hk
      rw [Cell.map_of, Cell.of, List.getElem?_map, Option.map_eq_some_iff] at hk
      obtain ⟨p, hp, rfl⟩ := hk
      exact .fresh (by rwa [portsOf_eq hlive])
  · intro data hdata
    obtain ⟨hlive, hne⟩ := hrest data hdata
    refine exists_agent_after hiso hl hafter hname ?_ ?_ ?_
    · rw [Diagram.symbol_rewrite_inl hne]
      exact congrArg (Option.map Agent.symbol) hlive
    · rw [Cell.of, List.length_map, h.arity hlive]
    · intro k n hk
      rw [Cell.of, List.getElem?_map, Option.map_eq_some_iff] at hk
      obtain ⟨p, hp, rfl⟩ := hk
      exact .host (by rwa [portsOf_eq hlive])

omit hafter in
/-- A place has the port of the same name afterwards. -/
private theorem mem_labels_after {p r : PortId} {i : Nat} (hp : (p, i) ∈ labels) {a : AgentId}
    {k : Nat} (hk : (after.portsOf a)[k]? = some r) : (r, i) ∈ labels' ↔ old p = name r := by
  have hjoined := hmerges.joined_rewritten_iff hr h hv hl (.place hp) (hname hk) id
    (not_isGone_after hiso hk)
  rw [← diagram_joined_place_iff hk,
    hiso.symm.joined_iff (x := .place i) (y := .port a k) trivial
      (isSome_symbol_draw.2 (isSome_agent?_of_getElem? hk))]
  exact hjoined.trans (and_iff_right (by simp))

/-- The places keep their names, if there are ports of these names afterwards. -/
private theorem interface_after (hl' : after.IsLabelling labels')
    (hkeep : ∀ p ∈ net.interface, ∃ r, (after.port? r).isSome ∧ name r = old p) :
    after.interface.map name = net.interface.map old := by
  have hlabels : labels.map Prod.snd = labels'.map Prod.snd := by
    refine hl.sorted.eq_of_mem_iff hl'.sorted fun i => ?_
    simp only [List.mem_map, Prod.exists, exists_eq_right]
    constructor
    · rintro ⟨p, hp⟩
      obtain ⟨r, hr', heq⟩ := hkeep p (hl.mem_interface hp)
      obtain ⟨a, k, hk⟩ := hafter.port?_isSome_iff.1 hr'
      exact ⟨r, (mem_labels_after hiso hmerges hr h hv hl hname hp hk).2 heq.symm⟩
    · rintro ⟨r, hi⟩
      obtain ⟨a, k, hk⟩ :=
        hafter.port?_isSome_iff.1 (hafter.isSome_of_mem_interface (hl'.mem_interface hi))
      have hjoined := hiso.backward.joined ((diagram_joined_place_iff hk).2 hi)
      obtain ⟨z, ⟨u, v, huv, hu, -⟩ | ⟨u, v, -, hu, -⟩⟩ := hjoined.exists_head
      · obtain _ | ⟨hp, -⟩ | _ | ⟨hnone, -⟩ := huv <;> cases hu
        · exact ⟨_, hp⟩
        · exact hnone.elim
      · cases u <;> cases hu
  have hnames := forall₂_of_labels (R := fun r p => name r = old p) hlabels.symm
    fun r p i hi hp => by
      obtain ⟨a, k, hk⟩ :=
        hafter.port?_isSome_iff.1 (hafter.isSome_of_mem_interface (hl'.mem_interface hi))
      exact ((mem_labels_after hiso hmerges hr h hv hl hname hp hk).1 hi).symm
  rw [hl.ports, hl'.ports] at hnames
  rw [← List.forall₂_eq_eq_eq, List.forall₂_map_left_iff, List.forall₂_map_right_iff]
  exact hnames

variable {left right : Agent} {rest : List Agent}
  (hagents : net.agentList.Perm (left :: right :: rest)) (hleft : roles .left = left.id)
  (hright : roles .right = right.id)

include hagents hleft hright

omit hmerges hr hl hname in
/-- The agents afterwards are those that the rule puts in and those that stay. -/
private theorem perm_after : (after.agentList.map Agent.id).Perm
    ((rule.replacement.net.agentList.map (Sum.inr ∘ Agent.id) ++
      rest.map (Sum.inl ∘ Agent.id)).map f) := by
  have hmem : ∀ c, c ∈ rule.replacement.net.agentList.map (Sum.inr ∘ Agent.id) ++
      rest.map (Sum.inl ∘ Agent.id) ↔ ((net.rewritten rule roles labels).symbol c).isSome := by
    rintro (a | b)
    · rw [isSome_symbol_rewritten_inl, ← mem_rest_iff h hagents hleft hright]
      simp
    · rw [isSome_symbol_rewritten_inr, ← hv.wellFormed.mem_map_id_iff (.refl _)]
      simp
  refine (List.perm_ext_iff_of_nodup hafter.nodup_map_id_agentList ?_).2 fun a => ?_
  · refine List.Nodup.map_on (fun c hc d hd => ?_) (List.Nodup.append ?_ ?_ ?_)
    · exact hiso.forward.injective ((hmem c).1 hc) ((hmem d).1 hd)
    · rw [← List.map_map]
      exact hv.wellFormed.nodup_map_id_agentList.map Sum.inr_injective
    · rw [← List.map_map]
      have hids := h.nodup_map_id hagents
      exact (List.nodup_cons.1 (List.nodup_cons.1 hids).2).2.map Sum.inl_injective
    · simp [List.disjoint_left]
  · rw [hafter.mem_map_id_iff (.refl _)]
    constructor
    · intro ha
      obtain ⟨data, hdata⟩ := Option.isSome_iff_exists.1 ha
      obtain ⟨hsymbol, hback⟩ := live_after hiso hdata
      exact List.mem_map.2 ⟨g a, (hmem _).2 (by rw [hsymbol]; rfl), hback⟩
    · intro ha
      obtain ⟨c, hc, rfl⟩ := List.mem_map.1 ha
      exact isSome_symbol_draw.1 (hiso.forward.isSome_symbol ((hmem c).1 hc))

omit hmerges hr in
/-- The cells of the net afterwards are those of the rule and those of the agents that stay. -/
private theorem exists_agents_after :
    ∃ agents, after.agentList.Perm agents ∧ agents.map (Cell.of name) =
      rule.cells.map (Cell.map new) ++ rest.map (Cell.of old) := by
  have hrest : ∀ data ∈ rest, net.agent? data.id = some data ∧ ∀ side, data.id ≠ roles side :=
    fun data hdata => ⟨(h.mem_agents_iff hagents).1 (by simp [hdata]),
      ((mem_rest_iff h hagents hleft hright).1 (List.mem_map_of_mem hdata)).1⟩
  obtain ⟨hnew, hold⟩ := exists_cells_after hiso h hv hl hafter hname hrest
  let agentAt : AgentId → Agent := fun a => (after.agent? a).getD default
  have hself : (after.agentList.map Agent.id).map agentAt = after.agentList := by
    rw [List.map_map]
    refine (List.map_congr_left fun data hdata => ?_).trans (List.map_id _)
    have hlive := hafter.mem_agentList_iff.1 hdata
    simp only [Function.comp_apply, agentAt, hlive, Option.getD_some, id]
  have hperm := (perm_after hiso h hv hafter hagents hleft hright).map agentAt
  rw [hself] at hperm
  refine ⟨_, hperm, ?_⟩
  rw [List.map_map, List.map_map, List.map_append, List.map_map, List.map_map, Rule.cells,
    List.map_map]
  refine congrArg₂ (· ++ ·) (List.map_congr_left fun data hdata => ?_)
    (List.map_congr_left fun data hdata => ?_)
  · obtain ⟨data', hdata', hcell⟩ := hnew data hdata
    simp only [Function.comp_apply, agentAt, hdata', Option.getD_some, hcell]
  · obtain ⟨data', hdata', hcell⟩ := hold data hdata
    simp only [Function.comp_apply, agentAt, hdata', Option.getD_some, hcell]

end After

/-- **What an interaction makes of the cells.** When names can be merged, and those on the interface
stay different from each other and do not get lost, the agents of a redex interact, and the cells of
the rule take their place. -/
theorem Merges.exists_reduces (hmerges : net.Merges rule roles old new)
    (hr : net.IsRedex rule roles) (h : net.WellFormed) (hrules : rules.Lawful)
    (hrule : rules.Contains rule)
    {left right : Agent} {rest : List Agent}
    (hagents : net.agentList.Perm (left :: right :: rest)) (hleft : roles .left = left.id)
    (hright : roles .right = right.id) (hnodup : (net.interface.map old).Nodup)
    (hkeep : ∀ n ∈ net.interface.map old,
      n ∈ wiresOf (rule.cells.map (Cell.map new) ++ rest.map (Cell.of old))) :
    ∃ after, rules.Reduces 1 net after ∧
      after.Written (rule.cells.map (Cell.map new) ++ rest.map (Cell.of old))
        (net.interface.map old) := by
  have hv := hrules.valid hrule
  have hl := net.isLabelling_zipIdx
  have hplace : ∀ {i y}, (net.rewritten rule roles net.interface.zipIdx).joined (.place i) y →
      ∃ p, (p, i) ∈ net.interface.zipIdx := by
    intro i y hij
    obtain ⟨z, hz⟩ := hij.exists_head
    obtain ⟨n, hn, -⟩ := hmerges.exists_named hr h hv hz
    cases hn with
    | place hp => exact ⟨_, hp⟩
  -- two places with a path between them would have one name
  have hclash : ¬ (net.rewritten rule roles net.interface.zipIdx).HasClash := by
    rintro ⟨i, j, hne, hij⟩
    obtain ⟨p, hp⟩ := hplace hij
    obtain ⟨q, hq⟩ := hplace (Diagram.symm _ hij)
    have heq :=
      ((hmerges.joined_rewritten_iff hr h hv hl (.place hp) (.place hq) id id).1 hij).2
    obtain rfl := List.inj_on_of_nodup_map hnodup (hl.mem_interface hp) (hl.mem_interface hq) heq
    exact hne (hl.label_unique h hp hq)
  obtain ⟨after₀, hi₀⟩ := exists_interacts h hrules hrule (.refl roles) hr hl hclash
  obtain ⟨after, hreduces, hi⟩ := hi₀.exists_reduces h hrules
  obtain ⟨-, labels', f, g, hl', hiso, -⟩ := hi.exists_isIso h hrules hrule (.refl roles) hr hl
  have hafter := hi.wellFormed
  obtain ⟨name, hname⟩ := exists_name_after old new hiso h hv hafter
  obtain ⟨agents, hperm, hcells⟩ :=
    exists_agents_after hiso h hv hl hafter hname hagents hleft hright
  refine ⟨after, hreduces, hafter, name, agents,
    isNaming_after hiso hmerges hr h hv hl hafter hname, hperm, hcells, ?_⟩
  refine interface_after hiso hmerges hr h hv hl hafter hname hl' fun p hp => ?_
  have hmem := hkeep (old p) (List.mem_map_of_mem hp)
  rw [← hcells, wiresOf_map_of] at hmem
  obtain ⟨r, hr', heq⟩ := List.mem_map.1 hmem
  exact ⟨r, (hafter.mem_ports_iff hperm).1 hr', heq⟩

end Net

end InteractionNets
