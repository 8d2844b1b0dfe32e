import InteractionNets.Proofs.Combinators.Copying

/-!
# Copying trees

A duplicator that is connected to the root of a tree of constructors and erasers makes two copies of
it, one in the place of each of its other ports, and each leaf of the tree is split by a duplicator
between the leaves of the copies (`Combinators.doubles_tree`).
-/

namespace InteractionNets.Combinators

open Net

variable {net : Net} {t : Tree} {root p x y : PortId} {agents : List Agent} {leaves : List PortId}
  {name : PortId → Nat}

/-- There is nothing in a well-formed net but a tree with agents and a duplicator. The principal
port of the duplicator is free. Its other two ports are on the interface with the leaves of the
tree, in any order. -/
structure HasDuplicator (net : Net) (t : Tree) (root : PortId) (leaves : List PortId)
    (p x y : PortId) : Prop where
  wellFormed : net.WellFormed
  ne_leaf : t ≠ .leaf
  isFree : net.IsFree p
  mem_left : x ∈ net.interface
  mem_right : y ∈ net.interface
  exists_draws : ∃ data agents, net.agentList.Perm (data :: agents) ∧ data.symbol = delta ∧
    data.ports = [p, x, y] ∧ Draws net t root agents leaves

/-- Some agents are duplicators that split some ports: the principal port of each is the next of the
ports, and its other ports are connected to the next of the first and of the second leaves. -/
inductive SplitsPorts (net : Net) :
    List PortId → List PortId → List PortId → List Agent → Prop
  | nil : SplitsPorts net [] [] [] []
  | cons {data : Agent} {p x y x' y' : PortId} {ports ps qs : List PortId} {agents : List Agent} :
      data.symbol = delta → data.ports = [p, x, y] → net.Joined x x' → net.Joined y y' →
      SplitsPorts net ports ps qs agents →
      SplitsPorts net (p :: ports) (x' :: ps) (y' :: qs) (data :: agents)

/-- There is nothing in a net but two copies of a tree, with the given roots, and a duplicator for
each of some ports, which splits it between the leaves of the copies. -/
def IsDoubled (net : Net) (t : Tree) (first second : PortId) (ports : List PortId) : Prop :=
  ∃ own other duplicators ps qs, net.agentList.Perm (own ++ other ++ duplicators) ∧
    Spans net t first own ps ∧ Spans net t second other qs ∧
    SplitsPorts net ports ps qs duplicators

/-! ### From cells to agents -/

/-- The ports of an agent that is written down with three names. -/
private theorem exists_ports_of_cell {data : Agent} {symbol : Symbol} {u v w : Nat}
    (hdata : Cell.of name data = ⟨symbol, [u, v, w]⟩) : data.symbol = symbol ∧
      ∃ p x y, data.ports = [p, x, y] ∧ name p = u ∧ name x = v ∧ name y = w := by
  obtain ⟨hsymbol, hports⟩ := Cell.mk.inj hdata
  simp only [List.map_eq_cons_iff, List.map_eq_nil_iff] at hports
  obtain ⟨p, _, hp, rfl, x, _, rfl, rfl, y, _, rfl, rfl, rfl⟩ := hports
  exact ⟨hsymbol, p, x, y, hp, rfl, rfl, rfl⟩

section Decoding

variable {w : Nat} {cells : List (Cell Nat)} {frees : List Nat}
  (hcells : agents.map (Cell.of name) = cells)

include hcells

/-- A tree that hangs from a port, from the tree. -/
private theorem IsTree.exists_hangs (h : IsTree t w cells frees) (hx : name x = w)
    (hjoined : ∀ q ∈ agents.flatMap Agent.ports, name x = name q → net.Joined x q)
    (hspans : t ≠ .leaf → ∃ root leaves, Spans net t root agents leaves ∧ name root = w ∧
      leaves.map name = frees) :
    ∃ root leaves, Hangs net t x root ∧ Spans net t root agents leaves ∧
      leaves.map name = frees := by
  by_cases ht : t = .leaf
  · subst ht
    cases h
    obtain rfl := List.map_eq_nil_iff.1 hcells
    exact ⟨x, [x], rfl, .leaf x, by rw [List.map_singleton, hx]⟩
  · obtain ⟨root, leaves, hspans, hroot, hleaves⟩ := hspans ht
    have hjoined := hjoined root (hspans.mem_ports ht (.inl rfl)) (hx.trans hroot.symm)
    exact ⟨root, leaves, (hangs_iff ht).2 hjoined, hspans, hleaves⟩

/-- Agents that are written down as a tree are a tree, when their ports of one name are joined. -/
theorem IsTree.exists_spans (h : IsTree t w cells frees) (ht : t ≠ .leaf)
    (hjoined : (agents.flatMap Agent.ports).Pairwise fun q r => name q = name r → net.Joined q r) :
    ∃ root leaves, Spans net t root agents leaves ∧ name root = w ∧ leaves.map name = frees := by
  induction h generalizing agents with
  | leaf _ => exact absurd rfl ht
  | eraser w =>
    obtain ⟨data, rfl, hdata⟩ := List.map_eq_singleton_iff.1 hcells
    obtain ⟨hsymbol, hports⟩ := Cell.mk.inj hdata
    obtain ⟨root, hroot, rfl⟩ := List.map_eq_singleton_iff.1 hports
    exact ⟨root, [], .eraser hsymbol hroot, rfl, rfl⟩
  | @fork k w left right x y xs ys ls rs hleft hright ihl ihr =>
    obtain ⟨data, _, rfl, hdata, hrest⟩ := List.map_eq_cons_iff.1 hcells
    obtain ⟨below, below', rfl, hbelow, hbelow'⟩ := List.map_eq_append_iff.1 hrest
    obtain ⟨hsymbol, root, x, y, hports, rfl, rfl, rfl⟩ := exists_ports_of_cell hdata
    rw [List.flatMap_cons, List.flatMap_append, hports] at hjoined
    obtain ⟨-, hjoined, hown⟩ := List.pairwise_append.1 hjoined
    obtain ⟨hl, hr, -⟩ := List.pairwise_append.1 hjoined
    obtain ⟨x', ps, hx, hps, rfl⟩ := hleft.exists_hangs hbelow rfl
      (fun q hq => hown x (by simp) q (List.mem_append_left _ hq)) fun ht => ihl hbelow ht hl
    obtain ⟨y', qs, hy, hqs, rfl⟩ := hright.exists_hangs hbelow' rfl
      (fun q hq => hown y (by simp) q (List.mem_append_right _ hq)) fun ht => ihr hbelow' ht hr
    exact ⟨root, ps ++ qs, .fork hsymbol hports hx hps hy hqs, rfl, List.map_append⟩

/-- Duplicators that are written down as splitting some names split ports with these names, when
their ports are joined to the leaves of the same names. -/
theorem Splits.exists_splitsPorts {ws us vs : List Nat} (h : Splits ws us vs cells)
    {ps qs : List PortId} (hps : ps.map name = us) (hqs : qs.map name = vs)
    (hjoined : ∀ q, q ∈ ps ∨ q ∈ qs → ∀ r ∈ agents.flatMap Agent.ports, name q = name r →
      net.Joined q r) :
    ∃ ports, SplitsPorts net ports ps qs agents ∧ ports.map name = ws := by
  induction h generalizing agents ps qs with
  | nil =>
    obtain rfl := List.map_eq_nil_iff.1 hcells
    obtain rfl := List.map_eq_nil_iff.1 hps
    obtain rfl := List.map_eq_nil_iff.1 hqs
    exact ⟨[], .nil, rfl⟩
  | cons w u v _ ih =>
    obtain ⟨data, agents, rfl, hdata, hrest⟩ := List.map_eq_cons_iff.1 hcells
    obtain ⟨x', ps, rfl, hx', hps⟩ := List.map_eq_cons_iff.1 hps
    obtain ⟨y', qs, rfl, hy', hqs⟩ := List.map_eq_cons_iff.1 hqs
    obtain ⟨hsymbol, p, x, y, hports, rfl, hx, hy⟩ := exists_ports_of_cell hdata
    rw [List.flatMap_cons, hports] at hjoined
    obtain ⟨ports, hsplits, hws⟩ := ih hrest hps hqs fun q hq r hr =>
      hjoined q (hq.imp (List.mem_cons_of_mem x') (List.mem_cons_of_mem y')) r
        (List.mem_append_right _ hr)
    have hxx' := hjoined x' (.inl List.mem_cons_self) x (by simp) (hx'.trans hx.symm)
    have hyy' := hjoined y' (.inr List.mem_cons_self) y (by simp) (hy'.trans hy.symm)
    exact ⟨p :: ports, .cons hsymbol hports hxx'.symm hyy'.symm hsplits,
      by rw [List.map_cons, hws]⟩

end Decoding

theorem SplitsPorts.mem_ports {ports ps qs : List PortId} (h : SplitsPorts net ports ps qs agents)
    (hp : p ∈ ports) : p ∈ agents.flatMap Agent.ports := by
  induction h with
  | nil => cases hp
  | cons _ hports _ _ _ ih =>
    rw [List.flatMap_cons, hports, List.mem_append]
    exact (List.mem_cons.1 hp).imp (fun hp => List.mem_cons.2 (.inl hp)) ih

/-- Agents that are written down as copies of a tree are copies of the tree. The roots and the ports
that are split are those on the interface with the same names. -/
theorem IsCopied.isDoubled {cells : List (Cell Nat)} {first second : PortId} {ports : List PortId}
    (h : IsCopied t (name first) (name second) (ports.map name) cells) (ht : t ≠ .leaf)
    (hwf : net.WellFormed) (hname : net.IsNaming name) (hagents : net.agentList.Perm agents)
    (hcells : agents.map (Cell.of name) = cells)
    (hmem : ∀ q ∈ first :: second :: ports, q ∈ net.interface) :
    IsDoubled net t first second ports := by
  obtain ⟨_, _, _, us, vs, hown, hother, hsplits, rfl⟩ := h
  obtain ⟨both, duplicators, rfl, hboth, hcells'⟩ := List.map_eq_append_iff.1 hcells
  obtain ⟨own, other, rfl, hown', hother'⟩ := List.map_eq_append_iff.1 hboth
  have hlive : ∀ {q}, q ∈ (own ++ other ++ duplicators).flatMap Agent.ports →
      (net.port? q).isSome := (hwf.mem_ports_iff hagents).1
  have hjoined := (hwf.nodup_flatMap_ports hagents).pairwise_of_forall_ne fun q hq r hr hne heq =>
    (hname.joined_iff hwf (hlive hq) (hlive hr)).2 ⟨hne, heq⟩
  simp only [List.flatMap_append, List.mem_append] at hlive hjoined
  obtain ⟨hjoined, -, hapart⟩ := List.pairwise_append.1 hjoined
  obtain ⟨hjoined₁, hjoined₂, -⟩ := List.pairwise_append.1 hjoined
  obtain ⟨root, ps, hps, hroot, rfl⟩ := hown.exists_spans hown' ht hjoined₁
  obtain ⟨root', qs, hqs, hroot', rfl⟩ := hother.exists_spans hother' ht hjoined₂
  obtain ⟨heads, hheads, hnames⟩ := hsplits.exists_splitsPorts hcells' rfl rfl fun q hq =>
    hapart q (List.mem_append.2 (hq.imp (fun hq => hps.mem_ports ht (.inr hq))
      fun hq => hqs.mem_ports ht (.inr hq)))
  -- no other port has the name of a port on the interface
  obtain ⟨hfirst, hmem⟩ := List.forall_mem_cons.1 hmem
  obtain ⟨hsecond, hports⟩ := List.forall_mem_cons.1 hmem
  obtain rfl := hname.eq_of_mem_interface hwf hfirst
    (hlive (.inl (.inl (hps.mem_ports ht (.inl rfl))))) hroot
  obtain rfl := hname.eq_of_mem_interface hwf hsecond
    (hlive (.inl (.inr (hqs.mem_ports ht (.inl rfl))))) hroot'
  obtain rfl := hname.eq_of_map_eq hwf (fun q hq => hlive (.inr (hheads.mem_ports hq))) hports
    hnames
  exact ⟨own, other, duplicators, ps, qs, hagents, hps, hqs, hheads⟩

/-- A net that is written down as copies of a tree has copies of the tree. Its interface has another
port in the place of each of the old ones, with the same name. -/
theorem IsCopied.exists_isDoubled {cells : List (Cell Nat)}
    (h : IsCopied t (name x) (name y) (leaves.map name) cells) (ht : t ≠ .leaf)
    {ports : List PortId} (hw : net.Written cells (ports.map name)) (hnodup : ports.Nodup)
    (hmem : ∀ q ∈ x :: y :: leaves, q ∈ ports) : ∃ place : PortId → PortId,
      net.interface = ports.map place ∧ IsDoubled net t (place x) (place y) (leaves.map place) := by
  obtain ⟨name', agents, hname, hagents, hcells, hinterface⟩ := hw.exists_agents
  obtain ⟨place, -, hplace⟩ := exists_map_eq hnodup
    (by simpa only [List.length_map] using congrArg List.length hinterface.symm) id
  have hsame : ∀ q ∈ x :: y :: leaves, place q ∈ net.interface ∧ name' (place q) = name q := by
    intro q hq
    rw [← hplace, List.map_map, List.map_inj_left] at hinterface
    exact ⟨hplace ▸ List.mem_map_of_mem (hmem q hq), hinterface q (hmem q hq)⟩
  obtain ⟨⟨-, hx⟩, hrest⟩ := List.forall_mem_cons.1 hsame
  obtain ⟨⟨-, hy⟩, hleaves⟩ := List.forall_mem_cons.1 hrest
  have hmap : leaves.map name = (leaves.map place).map name' := by
    rw [List.map_map]
    exact List.map_congr_left fun q hq => (hleaves q hq).2.symm
  rw [← hx, ← hy, hmap] at h
  exact ⟨place, hplace.symm, h.isDoubled ht hw.wellFormed hname hagents hcells
    (List.forall_mem_map.2 fun q hq => (hsame q hq).1)⟩

/-! ### Reduction -/

section Connected

variable (h : HasDuplicator net t root leaves p x y)

include h

namespace HasDuplicator

/-- The ports of the net are those to be connected, the ones on the interface and the ends of its
connections. -/
theorem exists_portsAre : ∃ pairs, PortsAre net [p, root] (x :: y :: leaves) pairs := by
  obtain ⟨data, agents, hagents, -, hports, hdraws⟩ := h.exists_draws
  obtain ⟨hspans, hmem⟩ := draws_iff_spans.1 hdraws
  obtain ⟨pairs, hpairs, hperm⟩ := hspans.exists_pairs h.ne_leaf
  refine ⟨pairs, h.wellFormed, hpairs,
    List.forall_mem_cons.2 ⟨h.mem_left, List.forall_mem_cons.2 ⟨h.mem_right, hmem⟩⟩,
    (hagents.flatMap_right Agent.ports).trans ?_⟩
  rw [List.flatMap_cons, hports]
  refine (hperm.append_left _).trans (List.perm_iff_count.2 fun q => ?_)
  simp only [List.cons_append, List.nil_append, List.count_cons, List.count_append]
  omega

/-- The other ports of the duplicator and the leaves are all there is on the interface, but for the
ports to be connected. -/
theorem perm_interface : ((net.interface.erase p).erase root).Perm (x :: y :: leaves) := by
  obtain ⟨pairs, hports⟩ := h.exists_portsAre
  simpa only [List.diff_cons, List.diff_nil] using hports.perm_outs

theorem ne_root : p ≠ root := by
  obtain ⟨pairs, hports⟩ := h.exists_portsAre
  obtain ⟨hp, -⟩ := List.nodup_cons.1 hports.nodup
  rintro rfl
  exact hp List.mem_cons_self

/-- Nothing is connected to the root. -/
theorem isFree_root : net.IsFree root := by
  obtain ⟨pairs, hports⟩ := h.exists_portsAre
  refine h.wellFormed.isFree_iff.2 ⟨hports.isSome_iff.2 (.inl (by simp)), fun q hq => ?_⟩
  have hmem := hports.mem_tops_of_joined (by simp) hq
  rw [List.mem_pair] at hmem
  rcases hmem with rfl | rfl
  · exact (h.wellFormed.isFree_iff.1 h.isFree).2 root hq.symm
  · exact h.wellFormed.joined_ne hq rfl

end HasDuplicator

variable {a b : PortId} (hab : a = p ∧ b = root ∨ a = root ∧ b = p)

include hab

/-- The duplicator and the root of the tree may be connected, in either direction. -/
theorem connectFault?_duplicator : net.connectFault? a b = none :=
  connectFault?_of_isFree hab h.ne_root h.isFree h.isFree_root

/-- A duplicator on top of a tree is written down as its cell and those of the tree. -/
theorem exists_written_duplicator : ∃ name : PortId → Nat, ∃ cells,
    IsTree t (name root) cells (leaves.map name) ∧ (net.join a b).2.Written
      (⟨delta, [name root, name x, name y]⟩ :: cells)
      (((net.interface.erase p).erase root).map name) := by
  obtain ⟨data, agents, hagents, hsymbol, hports, hdraws⟩ := h.exists_draws
  have hwell := h.wellFormed.join (connectFault?_duplicator h hab)
  obtain ⟨name, hname⟩ := hwell.exists_isNaming
  have htop : name p = name root := hname.eq_of_joined hwell (joined_join_ends hab)
  have htree := (draws_iff_spans.1 hdraws).1.isTree hname hwell
    fun hpq => joined_join.2 (.inl hpq)
  refine ⟨name, _, htree, hwell, name, _, hname, hagents, ?_, by rw [interface_join_ends hab]⟩
  rw [List.map_cons, Cell.of, hsymbol, hports, ← htop]
  rfl

end Connected

/-- **A duplicator copies every tree of constructors and erasers.** In a net of such a tree and a
duplicator whose other two ports are on the interface with the leaves of the tree, the duplicator
can be connected to the root, in either direction. Reduction then ends, one pair at a time and in
rounds, after as many interactions as the tree has agents. There are two copies of the tree, one
with its root in the place of the first of the two ports and one with its root in the place of the
second port. In the place of each leaf there is a duplicator, connected to that leaf of the first
copy and to that leaf of the second one. There is nothing else. -/
theorem doubles_tree (ht : t.IsPlain) (h : HasDuplicator net t root leaves p x y) :
    ((net.interface.erase p).erase root).Perm (x :: y :: leaves) ∧ ∃ rs, rules = .ok rs ∧
      ∀ a b, a = p ∧ b = root ∨ a = root ∧ b = p → ∃ c mid,
        (connect a b).run net = (.ok c, mid) ∧
        ∀ (strategy : Strategy) (watch : Stopwatch) (spare : Nat),
          ∃ after, ∃ place : PortId → PortId,
          ((Engine.mk ⟨none, strategy⟩ ⟨rs, watch⟩).run (t.size + spare)).run mid =
            (.ok (some ⟨.normalForm, t.size⟩), after) ∧
          after.interface = ((net.interface.erase p).erase root).map place ∧
          IsDoubled after t (place x) (place y) (leaves.map place) := by
  obtain ⟨rs, hrs⟩ := exists_rules
  refine ⟨h.perm_interface, rs, hrs, fun a b hab => ?_⟩
  refine ⟨_, _, run_connect_of_none (connectFault?_duplicator h hab), ?_⟩
  obtain ⟨name, cells, htree, hw⟩ := exists_written_duplicator h hab
  obtain ⟨result, hcopied, hruns⟩ := Engine.exists_run_of_turns (lawful_of_rules hrs) hw
    (turns_copyTree hrs ht htree (name x) (name y)) fun hcopied hnormal =>
      hcopied.nodup_headsOf hnormal (h.perm_interface.map name).symm.subset
  intro strategy watch spare
  obtain ⟨after, hrun, hafter⟩ := hruns strategy watch spare
  obtain ⟨place, hplace, hdoubled⟩ := hcopied.exists_isDoubled h.ne_leaf hafter
    ((h.wellFormed.interface_nodup.erase p).erase root) fun q => h.perm_interface.mem_iff.2
  exact ⟨after, place, hrun, hplace, hdoubled⟩

/-- A constructor above another one that has an eraser below its second port, and a duplicator. -/
def copying : Net :=
  ((connectPairs [(1, 3), (5, 6)]).run
    ((((single gamma).newAgent gamma).2.newAgent epsilon).2.newAgent delta).2).2

theorem hasDuplicator_copying : HasDuplicator copying
    (.fork .constructor (.fork .constructor .leaf .eraser) .leaf) 0 [4, 2] 7 8 9 := by
  have hwell : copying.WellFormed := ((((wellFormed_single gamma).newAgent gamma).newAgent
    epsilon).newAgent delta).run_connectPairs [(1, 3), (5, 6)]
  have hfree : copying.IsFree 7 := hwell.isFree_of_mem_interface (by decide +kernel)
  have hfirst : Hangs copying .leaf 4 4 := rfl
  have hsecond : Hangs copying .eraser 5 6 := hwell.peer?_eq_some_iff.1 (by decide +kernel)
  have hleft : Hangs copying (.fork .constructor .leaf .eraser) 1 3 :=
    hwell.peer?_eq_some_iff.1 (by decide +kernel)
  have hright : Hangs copying .leaf 2 2 := rfl
  have hinner : Draws copying (.fork .constructor .leaf .eraser) 3
      [⟨1, gamma, [3, 4, 5]⟩, ⟨2, epsilon, [6]⟩] [4] :=
    .fork rfl rfl hfirst (.leaf (by decide +kernel)) hsecond (.eraser rfl rfl)
  exact ⟨hwell, by decide, hfree, by decide +kernel, by decide +kernel, ⟨3, delta, [7, 8, 9]⟩,
    [⟨0, gamma, [0, 1, 2]⟩, ⟨1, gamma, [3, 4, 5]⟩, ⟨2, epsilon, [6]⟩], by decide +kernel, rfl, rfl,
    .fork rfl rfl hleft hinner hright (.leaf (by decide +kernel))⟩

/-- Three interactions double the tree, and its two leaves are split. -/
theorem doubles_copying : copying.interface = [0, 2, 4, 7, 8, 9] ∧ ∃ rs c mid, rules = .ok rs ∧
    (connect 7 0).run copying = (.ok c, mid) ∧
    ∀ (strategy : Strategy) (watch : Stopwatch), ∃ after, ∃ place : PortId → PortId,
      ((Engine.mk ⟨none, strategy⟩ ⟨rs, watch⟩).run 3).run mid =
        (.ok (some ⟨.normalForm, 3⟩), after) ∧
      after.interface = [place 2, place 4, place 8, place 9] ∧
      IsDoubled after (.fork .constructor (.fork .constructor .leaf .eraser) .leaf) (place 8)
        (place 9) [place 4, place 2] := by
  have hplain : (Tree.fork .constructor (.fork .constructor .leaf .eraser) .leaf).IsPlain :=
    ⟨rfl, ⟨rfl, trivial, trivial⟩, trivial⟩
  obtain ⟨-, rs, hrs, hall⟩ := doubles_tree hplain hasDuplicator_copying
  have hinterface : copying.interface = [0, 2, 4, 7, 8, 9] := by decide +kernel
  obtain ⟨c, mid, hrun, hruns⟩ := hall 7 0 (.inl ⟨rfl, rfl⟩)
  rw [hinterface] at hruns
  exact ⟨hinterface, rs, c, mid, hrs, hrun, fun strategy watch => hruns strategy watch 0⟩

end InteractionNets.Combinators
