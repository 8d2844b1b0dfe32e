import InteractionNets.Proofs.Combinators.Trees
import InteractionNets.Proofs.Net.Connecting
import InteractionNets.Proofs.Rule.Symmetric
import InteractionNets.Proofs.Written.Normal
import InteractionNets.Proofs.Written.Turning

/-!
# Erasing trees

An eraser that is connected to the root of a tree of combinators goes down the tree, one interaction
for each agent of the tree, and leaves an eraser at each leaf (`Combinators.erases_tree`).
-/

namespace InteractionNets.Combinators

open Net RuleSet

variable {net : Net} {rs : RuleSet} {t : Tree} {w x y : Nat} {cells : List (Cell Nat)}
  {frees : List Nat}

/-! ### What the rules make of an eraser -/

theorem lawful_of_rules (hrs : rules = .ok rs) : rs.Lawful := by
  have hconfluent : rules.map RuleSet.isConfluent = .ok true := by decide +kernel
  rw [hrs] at hconfluent
  exact lawful_of_isConfluent (accepted_of_rules hrs) (Except.ok.inj hconfluent)

/-- An eraser goes on into both sides of a fork. -/
theorem turns_eraseFork (hrs : rules = .ok rs) (k : Fork) :
    rs.Turns 1 [⟨epsilon, [w]⟩, ⟨k.symbol, [w, x, y]⟩]
      (· = [⟨epsilon, [x]⟩, ⟨epsilon, [y]⟩]) := by
  have hmade : erase k.symbol ∈ makers := by cases k <;> simp [makers, Fork.symbol]
  have hreading : (erase k.symbol).map Rule.reading = .ok ⟨k.symbol, epsilon,
      [⟨epsilon, [.inl (.left 0)]⟩, ⟨epsilon, [.inl (.left 1)]⟩], false⟩ := by
    cases k <;> decide +kernel
  refine ((Turns.of_mapM (lawful_of_rules hrs) (rules_eq ▸ hrs) hmade hreading w [x, y] []).mono
    ?_).perm (.swap _ _ _)
  rintro _ ⟨fresh, rfl⟩
  exact ⟨_, .refl _, rfl⟩

/-- Two erasers leave nothing. -/
theorem turns_eraseEraser (hrs : rules = .ok rs) :
    rs.Turns 1 [⟨epsilon, [w]⟩, ⟨epsilon, [w]⟩] (· = []) := by
  have hmade : epsilonEpsilon ∈ makers := by simp [makers]
  have hreading : epsilonEpsilon.map Rule.reading = .ok ⟨epsilon, epsilon, [], false⟩ := by
    decide +kernel
  refine (Turns.of_mapM (lawful_of_rules hrs) (rules_eq ▸ hrs) hmade hreading w [] []).mono ?_
  rintro _ ⟨fresh, rfl⟩
  exact ⟨_, .refl _, rfl⟩

/-! ### What an eraser makes of a tree -/

/-- An eraser for each of some names. -/
def erasers (names : List Nat) : List (Cell Nat) :=
  names.map fun n => ⟨epsilon, [n]⟩

/-- An eraser goes through a tree agent by agent, and is left at its leaves. -/
theorem turns_eraseTree (hrs : rules = .ok rs) (h : IsTree t w cells frees) :
    rs.Turns t.size (⟨epsilon, [w]⟩ :: cells) (· = erasers frees) := by
  induction h with
  | leaf w => exact .refl rfl
  | eraser w => exact turns_eraseEraser hrs
  | @fork k w left right x y xs ys ls rs' _ _ ihl ihr =>
    refine (turns_eraseFork hrs k).step (xs ++ ys) (.refl _) (Nat.add_comm _ 1) ?_
    rintro _ rfl
    refine ((ihl.beside ihr).perm (List.perm_middle.symm.cons _)).mono ?_
    rintro _ ⟨_, _, rfl, rfl, rfl⟩
    exact ⟨_, .refl _, (List.map_append).symm⟩

theorem headsOf_erasers (names : List Nat) : headsOf (erasers names) = names := by
  rw [headsOf, erasers, List.filterMap_map]
  exact List.filterMap_some

/-- There is nothing in a net but erasers, one at each place of the interface. -/
def IsErased (net : Net) : Prop :=
  ∃ agents, net.agentList.Perm agents ∧
    List.Forall₂ (fun data p => data.symbol = epsilon ∧ data.ports = [p]) agents net.interface

theorem isErased_of_written (hw : net.Written (erasers frees) frees) : IsErased net := by
  obtain ⟨name, agents, hname, hagents, hcells, rfl⟩ := hw.exists_agents
  have hwf := hw.wellFormed
  rw [erasers, List.map_map] at hcells
  have hall : List.Forall₂ (fun data p => Cell.of name data = ⟨epsilon, [name p]⟩) agents
      net.interface := by
    rw [← List.forall₂_eq_eq_eq, List.forall₂_map_left_iff, List.forall₂_map_right_iff] at hcells
    exact hcells
  obtain ⟨hlength, hall⟩ := List.forall₂_iff_zip.1 hall
  refine ⟨agents, hagents, List.forall₂_iff_zip.2 ⟨hlength, fun {data p} hmem => ?_⟩⟩
  obtain ⟨hdata, hp⟩ := List.of_mem_zip hmem
  obtain ⟨hsymbol, hports⟩ := Cell.mk.inj (hall hmem)
  obtain ⟨q, hq, hname'⟩ := List.map_eq_singleton_iff.1 hports
  have hlive := hwf.isSome_of_mem_ports hagents hdata (hq ▸ List.mem_cons_self)
  obtain rfl := hname.eq_of_mem_interface hwf hp hlive hname'
  exact ⟨hsymbol, hq⟩

section Connected

variable {root p : PortId} {leaves : List PortId} (h : IsNetOf net t root leaves)
  (hp : net.nextPorts epsilon = [p]) {a b : PortId} (hab : a = p ∧ b = root ∨ a = root ∧ b = p)

include h hp hab

/-- A new eraser and the root of a tree may be connected, in either direction. -/
theorem connectFault?_eraser : (net.newAgent epsilon).2.connectFault? a b = none := by
  have hwf := h.wellFormed
  have hmade := hwf.newAgent epsilon
  have hmem : p ∈ net.nextPorts epsilon := hp ▸ List.mem_cons_self
  have hfree : (net.newAgent epsilon).2.IsFree p := hmade.isFree_of_mem_interface
    (interface_newAgent hwf epsilon ▸ List.mem_append_right _ hmem)
  obtain ⟨hlive, hloose⟩ := hwf.isFree_iff.1 h.isFree_root
  have hroot : (net.newAgent epsilon).2.IsFree root := by
    obtain ⟨agents, hagents, -⟩ := h.exists_draws
    refine hmade.isFree_iff.2 ⟨?_, fun q hq => hloose q hq⟩
    rw [← hmade.mem_ports_iff (perm_newAgent hwf epsilon hagents), List.flatMap_cons]
    exact List.mem_append_right _ ((hwf.mem_ports_iff hagents).2 hlive)
  have hne : p ≠ root := by
    rintro rfl
    rw [net.port?_of_mem_nextPorts epsilon hmem] at hlive
    cases hlive
  exact connectFault?_of_isFree hab hne hfree hroot

/-- When they are connected, the leaves are all there is on the interface. -/
theorem interface_eraser :
    ((net.newAgent epsilon).2.join a b).2.interface = net.interface.erase root := by
  have hmem := h.wellFormed.not_mem_interface_of_mem_nextPorts (p := p)
    (hp ▸ List.mem_cons_self : p ∈ net.nextPorts epsilon)
  rw [interface_join_ends hab, interface_newAgent h.wellFormed, hp, List.erase_append_right _ hmem,
    List.erase_cons_head, List.append_nil]

/-- An eraser on top of a tree is written down as its cell and those of the tree. -/
theorem exists_written_eraser : ∃ w cells frees, IsTree t w cells frees ∧
    ∃ free, free.Perm frees ∧ free.length = (net.interface.erase root).length ∧
      ((net.newAgent epsilon).2.join a b).2.Written (⟨epsilon, [w]⟩ :: cells) free := by
  obtain ⟨agents, hagents, hdraws⟩ := h.exists_draws
  have hwell := (h.wellFormed.newAgent epsilon).join (connectFault?_eraser h hp hab)
  obtain ⟨name, hname⟩ := hwell.exists_isNaming
  have htop : name p = name root := hname.eq_of_joined hwell (joined_join_ends hab)
  have htree := (draws_iff_spans.1 hdraws).1.isTree hname hwell fun hpq => joined_join.2 (.inl hpq)
  refine ⟨_, _, _, htree, _, h.perm_leaves.map name, List.length_map _, hwell, name, _, hname,
    perm_newAgent h.wellFormed epsilon hagents, ?_, by rw [interface_eraser h hp hab]⟩
  rw [List.map_cons, Cell.of, hp, List.map_singleton, htop]

end Connected

/-- **An eraser erases every tree of combinators.** A new eraser can be connected to the root of a
tree, in either direction. Reduction then ends, one pair at a time and in rounds, after as many
interactions as the tree has agents. There are erasers left, one in the place of each leaf on the
interface, and nothing else. -/
theorem erases_tree {root : PortId} {leaves : List PortId} (h : IsNetOf net t root leaves) :
    (net.interface.erase root).Perm leaves ∧ ∃ rs p, rules = .ok rs ∧
      (net.newAgent epsilon).2.portsOf (net.newAgent epsilon).1 = [p] ∧
      ∀ a b, a = p ∧ b = root ∨ a = root ∧ b = p → ∃ c mid,
        (connect a b).run (net.newAgent epsilon).2 = (.ok c, mid) ∧
        ∀ (strategy : Strategy) (watch : Stopwatch) (spare : Nat), ∃ after,
          ((Engine.mk ⟨none, strategy⟩ ⟨rs, watch⟩).run (net.agents.size + spare)).run mid =
            (.ok (some ⟨.normalForm, net.agents.size⟩), after) ∧
          after.interface.length = (net.interface.erase root).length ∧ IsErased after := by
  obtain ⟨rs, hrs⟩ := exists_rules
  obtain ⟨p, hp⟩ := List.length_eq_one_iff.1 (net.length_nextPorts epsilon)
  refine ⟨h.perm_leaves, rs, p, hrs, (portsOf_newAgent net epsilon).trans hp, ?_⟩
  intro a b hab
  refine ⟨_, _, run_connect_of_none (connectFault?_eraser h hp hab), ?_⟩
  intro strategy watch spare
  obtain ⟨w, cells, frees, htree, free, hperm, hlength, hw⟩ := exists_written_eraser h hp hab
  obtain ⟨normal, _, rfl, hreduces, hnormal⟩ :=
    turns_eraseTree hrs htree _ [] free (by rwa [List.append_nil])
  rw [List.append_nil] at hnormal
  replace hnormal : normal.Written (erasers free) free := hnormal.perm (hperm.symm.map _)
  have hheads : (headsOf (erasers free)).Nodup := (headsOf_erasers free).symm ▸ hnormal.nodup_free
  rw [← h.size_agents] at hreduces
  obtain ⟨after, hrun, hafter⟩ := Engine.exists_run_of_reduces (lawful_of_rules hrs) hw.wellFormed
    hreduces hnormal hheads strategy watch (Nat.le_add_right _ spare)
  exact ⟨after, hrun, hafter.length_interface.trans hlength, isErased_of_written hafter⟩

/-- A constructor above a duplicator that has an eraser below its second port. -/
def branching : Net :=
  ((connectPairs [(1, 3), (5, 6)]).run (((single gamma).newAgent delta).2.newAgent epsilon).2).2

theorem isNetOf_branching :
    IsNetOf branching (.fork .constructor (.fork .duplicator .leaf .eraser) .leaf) 0 [4, 2] := by
  have hwell : branching.WellFormed :=
    (((wellFormed_single gamma).newAgent delta).newAgent epsilon).run_connectPairs [(1, 3), (5, 6)]
  have hfirst : Hangs branching .leaf 4 4 := rfl
  have hsecond : Hangs branching .eraser 5 6 := hwell.peer?_eq_some_iff.1 (by decide +kernel)
  have hleft : Hangs branching (.fork .duplicator .leaf .eraser) 1 3 :=
    hwell.peer?_eq_some_iff.1 (by decide +kernel)
  have hright : Hangs branching .leaf 2 2 := rfl
  have hinner : Draws branching (.fork .duplicator .leaf .eraser) 3
      [⟨1, delta, [3, 4, 5]⟩, ⟨2, epsilon, [6]⟩] [4] :=
    .fork rfl rfl hfirst (.leaf (by decide +kernel)) hsecond (.eraser rfl rfl)
  exact ⟨hwell, [⟨0, gamma, [0, 1, 2]⟩, ⟨1, delta, [3, 4, 5]⟩, ⟨2, epsilon, [6]⟩],
    by decide +kernel, .fork rfl rfl hleft hinner hright (.leaf (by decide +kernel))⟩

/-- Three interactions leave two erasers, for the two leaves. -/
theorem erases_branching : branching.interface = [0, 2, 4] ∧ ∃ rs c mid, rules = .ok rs ∧
    (connect 7 0).run (branching.newAgent epsilon).2 = (.ok c, mid) ∧
    ∀ (strategy : Strategy) (watch : Stopwatch), ∃ after,
      ((Engine.mk ⟨none, strategy⟩ ⟨rs, watch⟩).run 3).run mid =
        (.ok (some ⟨.normalForm, 3⟩), after) ∧
      after.interface.length = 2 ∧ IsErased after := by
  obtain ⟨-, rs, p, hrs, hp, hall⟩ := erases_tree isNetOf_branching
  have hinterface : branching.interface = [0, 2, 4] := by decide +kernel
  have hsize : branching.agents.size = 3 := by decide +kernel
  have hports : (branching.newAgent epsilon).2.portsOf (branching.newAgent epsilon).1 = [7] := by
    decide +kernel
  obtain rfl : 7 = p := (List.cons.inj (hports.symm.trans hp)).1
  obtain ⟨c, mid, hrun, hruns⟩ := hall 7 0 (.inl ⟨rfl, rfl⟩)
  rw [hsize, hinterface] at hruns
  exact ⟨hinterface, rs, c, mid, hrs, hrun, fun strategy watch => hruns strategy watch 0⟩

end InteractionNets.Combinators
