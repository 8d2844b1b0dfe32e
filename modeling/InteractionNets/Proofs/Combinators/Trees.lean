import InteractionNets.Proofs.Combinators.Rules
import InteractionNets.Proofs.Written.Build
import InteractionNets.Proofs.Written.Cells

/-!
# Trees of combinators

A tree of combinators has its agents below each other: the first port of an agent is the root of its
tree, and each of its other ports is a leaf or connected to the root of another tree
(`Combinators.Spans`). A tree is drawn in a net when its leaves are on the interface
(`Combinators.Draws`). When the ports of the net have names, the tree is written down as its cells
and the names of its leaves (`Combinators.IsTree`).
-/

namespace InteractionNets.Combinators

open Net

/-- The combinators that trees branch at. -/
inductive Fork
  | constructor
  | duplicator
deriving DecidableEq

def Fork.symbol : Fork → Symbol
  | constructor => gamma
  | duplicator => delta

/-- Finite trees of combinators. A leaf is a free port. -/
inductive Tree
  | leaf
  | eraser
  | fork (k : Fork) (left right : Tree)
deriving DecidableEq

/-- The combinators in a tree. -/
def Tree.size : Tree → Nat
  | leaf => 0
  | eraser => 1
  | fork _ left right => left.size + right.size + 1

variable {net mid : Net} {t : Tree} {root x p : PortId} {agents : List Agent} {ports : List PortId}

/-! ### Trees in nets -/

/-- A tree hangs from an auxiliary port. The port itself is a leaf, and it is connected to the root
of any other tree. -/
def Hangs (net : Net) : Tree → PortId → PortId → Prop
  | .leaf, x, root => root = x
  | _, x, root => net.Joined x root

theorem hangs_iff (ht : t ≠ .leaf) : Hangs net t x root ↔ net.Joined x root := by
  cases t with
  | leaf => exact absurd rfl ht
  | eraser | fork _ _ _ => exact Iff.rfl

/-- Some agents of a net are a tree with some root, and the leaves are some ports on the interface,
from left to right. -/
inductive Draws (net : Net) : Tree → PortId → List Agent → List PortId → Prop
  | leaf {p : PortId} : p ∈ net.interface → Draws net .leaf p [] [p]
  | eraser {data : Agent} {root : PortId} : data.symbol = epsilon → data.ports = [root] →
      Draws net .eraser root [data] []
  | fork {k : Fork} {left right : Tree} {data : Agent} {root x y x' y' : PortId}
      {ls rs : List Agent} {ps qs : List PortId} : data.symbol = k.symbol →
      data.ports = [root, x, y] → Hangs net left x x' → Draws net left x' ls ps →
      Hangs net right y y' → Draws net right y' rs qs →
      Draws net (.fork k left right) root (data :: (ls ++ rs)) (ps ++ qs)

/-- Some agents of a net are a tree with some root, and the leaves are some ports, from left to
right, on the interface or not. -/
inductive Spans (net : Net) : Tree → PortId → List Agent → List PortId → Prop
  | leaf (p : PortId) : Spans net .leaf p [] [p]
  | eraser {data : Agent} {root : PortId} : data.symbol = epsilon → data.ports = [root] →
      Spans net .eraser root [data] []
  | fork {k : Fork} {left right : Tree} {data : Agent} {root x y x' y' : PortId}
      {ls rs : List Agent} {ps qs : List PortId} : data.symbol = k.symbol →
      data.ports = [root, x, y] → Hangs net left x x' → Spans net left x' ls ps →
      Hangs net right y y' → Spans net right y' rs qs →
      Spans net (.fork k left right) root (data :: (ls ++ rs)) (ps ++ qs)

/-- A well-formed net is the net of a tree: there is nothing in it but the tree. The leaves are on
the interface in any order, and the root is between them or hidden. -/
structure IsNetOf (net : Net) (t : Tree) (root : PortId) (leaves : List PortId) : Prop where
  wellFormed : net.WellFormed
  exists_draws : ∃ agents, net.agentList.Perm agents ∧ Draws net t root agents leaves

namespace Draws

variable (h : Draws net t root agents ports)

include h

theorem length_agents : agents.length = t.size := by
  induction h with
  | leaf _ => rfl
  | eraser _ _ => rfl
  | fork _ _ _ _ _ _ ihl ihr =>
    simp only [List.length_cons, List.length_append, Tree.size, ihl, ihr]

theorem mem_interface (hp : p ∈ ports) : p ∈ net.interface := by
  induction h with
  | leaf hmem => exact List.mem_singleton.1 hp ▸ hmem
  | eraser _ _ => cases hp
  | fork _ _ _ _ _ _ ihl ihr => exact (List.mem_append.1 hp).elim ihl ihr

end Draws

theorem draws_iff_spans : Draws net t root agents ports ↔
    Spans net t root agents ports ∧ ∀ p ∈ ports, p ∈ net.interface := by
  constructor
  · refine fun h => ⟨?_, fun p hp => h.mem_interface hp⟩
    induction h with
    | leaf _ => exact .leaf _
    | eraser hsymbol hports => exact .eraser hsymbol hports
    | fork hsymbol hports hx _ hy _ ihl ihr => exact .fork hsymbol hports hx ihl hy ihr
  · rintro ⟨h, hmem⟩
    induction h with
    | leaf p => exact .leaf (hmem p List.mem_cons_self)
    | eraser hsymbol hports => exact .eraser hsymbol hports
    | fork hsymbol hports hx _ hy _ ihl ihr =>
      obtain ⟨hleft, hright⟩ := List.forall_mem_append.1 hmem
      exact .fork hsymbol hports hx (ihl hleft) hy (ihr hright)

/-- The ports of a tree that hangs from a port, with that port, from the ports of the tree. -/
private theorem Hangs.exists_pairs (hx : Hangs net t x root) (h : Spans net t root agents ports)
    (hports : t ≠ .leaf → ∃ pairs, (∀ pair ∈ pairs, net.Joined pair.1 pair.2) ∧
      (agents.flatMap Agent.ports).Perm (root :: (ports ++ pairEnds pairs))) :
    ∃ pairs, (∀ pair ∈ pairs, net.Joined pair.1 pair.2) ∧
      (x :: agents.flatMap Agent.ports).Perm (ports ++ pairEnds pairs) := by
  -- a leaf is the port itself; another tree adds the connection between the port and its root
  by_cases ht : t = .leaf
  · subst ht
    cases h
    obtain rfl : root = x := hx
    exact ⟨[], List.forall_mem_nil _, .refl _⟩
  · obtain ⟨pairs, hpairs, hperm⟩ := hports ht
    refine ⟨(x, root) :: pairs, List.forall_mem_cons.2 ⟨(hangs_iff ht).1 hx, hpairs⟩, ?_⟩
    refine (hperm.cons x).trans (List.perm_iff_count.2 fun p => ?_)
    simp only [pairEnds_cons, List.count_cons, List.count_append]
    omega

/-- **The ports of a tree** with agents are its root, its leaves and the ends of its connections,
each once. -/
theorem Spans.exists_pairs (h : Spans net t root agents ports) (ht : t ≠ .leaf) :
    ∃ pairs, (∀ pair ∈ pairs, net.Joined pair.1 pair.2) ∧
      (agents.flatMap Agent.ports).Perm (root :: (ports ++ pairEnds pairs)) := by
  induction h with
  | leaf _ => exact absurd rfl ht
  | eraser _ hports =>
    refine ⟨[], List.forall_mem_nil _, ?_⟩
    rw [List.flatMap_singleton, hports]
    rfl
  | @fork k left right data root x y x' y' ls rs ps qs _ hports hx hleft hy hright ihl ihr =>
    obtain ⟨pairs, hpairs, hperm⟩ := hx.exists_pairs hleft ihl
    obtain ⟨pairs', hpairs', hperm'⟩ := hy.exists_pairs hright ihr
    refine ⟨pairs ++ pairs', List.forall_mem_append.2 ⟨hpairs, hpairs'⟩, ?_⟩
    rw [List.flatMap_cons, hports, List.flatMap_append]
    refine List.perm_iff_count.2 fun p => ?_
    have hcount := hperm.count_eq p
    have hcount' := hperm'.count_eq p
    simp only [pairEnds_append, List.cons_append, List.nil_append, List.count_cons,
      List.count_append] at hcount hcount' ⊢
    omega

/-- The root and the leaves of a tree with agents are ports of the tree. -/
theorem Spans.mem_ports (h : Spans net t root agents ports) (ht : t ≠ .leaf)
    (hp : p = root ∨ p ∈ ports) : p ∈ agents.flatMap Agent.ports := by
  obtain ⟨pairs, -, hperm⟩ := h.exists_pairs ht
  rw [hperm.mem_iff, List.mem_cons, List.mem_append]
  exact hp.imp_right .inl

/-- The ports of a well-formed net are some ports at the top, some ports on the interface and the
ends of some connections, each once. -/
structure PortsAre (net : Net) (tops outs : List PortId) (pairs : List (PortId × PortId)) :
    Prop where
  wellFormed : net.WellFormed
  joined : ∀ pair ∈ pairs, net.Joined pair.1 pair.2
  mem_interface : ∀ p ∈ outs, p ∈ net.interface
  perm : (net.agentList.flatMap Agent.ports).Perm (tops ++ (outs ++ pairEnds pairs))

namespace PortsAre

variable {tops outs : List PortId} {pairs : List (PortId × PortId)} {q : PortId}
  (h : PortsAre net tops outs pairs)

include h

theorem nodup : (tops ++ (outs ++ pairEnds pairs)).Nodup :=
  h.perm.nodup_iff.1 h.wellFormed.nodup_ports

theorem isSome_iff : (net.port? p).isSome ↔ p ∈ tops ∨ p ∈ outs ∨ p ∈ pairEnds pairs := by
  rw [← h.wellFormed.mem_ports_iff (.refl _), h.perm.mem_iff, List.mem_append, List.mem_append]

private theorem exists_joined (hp : p ∈ pairEnds pairs) :
    ∃ q ∈ pairEnds pairs, net.Joined p q := by
  obtain ⟨q, hq⟩ := mem_pairEnds.1 hp
  exact ⟨q, mem_pairEnds.2 ⟨p, hq.symm⟩, hq.elim (h.joined _) fun hq => (h.joined _ hq).symm⟩

/-- A port at the top is connected to others at the top only. -/
theorem mem_tops_of_joined (hp : p ∈ tops) (hpq : net.Joined p q) : q ∈ tops := by
  rcases h.isSome_iff.1 (h.wellFormed.isSome_of_joined hpq.symm) with hq | hq | hq
  · exact hq
  · exact absurd (h.mem_interface q hq) (h.wellFormed.not_mem_interface_of_joined hpq.symm)
  · -- then the first port is the other end of one of the pairs, and not at the top
    obtain ⟨p', hp', hqp'⟩ := h.exists_joined hq
    obtain rfl := h.wellFormed.joined_unique hpq.symm hqp'
    exact absurd rfl ((List.nodup_append.1 h.nodup).2.2 p hp p (List.mem_append_right outs hp'))

/-- The ports on the interface are all there is on it, but for those at the top. -/
theorem perm_outs : (net.interface.diff tops).Perm outs := by
  obtain ⟨-, hnodup, hapart⟩ := List.nodup_append.1 h.nodup
  refine (List.perm_ext_iff_of_nodup h.wellFormed.interface_nodup.diff
    (List.nodup_append.1 hnodup).1).2 fun p => ?_
  rw [h.wellFormed.interface_nodup.mem_sdiff_iff]
  constructor
  · rintro ⟨hp, htop⟩
    rcases h.isSome_iff.1 (h.wellFormed.isSome_of_mem_interface hp) with hp' | hp' | hp'
    · exact absurd hp' htop
    · exact hp'
    · obtain ⟨q, -, hpq⟩ := h.exists_joined hp'
      exact absurd hp (h.wellFormed.not_mem_interface_of_joined hpq)
  · exact fun hp => ⟨h.mem_interface p hp,
      fun htop => hapart p htop p (List.mem_append_left _ hp) rfl⟩

end PortsAre

namespace IsNetOf

variable (h : IsNetOf net t root ports)

include h

/-- A tree whose agents are all there is has agents. -/
theorem ne_leaf : t ≠ .leaf := by
  obtain ⟨hwf, agents, hagents, hdraws⟩ := h
  rintro rfl
  cases hdraws with
  | leaf hp =>
    have hlive := (hwf.mem_ports_iff hagents).2 (hwf.isSome_of_mem_interface hp)
    cases hlive

theorem size_agents : net.agents.size = t.size := by
  obtain ⟨-, agents, hagents, hdraws⟩ := h
  exact (size_agents_eq hagents).trans hdraws.length_agents

/-- The ports of the net are its root, the leaves and the ends of its connections. -/
theorem exists_portsAre : ∃ pairs, PortsAre net [root] ports pairs := by
  obtain ⟨hwf, agents, hagents, hdraws⟩ := id h
  obtain ⟨hspans, hmem⟩ := draws_iff_spans.1 hdraws
  obtain ⟨pairs, hpairs, hperm⟩ := hspans.exists_pairs h.ne_leaf
  exact ⟨pairs, hwf, hpairs, hmem, (hagents.flatMap_right Agent.ports).trans hperm⟩

/-- Nothing is connected to the root. -/
theorem isFree_root : net.IsFree root := by
  obtain ⟨pairs, hports⟩ := h.exists_portsAre
  refine h.wellFormed.isFree_iff.2 ⟨hports.isSome_iff.2 (.inl List.mem_cons_self), fun q hq => ?_⟩
  have hmem := hports.mem_tops_of_joined List.mem_cons_self hq
  exact h.wellFormed.joined_ne hq (List.mem_singleton.1 hmem).symm

/-- The leaves and the root are all there is on the interface. -/
theorem perm_leaves : (net.interface.erase root).Perm ports := by
  obtain ⟨pairs, hports⟩ := h.exists_portsAre
  simpa only [List.diff_cons, List.diff_nil] using hports.perm_outs

end IsNetOf

/-! ### Trees that are written down -/

/-- The cells of a tree, with the names of its root and of its leaves. -/
inductive IsTree : Tree → Nat → List (Cell Nat) → List Nat → Prop
  | leaf (w : Nat) : IsTree .leaf w [] [w]
  | eraser (w : Nat) : IsTree .eraser w [⟨epsilon, [w]⟩] []
  | fork (k : Fork) (w : Nat) {left right : Tree} {x y : Nat} {xs ys : List (Cell Nat)}
      {ls rs : List Nat} : IsTree left x xs ls → IsTree right y ys rs →
      IsTree (.fork k left right) w (⟨k.symbol, [w, x, y]⟩ :: (xs ++ ys)) (ls ++ rs)

/-- A tree in a net is written down as the tree, also when more is connected. -/
theorem Spans.isTree (h : Spans net t root agents ports) {name : PortId → Nat}
    (hname : mid.IsNaming name) (hwf : mid.WellFormed)
    (hjoined : ∀ {p q}, net.Joined p q → mid.Joined p q) :
    IsTree t (name root) (agents.map (Cell.of name)) (ports.map name) := by
  have hsame : ∀ {t x root}, Hangs net t x root → name x = name root := by
    intro t x root hhangs
    cases t with
    | leaf => exact congrArg name (Eq.symm hhangs)
    | eraser | fork _ _ _ => exact hname.eq_of_joined hwf (hjoined hhangs)
  induction h with
  | leaf _ => exact .leaf _
  | eraser hsymbol hports =>
    rw [List.map_singleton, Cell.of, hsymbol, hports]
    exact .eraser _
  | @fork k _ _ _ root _ _ _ _ _ _ _ _ hsymbol hports hx _ hy _ ihl ihr =>
    rw [List.map_cons, List.map_append, List.map_append, Cell.of, hsymbol, hports]
    simp only [List.map_cons, List.map_nil, hsame hx, hsame hy]
    exact .fork k (name root) ihl ihr

end InteractionNets.Combinators
