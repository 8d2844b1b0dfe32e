import InteractionNets.Proofs.Peano.Expressions

/-!
# Building the nets of expressions

The net of an expression is made of copies of the nets of numbers, new agents and connections. It
does not matter in which order they are made, in which direction ports are connected, and whether
the roots of the numbers are exposed before they are connected (`Built.isNetOf`): what has been made
stays when more is made (`Consists`). There is a net for every expression (`exists_isNetOf`).
-/

namespace InteractionNets.Peano

open Net

variable {net other : Net} {e : Expression} {p q root : PortId} {agents : List Agent}

/-! ### Pieces and connections -/

/-- What the net of an expression is built from: a number with its root, or an operator with its
three ports. -/
inductive Piece
  | numeral (n : Nat) (root : PortId)
  | operator (o : Operator) (first second root : PortId)
deriving DecidableEq

/-- A net is built of some pieces, with connections between some ports: operators are new agents,
numbers are copies of their nets, and ports are connected whenever they can be. -/
inductive Built : Net → List Piece → List (PortId × PortId) → Prop
  | empty : Built .empty [] []
  | newAgent {net : Net} {pieces : List Piece} {wires : List (PortId × PortId)} (o : Operator)
      {p q r : PortId} : Built net pieces wires →
      (net.newAgent o.symbol).2.portsOf (net.newAgent o.symbol).1 = [p, q, r] →
      Built (net.newAgent o.symbol).2 (.operator o p q r :: pieces) wires
  | inject {net number : Net} {pieces : List Piece} {wires : List (PortId × PortId)} {n : Nat}
      {root copied : PortId} (expose : Bool) : Built net pieces wires → nat n = .ok number →
      number.interface = [root] → (net.inject number expose).1.lookup root = some copied →
      Built (net.inject number expose).2 (.numeral n copied :: pieces) wires
  | connect {net after : Net} {pieces : List Piece} {wires : List (PortId × PortId)}
      {p q : PortId} {c : ConnectionId} : Built net pieces wires →
      (Net.connect p q).run net = (.ok c, after) → Built after pieces ((p, q) :: wires)

/-- Some pieces are arranged as an expression by connections between them. -/
inductive Arranges (wires : List (PortId × PortId)) : Expression → PortId → List Piece → Prop
  | numeral (n : Nat) (root : PortId) : Arranges wires (.numeral n) root [.numeral n root]
  | apply (o : Operator) {left right : Expression} {p q x y : PortId} (root : PortId)
      {ls rs : List Piece} : (p, x) ∈ wires ∨ (x, p) ∈ wires → Arranges wires left x ls →
      (q, y) ∈ wires ∨ (y, q) ∈ wires → Arranges wires right y rs →
      Arranges wires (.apply o left right) root (.operator o p q root :: (ls ++ rs))

/-- Some agents of a net are a piece. -/
inductive IsPiece (net : Net) : List Agent → Piece → Prop
  | numeral {n : Nat} {root : PortId} {agents : List Agent} : IsChain net n root agents →
      IsPiece net agents (.numeral n root)
  | operator {o : Operator} {p q r : PortId} {data : Agent} : data.symbol = o.symbol →
      data.ports = [p, q, r] → IsPiece net [data] (.operator o p q r)

theorem IsPiece.mono {piece : Piece} (h : IsPiece net agents piece)
    (hjoined : ∀ {p q}, net.Joined p q → other.Joined p q) : IsPiece other agents piece := by
  cases h with
  | numeral hchain => exact .numeral (hchain.mono hjoined)
  | operator hsymbol hports => exact .operator hsymbol hports

/-- The agents of a net are those of some pieces, and some connections are made in it. -/
structure Consists (net : Net) (pieces : List Piece) (wires : List (PortId × PortId)) : Prop where
  wellFormed : net.WellFormed
  exists_parts : ∃ parts, net.agentList.Perm parts.flatten ∧
    List.Forall₂ (IsPiece net) parts pieces
  joined : ∀ wire ∈ wires, net.Joined wire.1 wire.2

namespace Consists

variable {pieces pieces' : List Piece} {wires : List (PortId × PortId)}
  (h : Consists net pieces wires)

include h

theorem newAgent (o : Operator)
    (hports : (net.newAgent o.symbol).2.portsOf (net.newAgent o.symbol).1 = [p, q, root]) :
    Consists (net.newAgent o.symbol).2 (.operator o p q root :: pieces) wires := by
  obtain ⟨hwf, ⟨parts, hagents, hparts⟩, hwires⟩ := h
  have hjoined : ∀ {p q}, net.Joined p q → (net.newAgent o.symbol).2.Joined p q := id
  rw [portsOf_newAgent] at hports
  refine ⟨hwf.newAgent o.symbol, ⟨[_] :: parts, perm_newAgent hwf o.symbol hagents,
    .cons (.operator rfl hports) (hparts.imp fun _ _ hpiece => hpiece.mono hjoined)⟩,
    fun wire hwire => hjoined (hwires wire hwire)⟩

theorem inject {number : Net} {n : Nat} {copied : PortId} (hnumber : nat n = .ok number)
    (hinterface : number.interface = [root]) (expose : Bool)
    (hcopied : (net.inject number expose).1.lookup root = some copied) :
    Consists (net.inject number expose).2 (.numeral n copied :: pieces) wires := by
  obtain ⟨hwf, ⟨parts, hagents, hparts⟩, hwires⟩ := h
  obtain ⟨_, p, hnat, hrepresents⟩ := exists_nat n
  obtain rfl := Except.ok.inj (hnumber.symm.trans hnat)
  obtain ⟨x, cells, hw, hcells⟩ := hrepresents.exists_cells
  obtain ⟨r, chain, hr, hchain, hisChain⟩ := exists_isChain hw hcells
  obtain rfl : r = root := (List.cons.inj (hr.symm.trans hinterface)).1
  obtain ⟨copy, hcopy, hlookup, -⟩ := exists_isCopy_inject hw.wellFormed hwf expose
  have hroot : (number.port? r).isSome :=
    hw.wellFormed.isSome_of_mem_interface (hr ▸ List.mem_cons_self)
  obtain rfl := Option.some.inj (hcopied.symm.trans (hlookup r hroot))
  have hjoined : ∀ {p q}, net.Joined p q → (net.inject number expose).2.Joined p q :=
    fun hpq => hcopy.joined.2 (.inl hpq)
  refine ⟨hcopy.wellFormed, ⟨_ :: parts, ?_, .cons (.numeral (hisChain.copy hcopy))
    (hparts.imp fun _ _ hpiece => hpiece.mono hjoined)⟩,
    fun wire hwire => hjoined (hwires wire hwire)⟩
  exact (hcopy.perm hwf hw.wellFormed hagents hchain).trans List.perm_append_comm

theorem connect {after : Net} {c : ConnectionId}
    (hrun : (Net.connect p q).run net = (.ok c, after)) :
    Consists after pieces ((p, q) :: wires) := by
  obtain ⟨hwf, ⟨parts, hagents, hparts⟩, hwires⟩ := h
  obtain ⟨hnone, rfl⟩ := join_of_run_connect hrun
  have hjoined : ∀ {p' q'}, net.Joined p' q' → (net.join p q).2.Joined p' q' :=
    fun hpq => joined_join.2 (.inl hpq)
  refine ⟨hwf.join hnone, ⟨parts, hagents, hparts.imp fun _ _ hpiece => hpiece.mono hjoined⟩,
    List.forall_mem_cons.2 ⟨joined_join.2 (.inr (.inl ⟨rfl, rfl⟩)),
      fun wire hwire => hjoined (hwires wire hwire)⟩⟩

/-- The order of the pieces does not matter. -/
theorem perm (hperm : pieces.Perm pieces') : Consists net pieces' wires := by
  obtain ⟨hwf, ⟨parts, hagents, hparts⟩, hwires⟩ := h
  obtain ⟨parts', hparts', hforall⟩ :
      Relation.Comp List.Perm (List.Forall₂ (IsPiece net)) parts pieces' := by
    rw [← List.forall₂_comp_perm_eq_perm_comp_forall₂]
    exact ⟨pieces, hparts, hperm⟩
  exact ⟨hwf, ⟨parts', hagents.trans hparts'.flatten, hforall⟩, hwires⟩

end Consists

/-- Pieces that are arranged as an expression are one in a net, when the connections are made. -/
theorem Arranges.draws {wires : List (PortId × PortId)} {pieces : List Piece}
    (h : Arranges wires e root pieces) (hwires : ∀ wire ∈ wires, net.Joined wire.1 wire.2)
    {parts : List (List Agent)} (hparts : List.Forall₂ (IsPiece net) parts pieces) :
    Draws net e root parts.flatten := by
  have hjoined : ∀ {p q}, (p, q) ∈ wires ∨ (q, p) ∈ wires → net.Joined p q := by
    rintro p q (hpq | hqp)
    · exact hwires _ hpq
    · exact (hwires _ hqp).symm
  induction h generalizing parts with
  | numeral n root =>
    obtain _ | ⟨⟨hchain⟩, hrest⟩ := hparts
    obtain rfl := List.forall₂_nil_right_iff.1 hrest
    rw [List.flatten_singleton]
    exact .numeral hchain
  | @apply o left right p q x y root ls rs hpx _ hqy _ ihl ihr =>
    obtain _ | ⟨hpiece, hrest⟩ := hparts
    obtain _ | ⟨hsymbol, hports⟩ := hpiece
    have hleft := List.forall₂_take_append _ ls rs hrest
    have hright := List.forall₂_drop_append _ ls rs hrest
    have hdraws := Draws.apply hsymbol hports (hjoined hpx) (ihl hleft) (hjoined hqy) (ihr hright)
    rwa [← List.flatten_append, List.take_append_drop] at hdraws

theorem Built.consists {pieces : List Piece} {wires : List (PortId × PortId)}
    (h : Built net pieces wires) : Consists net pieces wires := by
  induction h with
  | empty => exact ⟨wellFormed_empty, ⟨[], .refl _, .nil⟩, List.forall_mem_nil _⟩
  | newAgent o _ hports ih => exact ih.newAgent o hports
  | inject expose _ hnumber hinterface hcopied ih =>
    exact ih.inject hnumber hinterface expose hcopied
  | connect _ hrun ih => exact ih.connect hrun

/-- **Building in any order.** A net that is built of the pieces of an expression, with the
connections that arrange them, is the net of the expression, if its root is all there is on the
interface. -/
theorem Built.isNetOf {pieces pieces' : List Piece} {wires : List (PortId × PortId)}
    (h : Built net pieces wires) (hperm : pieces.Perm pieces')
    (harranges : Arranges wires e root pieces') (hinterface : net.interface = [root]) :
    IsNetOf net e := by
  obtain ⟨hwf, ⟨parts, hagents, hparts⟩, hwires⟩ := h.consists.perm hperm
  exact ⟨hwf, root, _, hinterface, hagents, harranges.draws hwires hparts⟩

/-! ### Every expression has a net -/

theorem Arranges.mono {wires wires' : List (PortId × PortId)} {pieces : List Piece}
    (h : Arranges wires e root pieces) (hsub : wires ⊆ wires') :
    Arranges wires' e root pieces := by
  induction h with
  | numeral n root => exact .numeral n root
  | apply o root hpx _ hqy _ ihl ihr =>
    exact .apply o root (hpx.imp (hsub ·) (hsub ·)) ihl (hqy.imp (hsub ·) (hsub ·)) ihr

/-- Elements of the second list are taken away from it. -/
theorem erase_erase_append {l l' : List PortId} (hnodup : (l ++ l').Nodup) {a b : PortId}
    (ha : a ∈ l') (hb : b ∈ l') : ((l ++ l').erase a).erase b = l ++ (l'.erase a).erase b := by
  have hapart : ∀ c ∈ l', c ∉ l := fun c hc hmem => (List.nodup_append.1 hnodup).2.2 c hmem c hc rfl
  rw [List.erase_append_right _ (hapart a ha), List.erase_append_right _ (hapart b hb)]

namespace Built

variable {pieces : List Piece} {wires : List (PortId × PortId)} (h : Built net pieces wires)

include h

theorem wellFormed : net.WellFormed :=
  h.consists.wellFormed

/-- Ports on the interface may be connected. -/
theorem connect_of_interface {l l' : List PortId} (hinterface : net.interface = l ++ l')
    (hp : p ∈ l') (hq : q ∈ l') (hpq : p ≠ q) :
    ∃ after, Built after pieces ((p, q) :: wires) ∧
      after.interface = l ++ (l'.erase p).erase q := by
  have hmem : ∀ {p}, p ∈ l' → p ∈ net.interface := fun hp =>
    hinterface ▸ List.mem_append_right l hp
  have hsafe := h.wellFormed.connectFault?_of_interface (hmem hp) (hmem hq) hpq
  refine ⟨_, h.connect (run_connect_of_none hsafe), ?_⟩
  have hnodup := h.wellFormed.interface_nodup
  rw [hinterface] at hnodup
  rw [interface_join, hinterface, erase_erase_append hnodup hp hq]

/-- A number can be copied into a net, with its root at the end of the interface. -/
theorem exists_numeral (n : Nat) : ∃ after root, Built after (.numeral n root :: pieces) wires ∧
    after.interface = net.interface ++ [root] := by
  obtain ⟨number, p, hnumber, hinterface, _, _, hw, -⟩ := exists_nat n
  obtain ⟨copy, -, hlookup, hexposed⟩ := exists_isCopy_inject hw.wellFormed h.wellFormed true
  have hp : (number.port? p).isSome :=
    hw.wellFormed.isSome_of_mem_interface (hinterface ▸ List.mem_cons_self)
  refine ⟨_, _, h.inject true hnumber hinterface (hlookup p hp), ?_⟩
  rw [hexposed, if_pos rfl, hinterface]
  rfl

/-- An operator can be put on top of two roots at the end of the interface. -/
theorem exists_operator (o : Operator) {l : List PortId} {x y : PortId}
    (hinterface : net.interface = l ++ [x, y]) : ∃ after p q root,
      Built after (.operator o p q root :: pieces) ((y, q) :: (x, p) :: wires) ∧
        after.interface = l ++ [root] := by
  obtain ⟨p, q, r, hports⟩ :=
    List.length_eq_three.1 ((net.length_nextPorts o.symbol).trans o.arity_symbol)
  have hmade := h.newAgent o ((portsOf_newAgent net o.symbol).trans hports)
  have hmid : (net.newAgent o.symbol).2.interface = l ++ [x, y, p, q, r] := by
    rw [interface_newAgent h.wellFormed, hinterface, hports, List.append_assoc]
    rfl
  have hnodup := hmade.wellFormed.interface_nodup
  rw [hmid] at hnodup
  have hdistinct := (List.nodup_append.1 hnodup).2.1
  simp only [List.nodup_cons, List.mem_cons, not_or] at hdistinct
  obtain ⟨next, hnext, hleft⟩ := hmade.connect_of_interface (p := x) (q := p) hmid (by simp)
    (by simp) hdistinct.1.2.1
  rw [erase_first_third (List.nodup_append.1 hnodup).2.1] at hleft
  obtain ⟨after, hafter, hlast⟩ := hnext.connect_of_interface (p := y) (q := q) hleft (by simp)
    (by simp) hdistinct.2.1.2.1
  rw [List.erase_cons_head, List.erase_cons_head] at hlast
  exact ⟨after, p, q, r, hafter, hlast⟩

/-- Any expression can be built beside what is there, with its root at the end of the interface. -/
theorem exists_expression (e : Expression) : ∃ after root more pieces' wires',
    Built after pieces' (wires' ++ wires) ∧ pieces'.Perm (more ++ pieces) ∧
      Arranges wires' e root more ∧ after.interface = net.interface ++ [root] := by
  induction e generalizing net pieces wires with
  | numeral n =>
    obtain ⟨after, root, hafter, hinterface⟩ := h.exists_numeral n
    exact ⟨after, root, _, _, [], hafter, .refl _, .numeral n root, hinterface⟩
  | apply o left right ihl ihr =>
    obtain ⟨one, x, ls, pieces₁, wires₁, hone, hperm₁, hleft, hinterface₁⟩ := ihl h
    obtain ⟨two, y, rs, pieces₂, wires₂, htwo, hperm₂, hright, hinterface₂⟩ := ihr hone
    rw [hinterface₁, List.append_assoc] at hinterface₂
    obtain ⟨after, p, q, root, hafter, hinterface⟩ := htwo.exists_operator o hinterface₂
    have hleft' : Arranges ((y, q) :: (x, p) :: (wires₂ ++ wires₁)) left x ls :=
      hleft.mono fun wire hwire => by simp [hwire]
    have hright' : Arranges ((y, q) :: (x, p) :: (wires₂ ++ wires₁)) right y rs :=
      hright.mono fun wire hwire => by simp [hwire]
    have harranges := Arranges.apply o (p := p) (q := q) root (.inr (by simp)) hleft'
      (.inr (by simp)) hright'
    have hperm : pieces₂.Perm (ls ++ rs ++ pieces) := by
      refine hperm₂.trans ((hperm₁.append_left rs).trans ?_)
      rw [← List.append_assoc]
      exact List.perm_append_comm.append_right pieces
    refine ⟨after, root, _, _, _, ?_, hperm.cons _, harranges, hinterface⟩
    rw [List.cons_append, List.cons_append, List.append_assoc]
    exact hafter

end Built

/-- **Every expression has a net.** -/
theorem exists_isNetOf (e : Expression) : ∃ net, IsNetOf net e := by
  obtain ⟨net, root, pieces, _, wires, hbuilt, hperm, harranges, hinterface⟩ :=
    Built.empty.exists_expression e
  rw [List.append_nil] at hbuilt hperm
  exact ⟨net, hbuilt.isNetOf hperm harranges hinterface⟩

end InteractionNets.Peano
