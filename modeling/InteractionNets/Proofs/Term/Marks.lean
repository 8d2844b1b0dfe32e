import Mathlib.Data.List.Pairwise
import InteractionNets.Proofs.Term.Cells
import InteractionNets.Proofs.Written.Build

/-!
# The marks of equations

Marks in equations say what ports are connected to (`Net.IsMarked`), and marks that name a place are
the marks of one connection, because different terms stand at different places (`Net.Apart`). So
when every agent is written once, the marks are names of the ports (`Net.ShowsAll.exists_mark`):
equations tell everything there is to know about a net.
-/

namespace InteractionNets

namespace Net

variable {net : Net} {names : List ConnectionId} {path : List Nat} {k line : Nat}
  {ports : List PortId} {terms : List Term} {equations : List Equation} {agents : List Agent}
  {marked : List (PortId × Mark)} {mark : PortId → Mark} {p : PortId} {t : Term}

/-! ### What the marks say -/

/-- What a mark says about a port. -/
def Suits (net : Net) (p : PortId) : Mark → Prop
  | .named _ => ∃ q, net.Joined p q ∧ ¬ (net.isPrincipal p ∧ net.isPrincipal q)
  | .free i => net.interface[i]? = some p
  | .hidden _ => net.IsHidden p
  | .nested _ => ∃ q, net.Joined p q ∧ net.isPrincipal p ≠ net.isPrincipal q
  | .facing _ => ∃ q, net.Joined p q ∧ net.isPrincipal p ∧ net.isPrincipal q

/-- What holds of a marked port: what its mark says about it, the connection that a variable is the
name of, and the port at the other end, when the mark names the place of a connection. -/
structure IsMarked (net : Net) (names : List ConnectionId) (marked : List (PortId × Mark))
    (entry : PortId × Mark) : Prop where
  suits : net.Suits entry.1 entry.2
  named : ∀ n, entry.2 = .named n → ∃ c, net.linkOf? entry.1 = some c ∧ names[n]? = some c
  partner : ∀ q, net.Joined entry.1 q → entry.2.place? ≠ none → (q, entry.2) ∈ marked

section Marks

variable {entry : PortId × Mark} {marked' : List (PortId × Mark)} (hwf : net.WellFormed)

theorem IsMarked.mono (h : IsMarked net names marked entry) (hsub : marked ⊆ marked') :
    IsMarked net names marked' entry :=
  ⟨h.suits, h.named, fun q hq hplace => hsub (h.partner q hq hplace)⟩

theorem forall_isMarked_append (h : ∀ entry ∈ marked, IsMarked net names marked entry)
    (h' : ∀ entry ∈ marked', IsMarked net names marked' entry) :
    ∀ entry ∈ marked ++ marked', IsMarked net names (marked ++ marked') entry := by
  refine List.forall_mem_append.2 ⟨fun entry hentry => ?_, fun entry hentry => ?_⟩
  · exact (h entry hentry).mono (List.subset_append_left _ _)
  · exact (h' entry hentry).mono (List.subset_append_right _ _)

include hwf

theorem Ends.isMarked (h : Ends net names p t) : IsMarked net names marked (p, t.mark path) := by
  have hfree : net.IsFree p → ∀ q, ¬ net.Joined p q := fun hp => (hwf.isFree_iff.1 hp).2
  cases h with
  | free hp =>
    refine ⟨hp, fun n hn => (nomatch hn), fun q hq => ?_⟩
    exact absurd hq (hfree (hwf.isFree_of_mem_interface (List.mem_of_getElem? hp)) q)
  | hidden hp => exact ⟨hp, fun n hn => (nomatch hn), fun q hq => absurd hq (hfree hp.1 q)⟩
  | named hlink hn hpair =>
    obtain ⟨data, hdata, hend⟩ := hwf.linkOf?_eq_some_iff.1 hlink
    obtain ⟨q, hpq⟩ : ∃ q, net.Joined p q := by
      rcases hend with rfl | rfl
      · exact ⟨_, _, data, hdata, .inl rfl⟩
      · exact ⟨_, _, data, hdata, .inr rfl⟩
    refine ⟨⟨q, hpq, hpair q hpq⟩, ?_, fun q _ hplace => absurd rfl hplace⟩
    rintro n' hn'
    obtain rfl := Mark.named.inj hn'
    exact ⟨_, hlink, hn⟩

/-- Two ports that are joined and have the mark of one place. -/
theorem isMarked_pair (names : List ConnectionId) {q : PortId} {m : Mark} (hpq : net.Joined p q)
    (hnamed : ∀ n, m ≠ .named n) (hp : net.Suits p m) (hq : net.Suits q m) :
    ∀ entry ∈ [(p, m), (q, m)], IsMarked net names [(p, m), (q, m)] entry := by
  refine List.forall_mem_cons.2 ⟨⟨hp, fun n hn => absurd hn (hnamed n), fun r hr _ => ?_⟩,
    List.forall_mem_singleton.2 ⟨hq, fun n hn => absurd hn (hnamed n), fun r hr _ => ?_⟩⟩
  · obtain rfl := hwf.joined_unique hpq hr
    exact List.mem_cons_of_mem _ List.mem_cons_self
  · obtain rfl := hwf.joined_unique hpq.symm hr
    exact List.mem_cons_self

theorem isPrincipal_of_ports {data : Agent} (hdata : net.agent? data.id = some data) {q : PortId}
    {aux : List PortId} (hports : data.ports = q :: aux) : net.isPrincipal q := by
  have hq := (getElem?_portsOf_zero hdata).trans (congrArg List.head? hports)
  exact hwf.isPrincipal_eq hq

theorem Shows.isMarked (h : Shows net names path k ports terms agents marked) :
    ∀ entry ∈ marked, IsMarked net names marked entry := by
  induction h with
  | nil => exact List.forall_mem_nil _
  | @ends path k p t _ _ _ marked hend _ ih =>
    have hhead : ∀ entry ∈ [(p, t.mark (k :: path))],
        IsMarked net names [(p, t.mark (k :: path))] entry :=
      List.forall_mem_singleton.2 (hend.isMarked hwf)
    exact forall_isMarked_append hhead ih
  | @agent path k p q data _ _ _ _ _ _ _ _ hdata hports hjoined hp _ _ ihi ih =>
    have hq : net.isPrincipal q := isPrincipal_of_ports hwf hdata hports
    have hpair := isMarked_pair hwf names (m := .nested (k :: path)) hjoined
      (fun n => by simp) ⟨q, hjoined, by simp [hp, hq]⟩ ⟨p, hjoined.symm, by simp [hp, hq]⟩
    exact forall_isMarked_append hpair (forall_isMarked_append ihi ih)

theorem ShowsLine.isMarked {equation : Equation}
    (h : ShowsLine net names line equation agents marked) :
    ∀ entry ∈ marked, IsMarked net names marked entry := by
  cases h with
  | @pair p q _ _ _ _ _ _ _ _ _ _ hl hps hr hqs hpq hleft hright =>
    have hp : net.isPrincipal p := isPrincipal_of_ports hwf hl hps
    have hq : net.isPrincipal q := isPrincipal_of_ports hwf hr hqs
    have hpair := isMarked_pair hwf names (m := .facing line) hpq
      (fun n => by simp) ⟨q, hpq, hp, hq⟩ ⟨p, hpq.symm, hq, hp⟩
    exact forall_isMarked_append hpair
      (forall_isMarked_append (hleft.isMarked hwf) (hright.isMarked hwf))
  | @root p _ _ label _ _ _ _ _ hend hargs =>
    have hhead : ∀ entry ∈ [(p, label.mark [line])],
        IsMarked net names [(p, label.mark [line])] entry :=
      List.forall_mem_singleton.2 (hend.isMarked hwf)
    exact forall_isMarked_append hhead (hargs.isMarked hwf)
  | lone _ _ => exact List.forall_mem_nil _

theorem ShowsAll.isMarked (h : ShowsAll net names line equations agents marked) :
    ∀ entry ∈ marked, IsMarked net names marked entry := by
  induction h with
  | nil => exact List.forall_mem_nil _
  | cons hline _ ih => exact forall_isMarked_append (hline.isMarked hwf) ih

end Marks

/-! ### No two marks name one place -/

/-- All places that some marks name are inside a place. -/
def AllUnder (path : List Nat) (marked : List (PortId × Mark)) : Prop :=
  ∀ entry ∈ marked, ∀ place, entry.2.place? = some place → path <:+ place

/-- All places that some marks name are inside a place, and not before some position in it. -/
def AllFrom (path : List Nat) (k : Nat) (marked : List (PortId × Mark)) : Prop :=
  ∀ entry ∈ marked, ∀ place, entry.2.place? = some place → ∃ j, k ≤ j ∧ (j :: path) <:+ place

/-- Ports with marks that name one place are joined. -/
def Apart (net : Net) (entry entry' : PortId × Mark) : Prop :=
  ∀ place, entry.2.place? = some place → entry'.2.place? = some place →
    net.Joined entry.1 entry'.1

theorem eq_of_cons_isSuffix {i j : Nat} {place : List Nat} (hi : (i :: path) <:+ place)
    (hj : (j :: path) <:+ place) : i = j := by
  have hsuffix := List.suffix_of_suffix_length_le hi hj (Nat.le_refl _)
  exact (List.cons.inj (hsuffix.eq_of_length rfl)).1

section Apart

variable {marked' : List (PortId × Mark)} {i j : Nat}

theorem AllUnder.append (h : AllUnder path marked) (h' : AllUnder path marked') :
    AllUnder path (marked ++ marked') :=
  List.forall_mem_append.2 ⟨h, h'⟩

theorem AllUnder.isSuffix {path' : List Nat} (h : AllUnder path marked) (hpath : path' <:+ path) :
    AllUnder path' marked :=
  fun entry hentry place hplace => hpath.trans (h entry hentry place hplace)

theorem AllFrom.append (h : AllFrom path k marked) (h' : AllFrom path k marked') :
    AllFrom path k (marked ++ marked') :=
  List.forall_mem_append.2 ⟨h, h'⟩

theorem AllFrom.mono (h : AllFrom path j marked) (hk : k ≤ j) : AllFrom path k marked :=
  fun entry hentry place hplace =>
    (h entry hentry place hplace).imp fun _ => .imp (hk.trans ·) id

theorem AllFrom.allUnder (h : AllFrom path k marked) : AllUnder path marked := by
  intro entry hentry place hplace
  obtain ⟨j, -, hj⟩ := h entry hentry place hplace
  exact (List.suffix_cons j path).trans hj

theorem AllUnder.allFrom (h : AllUnder (j :: path) marked) (hk : k ≤ j) :
    AllFrom path k marked :=
  fun entry hentry place hplace => ⟨j, hk, h entry hentry place hplace⟩

/-- Marks inside one position and marks from the next position on. -/
theorem AllUnder.apart (h : AllUnder (k :: path) marked) (h' : AllFrom path (k + 1) marked') :
    ∀ entry ∈ marked, ∀ entry' ∈ marked', net.Apart entry entry' := by
  intro entry hentry entry' hentry' place hplace hplace'
  obtain ⟨j, hj, hsuffix⟩ := h' entry' hentry' place hplace'
  obtain rfl := eq_of_cons_isSuffix (h entry hentry place hplace) hsuffix
  exact absurd hj (Nat.not_succ_le_self k)

/-- A mark of a place and marks inside it. -/
theorem AllFrom.apart (h : AllFrom path k marked) {entry : PortId × Mark}
    (hentry : ∀ place, entry.2.place? = some place → place = path) :
    ∀ entry' ∈ marked, net.Apart entry entry' := by
  intro entry' hentry' place hplace hplace'
  obtain rfl := hentry place hplace
  obtain ⟨j, -, hsuffix⟩ := h entry' hentry' place hplace'
  exact absurd hsuffix.length_le (Nat.not_succ_le_self _)

theorem place?_nested (path : List Nat) :
    ∀ place, (Mark.nested path).place? = some place → place = path :=
  fun _ hplace => (Option.some.inj hplace).symm

theorem place?_facing (line : Nat) :
    ∀ place, (Mark.facing line).place? = some place → place = [line] :=
  fun _ hplace => (Option.some.inj hplace).symm

theorem allUnder_pair {q : PortId} {m : Mark} (hm : ∀ place, m.place? = some place → place = path) :
    AllUnder path [(p, m), (q, m)] := by
  have hsuffix : ∀ place, m.place? = some place → path <:+ place := fun place hplace =>
    hm place hplace ▸ List.suffix_rfl
  exact List.forall_mem_cons.2 ⟨hsuffix, List.forall_mem_singleton.2 hsuffix⟩

/-- Two ports that are joined and have the mark of a place, and marks inside it. -/
theorem pairwise_apart_pair {q : PortId} {m : Mark}
    (hm : ∀ place, m.place? = some place → place = path) (hpq : net.Joined p q)
    (hinside : AllFrom path k marked) (hapart : marked.Pairwise net.Apart) :
    ((p, m) :: (q, m) :: marked).Pairwise net.Apart :=
  .cons (List.forall_mem_cons.2 ⟨fun _ _ _ => hpq, hinside.apart hm⟩)
    (.cons (hinside.apart hm) hapart)

end Apart

theorem Shows.allFrom (h : Shows net names path k ports terms agents marked) :
    AllFrom path k marked := by
  induction h with
  | nil => exact List.forall_mem_nil _
  | @ends path k p t _ _ _ _ _ _ ih =>
    have hhead : AllUnder (k :: path) [(p, t.mark (k :: path))] :=
      List.forall_mem_singleton.2 fun place hplace => Term.place?_mark hplace ▸ List.suffix_rfl
    exact (hhead.allFrom (Nat.le_refl k)).append (ih.mono (Nat.le_succ k))
  | @agent path k p q _ _ _ _ _ _ _ _ _ _ _ _ _ _ _ ihi ih =>
    have hpair : AllUnder (k :: path) [(p, .nested (k :: path)), (q, .nested (k :: path))] :=
      allUnder_pair (place?_nested (k :: path))
    have hbelow := (hpair.append ihi.allUnder).allFrom (Nat.le_refl k)
    exact hbelow.append (ih.mono (Nat.le_succ k))

theorem Shows.pairwise_apart (h : Shows net names path k ports terms agents marked) :
    marked.Pairwise net.Apart := by
  induction h with
  | nil => exact .nil
  | @ends path k p t _ _ _ _ _ hrest ih =>
    have hhead : AllUnder (k :: path) [(p, t.mark (k :: path))] :=
      List.forall_mem_singleton.2 fun place hplace => Term.place?_mark hplace ▸ List.suffix_rfl
    exact .cons (hhead.apart hrest.allFrom _ List.mem_cons_self) ih
  | @agent path k p q _ _ _ _ _ _ _ under _ _ _ hjoined _ hinner hrest ihi ih =>
    have hpair := pairwise_apart_pair (place?_nested (k :: path)) hjoined hinner.allFrom ihi
    have hheads : AllUnder (k :: path) [(p, .nested (k :: path)), (q, .nested (k :: path))] :=
      allUnder_pair (place?_nested (k :: path))
    have hbelow := hheads.append hinner.allFrom.allUnder
    exact List.pairwise_append.2 ⟨hpair, ih, hbelow.apart hrest.allFrom⟩

/-- Everything in a line is inside the line. -/
theorem ShowsLine.allUnder {equation : Equation}
    (h : ShowsLine net names line equation agents marked) : AllUnder [line] marked := by
  cases h with
  | pair _ _ _ _ _ hleft hright =>
    have hsides := (hleft.allFrom.allUnder.isSuffix (List.suffix_cons 0 [line])).append
      (hright.allFrom.allUnder.isSuffix (List.suffix_cons 1 [line]))
    exact (allUnder_pair (place?_facing line)).append hsides
  | @root p _ _ label _ _ _ _ _ _ hargs =>
    have hhead : AllUnder [line] [(p, label.mark [line])] :=
      List.forall_mem_singleton.2 fun place hplace => Term.place?_mark hplace ▸ List.suffix_rfl
    exact hhead.append hargs.allFrom.allUnder
  | lone _ _ => exact List.forall_mem_nil _

theorem ShowsLine.pairwise_apart {equation : Equation}
    (h : ShowsLine net names line equation agents marked) : marked.Pairwise net.Apart := by
  cases h with
  | pair _ _ _ _ hpq hleft hright =>
    have hl := hleft.allFrom.allUnder
    have hr := hright.allFrom.allUnder.allFrom (Nat.le_refl 1)
    refine pairwise_apart_pair (place?_facing line) hpq
      ((hl.allFrom (Nat.le_refl 0)).append (hr.mono (Nat.zero_le 1))) ?_
    exact List.pairwise_append.2 ⟨hleft.pairwise_apart, hright.pairwise_apart, hl.apart hr⟩
  | root _ _ _ hargs =>
    exact .cons (hargs.allFrom.apart fun _ hplace => Term.place?_mark hplace) hargs.pairwise_apart
  | lone _ _ => exact .nil

theorem ShowsAll.allFrom (h : ShowsAll net names line equations agents marked) :
    AllFrom [] line marked := by
  induction h with
  | nil => exact List.forall_mem_nil _
  | cons hline _ ih =>
    exact (hline.allUnder.allFrom (Nat.le_refl _)).append (ih.mono (Nat.le_succ _))

theorem ShowsAll.pairwise_apart (h : ShowsAll net names line equations agents marked) :
    marked.Pairwise net.Apart := by
  induction h with
  | nil => exact .nil
  | cons hline hrest ih =>
    exact List.pairwise_append.2 ⟨hline.pairwise_apart, ih, hline.allUnder.apart hrest.allFrom⟩

/-! ### The marks are names -/

section Naming

variable {m : Mark} (hwf : net.WellFormed)

include hwf

/-- A mark that names no place, of a port that is connected, is the name of the connection. -/
theorem IsMarked.exists_named (h : IsMarked net names marked (p, m)) {q : PortId}
    (hpq : net.Joined p q) (hplace : m.place? = none) :
    ∃ n c, m = .named n ∧ net.linkOf? p = some c ∧ names[n]? = some c := by
  cases m with
  | named n =>
    obtain ⟨c, hlink, hn⟩ := h.named n rfl
    exact ⟨n, c, rfl, hlink, hn⟩
  | free i => exact absurd (List.mem_of_getElem? h.suits) (hwf.not_mem_interface_of_joined hpq)
  | hidden _ | nested _ | facing _ => cases hplace

theorem IsMarked.eq_of_joined (hnames : names.Nodup) {m' : Mark} {q : PortId}
    (h : IsMarked net names marked (p, m)) (h' : IsMarked net names marked (q, m'))
    (hfun : ∀ entry ∈ marked, mark entry.1 = entry.2) (hp : mark p = m) (hq : mark q = m')
    (hpq : net.Joined p q) : m = m' := by
  -- marks of places are shared with the other end; other marks of joined ports are variables
  by_cases hplace : m.place? = none
  · by_cases hplace' : m'.place? = none
    · obtain ⟨n, c, rfl, hlink, hn⟩ := h.exists_named hwf hpq hplace
      obtain ⟨n', c', rfl, hlink', hn'⟩ := h'.exists_named hwf hpq.symm hplace'
      obtain rfl : c = c' := Option.some.inj
        (hlink.symm.trans ((hwf.linkOf?_eq_of_joined hpq).trans hlink'))
      have hlt := (List.getElem?_eq_some_iff.1 hn).1
      rw [(List.getElem?_inj hlt hnames).1 (hn.trans hn'.symm)]
    · exact hp.symm.trans (hfun _ (h'.partner p hpq.symm hplace'))
  · exact (hfun _ (h.partner q hpq hplace)).symm.trans hq

theorem IsMarked.eq_or_joined {q : PortId} (h : IsMarked net names marked (p, m))
    (h' : IsMarked net names marked (q, m)) (hapart : marked.Pairwise net.Apart)
    (hp : (p, m) ∈ marked) (hq : (q, m) ∈ marked) : p = q ∨ net.Joined p q := by
  by_cases hplace : m.place? = none
  · cases m with
    | named n =>
      obtain ⟨c, hlink, hn⟩ := h.named n rfl
      obtain ⟨c', hlink', hn'⟩ := h'.named n rfl
      obtain rfl := Option.some.inj (hn.symm.trans hn')
      exact hwf.eq_or_joined_of_linkOf? hlink hlink'
    | free i => exact .inl (Option.some.inj (h.suits.symm.trans h'.suits))
    | hidden _ | nested _ | facing _ => cases hplace
  · obtain ⟨place, hplace⟩ := Option.ne_none_iff_exists'.1 hplace
    by_cases hpq : p = q
    · exact .inl hpq
    · have hsymm : Std.Symm net.Apart :=
        ⟨fun _ _ hab place hb ha => (hab place ha hb).symm⟩
      have hne : (p, m) ≠ (q, m) := fun heq => hpq (congrArg Prod.fst heq)
      exact .inr (hapart.forall hp hq hne place hplace hplace)

end Naming

/-- **Equations tell everything.** When every agent is written once, the marks are names of the
ports, and they say what the ports are connected to. What is written for the ports is all there is
in the equations. -/
theorem ShowsAll.exists_mark (hwf : net.WellFormed) (hnames : names.Nodup)
    (h : ShowsAll net names 0 equations agents marked) (hagents : net.agentList.Perm agents) :
    ∃ mark : PortId → Mark, agents.map (Cell.of mark) = Equation.cellsAll 0 equations ∧
      (equations.flatMap Equation.leaves).Perm
        ((agents.flatMap Agent.ports).filterMap fun p => (mark p).leaf?) ∧
      net.IsNaming mark ∧ ∀ p, (net.port? p).isSome → net.Suits p (mark p) := by
  have hnodup : (marked.map Prod.fst).Nodup :=
    h.perm_ports.nodup_iff.2 (hwf.nodup_flatMap_ports hagents)
  have hlength : (marked.map Prod.fst).length = (marked.map Prod.snd).length := by
    rw [List.length_map, List.length_map]
  obtain ⟨mark, -, hmap⟩ := exists_map_eq hnodup hlength fun _ => Mark.free 0
  have hmark : ∀ entry ∈ marked, mark entry.1 = entry.2 := by
    rw [List.map_map] at hmap
    exact List.map_inj_left.1 hmap
  have hmem : ∀ {p}, (net.port? p).isSome → (p, mark p) ∈ marked := by
    intro p hp
    rw [← hwf.mem_ports_iff hagents, ← h.perm_ports.mem_iff] at hp
    obtain ⟨entry, hentry, rfl⟩ := List.mem_map.1 hp
    rw [hmark entry hentry]
    exact hentry
  have hmarked : ∀ {p}, (net.port? p).isSome → IsMarked net names marked (p, mark p) := fun hp =>
    h.isMarked hwf _ (hmem hp)
  have hleaves : (equations.flatMap Equation.leaves).Perm
      ((agents.flatMap Agent.ports).filterMap fun p => (mark p).leaf?) := by
    refine .trans (.of_eq ?_) (h.perm_ports.filterMap _)
    rw [h.leaves_eq, List.filterMap_map]
    exact List.filterMap_congr fun entry hentry => by rw [Function.comp_apply, hmark entry hentry]
  refine ⟨mark, h.cells_eq hwf hmark, hleaves, fun {p q} hp hq => ⟨fun heq => ?_, ?_⟩,
    fun p hp => (hmarked hp).suits⟩
  · have hmem' := hmem hq
    have hmarked' := hmarked hq
    rw [← heq] at hmem' hmarked'
    exact (hmarked hp).eq_or_joined hwf hmarked' h.pairwise_apart (hmem hp) hmem'
  · rintro (rfl | hpq)
    · rfl
    · exact (hmarked hp).eq_of_joined hwf hnames (hmarked hq) hmark rfl rfl hpq

end Net

end InteractionNets
