import Mathlib.Data.List.Forall2
import Mathlib.Data.List.Sort
import Mathlib.Data.Set.Function
import InteractionNets.Proofs.Diagram.Basic
import InteractionNets.Proofs.Net.WellFormed

/-!
# Isomorphic nets

Nets are isomorphic when they are equal up to the choice of ids: a bijection between the agents
keeps symbols, joined ports stay joined, and the interfaces list corresponding ports in the same
order. Ports correspond when they have the same place on corresponding agents.

The diagram of a net (`Net.diagram`) forgets the ids of ports and connections, and labels the places
of the interface. Labels are kept when places before them are dropped, so that the places of a net
can be followed through a reduction. Nets are isomorphic exactly when their diagrams are
(`Net.WellFormed.isomorphic_iff`).
-/

namespace InteractionNets

namespace Net

/-- Ports that have the same place on corresponding agents. -/
def SamePlace (net other : Net) (f : AgentId → AgentId) (p q : PortId) : Prop :=
  ∃ (a : AgentId) (k : Nat), (net.portsOf a)[k]? = some p ∧ (other.portsOf (f a))[k]? = some q

/-- A bijection between the agents of two nets that keeps symbols and joined ports. -/
structure Renames (net other : Net) (f : AgentId → AgentId) : Prop where
  bijOn : Set.BijOn f {a | (net.agent? a).isSome} {b | (other.agent? b).isSome}
  symbol : ∀ {a data}, net.agent? a = some data →
    ∃ data', other.agent? (f a) = some data' ∧ data'.symbol = data.symbol
  joined : ∀ {p q p' q'}, net.SamePlace other f p p' → net.SamePlace other f q q' →
    (net.Joined p q ↔ other.Joined p' q')

/-- Nets that are equal up to the choice of ids. -/
def Isomorphic (net other : Net) : Prop :=
  ∃ f, net.Renames other f ∧ List.Forall₂ (net.SamePlace other f) net.interface other.interface

/-! ### Drawing nets -/

variable {ι : Type}

/-- Which points of a drawing are joined, when ports are exposed at places and places are wired to
each other. -/
inductive Drawn (net : Net) (exposed : ι → PortId → Prop) (wired : ι → ι → Prop) :
    Point ι AgentId → Point ι AgentId → Prop
  | joined {a b : AgentId} {j k : Nat} {p q : PortId} : (net.portsOf a)[j]? = some p →
      (net.portsOf b)[k]? = some q → net.Joined p q →
      Drawn net exposed wired (.port a j) (.port b k)
  | exposed {i : ι} {a : AgentId} {k : Nat} {p : PortId} : exposed i p →
      (net.portsOf a)[k]? = some p → Drawn net exposed wired (.place i) (.port a k)
  | exposed' {i : ι} {a : AgentId} {k : Nat} {p : PortId} : exposed i p →
      (net.portsOf a)[k]? = some p → Drawn net exposed wired (.port a k) (.place i)
  | wired {i j : ι} : wired i j → wired j i → Drawn net exposed wired (.place i) (.place j)

/-- The diagram of a net whose ports are exposed at places. -/
def draw (net : Net) (exposed : ι → PortId → Prop) (wired : ι → ι → Prop) : Diagram ι AgentId where
  symbol a := (net.agent? a).map Agent.symbol
  joined := net.Drawn exposed wired
  symm h := by
    cases h with
    | joined hp hq hpq => exact .joined hq hp hpq.symm
    | exposed hi hp => exact .exposed' hi hp
    | exposed' hi hp => exact .exposed hi hp
    | wired hij hji => exact .wired hji hij
  live h := by
    have hlive : ∀ {a : AgentId} {k : Nat} {p : PortId}, (net.portsOf a)[k]? = some p →
        ((net.agent? a).map Agent.symbol).isSome := by
      intro a k p hp
      rw [Option.isSome_map]
      exact isSome_agent?_of_getElem? hp
    cases h with
    | joined hp _ _ => exact hlive hp
    | exposed _ _ => trivial
    | exposed' _ hp => exact hlive hp
    | wired _ _ => trivial

section Draw

variable {net : Net} {exposed : ι → PortId → Prop} {wired : ι → ι → Prop} {a b : AgentId}
  {j k : Nat} {p q : PortId} {i : ι}

theorem isSome_symbol_draw :
    ((net.draw exposed wired).symbol a).isSome ↔ (net.agent? a).isSome := by
  rw [draw, Option.isSome_map]

theorem not_draw_joined_of_none (hp : (net.portsOf a)[k]? = none) (x : Point ι AgentId) :
    ¬ (net.draw exposed wired).joined (.port a k) x := by
  intro h
  cases h with
  | joined hp' _ _ => cases hp.symm.trans hp'
  | exposed' _ hp' => cases hp.symm.trans hp'

theorem draw_joined_port_iff (hp : (net.portsOf a)[j]? = some p)
    (hq : (net.portsOf b)[k]? = some q) :
    (net.draw exposed wired).joined (.port a j) (.port b k) ↔ net.Joined p q := by
  constructor
  · intro h
    cases h with
    | joined hp' hq' hpq =>
      cases Option.some.inj (hp.symm.trans hp')
      cases Option.some.inj (hq.symm.trans hq')
      exact hpq
  · exact fun hpq => .joined hp hq hpq

theorem draw_joined_place_iff (hp : (net.portsOf a)[k]? = some p) :
    (net.draw exposed wired).joined (.place i) (.port a k) ↔ exposed i p := by
  constructor
  · intro h
    cases h with
    | exposed hi hp' =>
      cases Option.some.inj (hp.symm.trans hp')
      exact hi
  · exact fun hi => .exposed hi hp

theorem draw_joined_places_iff {i j : ι} :
    (net.draw exposed wired).joined (.place i) (.place j) ↔ wired i j ∧ wired j i := by
  constructor
  · intro h
    cases h with
    | wired hij hji => exact ⟨hij, hji⟩
  · exact fun ⟨hij, hji⟩ => .wired hij hji

end Draw

/-- The ports of an interface, each with a label, in increasing order of the labels. -/
structure IsLabelling (net : Net) (labels : List (PortId × Nat)) : Prop where
  ports : labels.map Prod.fst = net.interface
  sorted : (labels.map Prod.snd).Pairwise (· < ·)

/-- The diagram of a net, with labelled places. -/
def diagram (net : Net) (labels : List (PortId × Nat)) : Diagram Nat AgentId :=
  net.draw (fun i p => (p, i) ∈ labels) fun _ _ => False

variable {net other : Net} {labels labels' : List (PortId × Nat)}

theorem diagram_joined_port_iff {a b : AgentId} {j k : Nat} {p q : PortId}
    (hp : (net.portsOf a)[j]? = some p) (hq : (net.portsOf b)[k]? = some q) :
    (net.diagram labels).joined (.port a j) (.port b k) ↔ net.Joined p q :=
  draw_joined_port_iff hp hq

theorem diagram_joined_place_iff {a : AgentId} {k : Nat} {p : PortId} {i : Nat}
    (hp : (net.portsOf a)[k]? = some p) :
    (net.diagram labels).joined (.place i) (.port a k) ↔ (p, i) ∈ labels :=
  draw_joined_place_iff hp

theorem not_diagram_joined_places (i j : Nat) :
    ¬ (net.diagram labels).joined (.place i) (.place j) := by
  rintro ⟨⟩
  assumption

/-- The places of an interface can be counted, from any number on. -/
theorem isLabelling_zipIdx_add (net : Net) (k : Nat) :
    net.IsLabelling (net.interface.zipIdx k) := by
  refine ⟨List.zipIdx_map_fst k net.interface, ?_⟩
  rw [List.zipIdx_map_snd]
  exact List.pairwise_lt_range'

theorem isLabelling_zipIdx (net : Net) : net.IsLabelling net.interface.zipIdx :=
  net.isLabelling_zipIdx_add 0

namespace IsLabelling

variable (hl : net.IsLabelling labels)

include hl

theorem mem_interface {p : PortId} {i : Nat} (h : (p, i) ∈ labels) : p ∈ net.interface := by
  rw [← hl.ports]
  exact List.mem_map_of_mem h

theorem exists_label {p : PortId} (h : p ∈ net.interface) : ∃ i, (p, i) ∈ labels := by
  rw [← hl.ports] at h
  obtain ⟨⟨_, i⟩, hmem, rfl⟩ := List.mem_map.1 h
  exact ⟨i, hmem⟩

/-- A label belongs to one port. -/
theorem port_unique {p q : PortId} {i : Nat} (hp : (p, i) ∈ labels) (hq : (q, i) ∈ labels) :
    p = q := by
  have hnodup : (labels.map Prod.snd).Nodup := hl.sorted.imp Nat.ne_of_lt
  exact congrArg Prod.fst (List.inj_on_of_nodup_map hnodup hp hq rfl)

/-- A port has one label. -/
theorem label_unique (h : net.WellFormed) {p : PortId} {i j : Nat} (hi : (p, i) ∈ labels)
    (hj : (p, j) ∈ labels) : i = j := by
  have hnodup : (labels.map Prod.fst).Nodup := by
    rw [hl.ports]
    exact h.interface_nodup
  exact congrArg Prod.snd (List.inj_on_of_nodup_map hnodup hi hj rfl)

end IsLabelling

/-- No point is joined to itself. -/
theorem WellFormed.not_diagram_joined_self (h : net.WellFormed) {x : Point Nat AgentId} :
    ¬ (net.diagram labels).joined x x := by
  intro hx
  rcases x with ⟨a, k⟩ | i
  · obtain ⟨hp, hq, hpq⟩ := hx
    exact h.joined_ne hpq (Option.some.inj (hp.symm.trans hq))
  · exact not_diagram_joined_places i i hx

/-! ### Isomorphic diagrams -/

namespace SamePlace

variable {f : AgentId → AgentId} {p q p' : PortId}

theorem getElem? (h : net.WellFormed) (hpq : net.SamePlace other f p q) {a : AgentId} {k : Nat}
    (hp : (net.portsOf a)[k]? = some p) : (other.portsOf (f a))[k]? = some q := by
  obtain ⟨b, j, hp', hq⟩ := hpq
  obtain ⟨rfl, rfl⟩ := h.port_unique hp hp'
  exact hq

theorem unique (h : net.WellFormed) (hpq : net.SamePlace other f p q)
    (hpp' : net.SamePlace other f p p') : q = p' := by
  obtain ⟨a, k, hp, hq⟩ := hpq
  exact Option.some.inj (hq.symm.trans (hpp'.getElem? h hp))

end SamePlace

/-- Corresponding agents have equally many ports. -/
theorem Renames.length_portsOf (h : net.WellFormed) (hother : other.WellFormed)
    {f : AgentId → AgentId} (hf : net.Renames other f) {a : AgentId} (ha : (net.agent? a).isSome) :
    (other.portsOf (f a)).length = (net.portsOf a).length := by
  obtain ⟨data, hdata⟩ := Option.isSome_iff_exists.1 ha
  obtain ⟨data', hdata', heq⟩ := hf.symbol hdata
  rw [portsOf_eq hdata, portsOf_eq hdata', h.arity hdata, hother.arity hdata', heq]

theorem SamePlace.unique_left (hother : other.WellFormed) {f : AgentId → AgentId}
    (hf : net.Renames other f) {p p' q : PortId} (hpq : net.SamePlace other f p q)
    (hpq' : net.SamePlace other f p' q) : p = p' := by
  obtain ⟨a, k, hp, hq⟩ := hpq
  obtain ⟨b, j, hp', hq'⟩ := hpq'
  obtain ⟨hagent, rfl⟩ := hother.port_unique hq hq'
  have heq : a = b := hf.bijOn.injOn (isSome_agent?_of_getElem? hp)
    (isSome_agent?_of_getElem? hp') hagent
  rw [heq] at hp
  exact Option.some.inj (hp.symm.trans hp')

/-- Lists that are labelled in the same way correspond when the entries with the same label do. -/
theorem forall₂_of_labels {R : PortId → PortId → Prop} {l l' : List (PortId × Nat)}
    (hlabels : l.map Prod.snd = l'.map Prod.snd)
    (hports : ∀ p p' i, (p, i) ∈ l → (p', i) ∈ l' → R p p') :
    List.Forall₂ R (l.map Prod.fst) (l'.map Prod.fst) := by
  induction l generalizing l' with
  | nil =>
    obtain rfl := List.map_eq_nil_iff.1 hlabels.symm
    exact .nil
  | cons entry rest ih =>
    obtain ⟨p, i⟩ := entry
    obtain ⟨⟨p', j⟩, rest', rfl, hj, hrest⟩ := List.map_eq_cons_iff.1 hlabels.symm
    obtain rfl : j = i := hj
    refine .cons (hports p p' j List.mem_cons_self List.mem_cons_self) (ih hrest.symm ?_)
    exact fun q q' k hq hq' =>
      hports q q' k (List.mem_cons_of_mem _ hq) (List.mem_cons_of_mem _ hq')

/-- Nets with isomorphic drawings are equal up to the choice of ids. -/
theorem renames_of_isIso_draw {ι : Type} {exposed exposed' : ι → PortId → Prop}
    {wired wired' : ι → ι → Prop} {f g : AgentId → AgentId}
    (hfg : (net.draw exposed wired).IsIso (other.draw exposed' wired') f g) :
    net.Renames other f := by
  have hlive : ∀ {a}, (net.agent? a).isSome → ((net.draw exposed wired).symbol a).isSome :=
    isSome_symbol_draw.2
  have hlive' : ∀ {b}, (other.agent? b).isSome → ((other.draw exposed' wired').symbol b).isSome :=
    isSome_symbol_draw.2
  refine ⟨⟨fun a ha => ?_, fun a ha b hb => ?_, fun b hb => ?_⟩, fun {a data} ha => ?_, ?_⟩
  · exact isSome_symbol_draw.1 (hfg.forward.isSome_symbol (hlive ha))
  · exact hfg.forward.injective (hlive ha) (hlive hb)
  · have hgb := hfg.backward.isSome_symbol (hlive' hb)
    exact ⟨g b, isSome_symbol_draw.1 hgb, hfg.backward.inverse (hlive' hb)⟩
  · have hsymbol := hfg.forward.symbol (hlive (by rw [ha]; rfl))
    simp only [draw, ha, Option.map_some, Option.map_eq_some_iff] at hsymbol
    exact hsymbol
  · rintro p q p' q' ⟨a, j, hp, hp'⟩ ⟨b, k, hq, hq'⟩
    have hx : (Point.port a j : Point ι AgentId).IsLive (net.draw exposed wired).symbol :=
      hlive (isSome_agent?_of_getElem? hp)
    have hy : (Point.port b k : Point ι AgentId).IsLive (net.draw exposed wired).symbol :=
      hlive (isSome_agent?_of_getElem? hq)
    exact (draw_joined_port_iff hp hq).symm.trans
      ((hfg.joined_iff hx hy).trans (draw_joined_port_iff hp' hq'))

namespace WellFormed

variable (h : net.WellFormed) (hother : other.WellFormed)

include h hother

/-- Corresponding agents have ports in the same positions. -/
private theorem exists_ports {f : AgentId → AgentId} (hf : net.Renames other f) {a : AgentId}
    (k : Nat) (ha : (net.agent? a).isSome) :
    ((net.portsOf a)[k]? = none ∧ (other.portsOf (f a))[k]? = none) ∨
      ∃ p q, (net.portsOf a)[k]? = some p ∧ (other.portsOf (f a))[k]? = some q := by
  have hlength := hf.length_portsOf h hother ha
  rcases Nat.lt_or_ge k (net.portsOf a).length with hk | hk
  · have hk' : k < (other.portsOf (f a)).length := by omega
    exact .inr ⟨_, _, List.getElem?_eq_getElem hk, List.getElem?_eq_getElem hk'⟩
  · have hk' : (other.portsOf (f a)).length ≤ k := by omega
    exact .inl ⟨List.getElem?_eq_none hk, List.getElem?_eq_none hk'⟩

/-- **Drawings of nets that are equal up to the choice of ids are isomorphic**, if corresponding
ports are exposed at the same places and the same places are wired. -/
theorem exists_isIso_draw {ι : Type} {exposed exposed' : ι → PortId → Prop}
    {wired wired' : ι → ι → Prop} {f : AgentId → AgentId} (hf : net.Renames other f)
    (hexposed : ∀ i {p q}, net.SamePlace other f p q → (exposed i p ↔ exposed' i q))
    (hwired : ∀ i j, wired i j ↔ wired' i j) :
    ∃ g, (net.draw exposed wired).IsIso (other.draw exposed' wired') f g := by
  have hplaces : ∀ {i : ι} {a : AgentId} {k : Nat}, (net.agent? a).isSome →
      ((net.draw exposed wired).joined (.place i) (.port a k) ↔
        (other.draw exposed' wired').joined (.place i) (.port (f a) k)) := by
    intro i a k ha
    rcases h.exists_ports hother hf k ha with ⟨hp, hq⟩ | ⟨p, q, hp, hq⟩
    · rw [Diagram.joined_comm, Diagram.joined_comm (x := .place i)]
      exact iff_of_false (not_draw_joined_of_none hp _) (not_draw_joined_of_none hq _)
    · exact (draw_joined_place_iff hp).trans
        ((hexposed i ⟨a, k, hp, hq⟩).trans (draw_joined_place_iff hq).symm)
  refine Diagram.exists_isIso ?_ ?_ ?_ ?_
  · intro a ha
    obtain ⟨data, hdata⟩ := Option.isSome_iff_exists.1 (isSome_symbol_draw.1 ha)
    obtain ⟨data', hdata', heq⟩ := hf.symbol hdata
    simp only [draw, hdata, hdata', Option.map_some, heq]
  · intro a b ha hb
    exact hf.bijOn.injOn (isSome_symbol_draw.1 ha) (isSome_symbol_draw.1 hb)
  · intro b hb
    obtain ⟨a, ha, rfl⟩ := hf.bijOn.surjOn (isSome_symbol_draw.1 hb)
    exact ⟨a, isSome_symbol_draw.2 ha, rfl⟩
  · rintro (⟨a, j⟩ | i) (⟨b, k⟩ | i') hx hy
    · rcases h.exists_ports hother hf j (isSome_symbol_draw.1 hx) with
        ⟨hp, hp'⟩ | ⟨p, p', hp, hp'⟩
      · exact iff_of_false (not_draw_joined_of_none hp _) (not_draw_joined_of_none hp' _)
      · rcases h.exists_ports hother hf k (isSome_symbol_draw.1 hy) with
          ⟨hq, hq'⟩ | ⟨q, q', hq, hq'⟩
        · rw [Diagram.joined_comm, Diagram.joined_comm (y := Point.map f _)]
          exact iff_of_false (not_draw_joined_of_none hq _) (not_draw_joined_of_none hq' _)
        · exact (draw_joined_port_iff hp hq).trans
            ((hf.joined ⟨a, j, hp, hp'⟩ ⟨b, k, hq, hq'⟩).trans
              (draw_joined_port_iff hp' hq').symm)
    · rw [Diagram.joined_comm, Diagram.joined_comm (y := Point.map f _)]
      exact hplaces (isSome_symbol_draw.1 hx)
    · exact hplaces (isSome_symbol_draw.1 hy)
    · exact draw_joined_places_iff.trans
        ((and_congr (hwired i i') (hwired i' i)).trans draw_joined_places_iff.symm)

/-- The diagrams of isomorphic nets are isomorphic, when places are counted from the same number
on. -/
theorem exists_isIso_of_renames {f : AgentId → AgentId} (hf : net.Renames other f)
    (hinterface : List.Forall₂ (net.SamePlace other f) net.interface other.interface) (k : Nat) :
    ∃ g, (net.diagram (net.interface.zipIdx k)).IsIso (other.diagram (other.interface.zipIdx k))
      f g := by
  refine h.exists_isIso_draw hother hf (fun i {p q} hpq => ?_) fun _ _ => .rfl
  rw [List.mk_mem_zipIdx_iff_le_and_getElem?_sub, List.mk_mem_zipIdx_iff_le_and_getElem?_sub]
  refine and_congr_right fun _ => ⟨fun hi => ?_, fun hi => ?_⟩
  · obtain ⟨q', hi', hpq'⟩ := exists_getElem?_of_forall₂ hinterface hi
    rwa [hpq.unique h hpq']
  · obtain ⟨p', hi', hpq'⟩ := exists_getElem?_of_forall₂ (.flip hinterface) hi
    rwa [hpq.unique_left hother hf hpq']

omit hother in
/-- A place that has a port in a diagram has the corresponding one in an isomorphic diagram. -/
private theorem exists_label_of_embeds (hl : net.IsLabelling labels) {f g : AgentId → AgentId}
    (hfg : (net.diagram labels).Embeds (other.diagram labels') f g) {p : PortId} {i : Nat}
    (hp : (p, i) ∈ labels) : ∃ p', (p', i) ∈ labels' ∧ net.SamePlace other f p p' := by
  have hlive := h.isSome_of_mem_interface (hl.mem_interface hp)
  obtain ⟨a, k, hk⟩ := h.port?_isSome_iff.1 hlive
  have hjoined := hfg.joined ((diagram_joined_place_iff hk).2 hp)
  obtain ⟨p', hp', hk'⟩ : ∃ p', (p', i) ∈ labels' ∧ (other.portsOf (f a))[k]? = some p' := by
    cases hjoined with
    | exposed hp' hk' => exact ⟨_, hp', hk'⟩
  exact ⟨p', hp', a, k, hk, hk'⟩

/-- Nets with isomorphic diagrams are isomorphic, however their places are labelled. -/
theorem isomorphic_of_diagram (hl : net.IsLabelling labels) (hl' : other.IsLabelling labels')
    (hiso : (net.diagram labels).Isomorphic (other.diagram labels')) : net.Isomorphic other := by
  obtain ⟨f, g, hfg⟩ := hiso
  have hlabels : labels.map Prod.snd = labels'.map Prod.snd := by
    refine hl.sorted.eq_of_mem_iff hl'.sorted fun i => ?_
    simp only [List.mem_map, Prod.exists, exists_eq_right]
    constructor
    · rintro ⟨p, hp⟩
      obtain ⟨p', hp', -⟩ := h.exists_label_of_embeds hl hfg.forward hp
      exact ⟨p', hp'⟩
    · rintro ⟨p, hp⟩
      obtain ⟨p', hp', -⟩ := hother.exists_label_of_embeds hl' hfg.backward hp
      exact ⟨p', hp'⟩
  refine ⟨f, renames_of_isIso_draw hfg, ?_⟩
  rw [← hl.ports, ← hl'.ports]
  refine forall₂_of_labels hlabels fun p p' i hp hp' => ?_
  obtain ⟨p'', hp'', hsame⟩ := h.exists_label_of_embeds hl hfg.forward hp
  rwa [hl'.port_unique hp' hp'']

theorem isomorphic_iff : net.Isomorphic other ↔
    (net.diagram net.interface.zipIdx).Isomorphic (other.diagram other.interface.zipIdx) := by
  constructor
  · rintro ⟨f, hf, hinterface⟩
    obtain ⟨g, hiso⟩ := h.exists_isIso_of_renames hother hf hinterface 0
    exact ⟨f, g, hiso⟩
  · exact h.isomorphic_of_diagram hother net.isLabelling_zipIdx other.isLabelling_zipIdx

omit hother in
theorem isomorphic_refl : net.Isomorphic net :=
  (h.isomorphic_iff h).2 (.refl _)

omit hother in
/-- Tallies do not matter. -/
theorem isomorphic_withTally (tally : Tally) : net.Isomorphic { net with tally := tally } := by
  have heq : ∀ {p q}, net.SamePlace { net with tally := tally } id p q → p = q := by
    rintro p q ⟨a, k, hp, hq⟩
    exact Option.some.inj (hp.symm.trans hq)
  refine ⟨id, ⟨Set.bijOn_id _, fun {a data} ha => ⟨data, ha, rfl⟩, ?_⟩, ?_⟩
  · intro p q p' q' hp hq
    rw [heq hp, heq hq]
    exact .rfl
  · refine List.forall₂_same.2 fun p hp => ?_
    obtain ⟨a, k, hk⟩ := h.port?_isSome_iff.1 (h.isSome_of_mem_interface hp)
    exact ⟨a, k, hk, hk⟩

theorem isomorphic_symm (hiso : net.Isomorphic other) : other.Isomorphic net :=
  (hother.isomorphic_iff h).2 ((h.isomorphic_iff hother).1 hiso).symm

theorem isomorphic_trans {last : Net} (hlast : last.WellFormed) (hiso : net.Isomorphic other)
    (hiso' : other.Isomorphic last) : net.Isomorphic last :=
  (h.isomorphic_iff hlast).2 <|
    ((h.isomorphic_iff hother).1 hiso).trans ((hother.isomorphic_iff hlast).1 hiso')

end WellFormed

end Net

end InteractionNets
