import InteractionNets.Proofs.Net.Edits
import Mathlib.Data.Prod.Basic

/-!
# Connecting pairs of ports

A connection is a link that also takes its two ends off the interface and records where they stood.
Pairs of ports are connected one after another (`Net.Connects`); each pair makes one new connection,
and what is not an end of a pair stays as it is. Two lists of ports are connected pairwise after one
look at the net that the first pair finds, and that look sees all that the later pairs could be
refused for (`Net.connectInterface_pairwise`).
-/

namespace InteractionNets

namespace Net

variable {net mid after : Net} {a b p q : PortId} {c : ConnectionId} {data : Connection}

/-- An edit in two parts that is not refused had a first part that was not refused. -/
theorem exists_of_run_bind {α β : Type} {edit : Edit α} {next : α → Edit β} {last : β}
    (h : (edit >>= next).run net = (.ok last, after)) :
    ∃ first mid, edit.run net = (.ok first, mid) ∧ (next first).run mid = (.ok last, after) := by
  rw [Edit.run_bind] at h
  split at h
  · exact ⟨_, _, ‹_›, h⟩
  · cases congrArg Prod.fst h

/-! ### One connection -/

/-- What a connection between two ports is stored as. -/
def joinData (net : Net) (a b : PortId) : Connection :=
  { net.linkData a b with restore := (net.interface.record a, net.interface.record b) }

theorem fst_join (net : Net) (a b : PortId) : (net.join a b).1 = net.nextConnection :=
  net.connections.fst_allocWith _

theorem interface_join (net : Net) (a b : PortId) :
    (net.join a b).2.interface = (net.interface.erase a).erase b := rfl

theorem connection?_join (net : Net) (a b : PortId) (c : ConnectionId) :
    (net.join a b).2.connection? c =
      if c = net.nextConnection then some (net.joinData a b) else net.connection? c := by
  let hidden : Net := { net with interface := (net.interface.erase a).erase b }
  have hjoin : (net.join a b).2.connections = (hidden.link a b).2.connections.modify
      net.nextConnection fun data =>
        { data with restore := (net.interface.record a, net.interface.record b) } := by
    have hfst : (hidden.link a b).1 = net.nextConnection := fst_link ..
    rw [← hfst]
    rfl
  have hlink : (hidden.link a b).2.connections.get? c =
      if c = net.nextConnection then some (net.linkData a b) else net.connection? c :=
    connection?_link hidden a b c
  rw [connection?, hjoin, Arena.get?_modify, hlink]
  by_cases hc : c = net.nextConnection
  · subst hc
    rw [if_pos rfl, if_pos rfl, if_pos rfl]
    rfl
  · rw [if_neg hc, if_neg (Ne.symm hc), if_neg hc]

theorem port?_join (net : Net) (a b p : PortId) :
    (net.join a b).2.port? p =
      if p = a ∨ p = b then
        (net.port? p).map fun port => { port with link := some net.nextConnection }
      else net.port? p :=
  port?_link { net with interface := (net.interface.erase a).erase b } a b p

theorem joined_withRestore (c : ConnectionId) (restore : Restore × Restore) :
    { net with connections := net.connections.modify c fun data => { data with restore } }.Joined
      p q ↔ net.Joined p q := by
  simp only [Joined, connection?, Arena.get?_modify]
  refine exists_congr fun d => ?_
  split
  · simp
  · rfl

theorem joined_join :
    (net.join a b).2.Joined p q ↔ net.Joined p q ∨ (p = a ∧ q = b) ∨ (p = b ∧ q = a) := by
  have hlink : ({ net with interface := (net.interface.erase a).erase b }.link a b).2.Joined p q ↔
      net.Joined p q ∨ (p = a ∧ q = b) ∨ (p = b ∧ q = a) := joined_link
  exact (joined_withRestore _ _).trans hlink

section EitherDirection

variable (hab : a = p ∧ b = q ∨ a = q ∧ b = p)

include hab

/-- Two free ports may be connected in either direction. -/
theorem connectFault?_of_isFree (hne : p ≠ q) (hp : net.IsFree p) (hq : net.IsFree q) :
    net.connectFault? a b = none := by
  rw [connectFault?_eq_none_iff_isFree]
  rcases hab with ⟨rfl, rfl⟩ | ⟨rfl, rfl⟩
  · exact ⟨hne, hp, hq⟩
  · exact ⟨hne.symm, hq, hp⟩

theorem joined_join_ends : (net.join a b).2.Joined p q :=
  joined_join.2 (.inr (hab.imp (.imp Eq.symm Eq.symm) fun hab => ⟨hab.2.symm, hab.1.symm⟩))

theorem interface_join_ends :
    (net.join a b).2.interface = (net.interface.erase p).erase q := by
  rw [interface_join]
  rcases hab with ⟨rfl, rfl⟩ | ⟨rfl, rfl⟩
  · rfl
  · exact List.erase_comm _ _

end EitherDirection

/-! ### Pairs in a row -/

/-- Pairs of ports are connected one after another, and no pair is refused: the connections that
are made, and the net that is left. -/
inductive Connects : List (PortId × PortId) → Net → List ConnectionId → Net → Prop
  | nil (net : Net) : Connects [] net [] net
  | cons {a b : PortId} {rest : List (PortId × PortId)} {net mid after : Net} {c : ConnectionId}
      {connections : List ConnectionId} : (connect a b).run net = (.ok c, mid) →
      Connects rest mid connections after → Connects ((a, b) :: rest) net (c :: connections) after

variable {pairs : List (PortId × PortId)} {connections : List ConnectionId}

theorem run_connectPairs_iff :
    (connectPairs pairs).run net = (.ok connections, after) ↔
      Connects pairs net connections after := by
  constructor
  · intro hrun
    induction pairs generalizing net connections with
    | nil =>
      obtain ⟨hnil, rfl⟩ := Prod.mk.inj hrun
      obtain rfl := Except.ok.inj hnil
      exact .nil net
    | cons pair rest ih =>
      obtain ⟨c, mid, hfirst, hrun⟩ := exists_of_run_bind hrun
      obtain ⟨cs, last, hrest, hlast⟩ := exists_of_run_bind hrun
      obtain ⟨hcs, rfl⟩ := Prod.mk.inj hlast
      obtain rfl := Except.ok.inj hcs
      exact .cons hfirst (ih hrest)
  · intro h
    induction h with
    | nil net => rfl
    | cons hfirst _ ih => rw [connectPairs, run_bind_ok hfirst, run_bind_ok ih, Edit.run_pure]

namespace Connects

/-- The ends of pairs that are connected in a row are different free ports. -/
theorem pairingFault?_eq_none (h : Connects pairs net connections after) :
    net.pairingFault? [] pairs = none := by
  rw [pairingFault?_eq_none_iff]
  suffices (pairEnds pairs).Nodup ∧ ∀ p ∈ pairEnds pairs, net.IsFree p from
    ⟨this.1, fun p hp => ⟨this.2 p hp, List.not_mem_nil⟩⟩
  induction h with
  | nil net => simp
  | @cons a b rest net mid after c cs hfirst _ ih =>
    obtain ⟨hnodup, hfree⟩ := ih
    obtain ⟨hnone, rfl⟩ := join_of_run_connect hfirst
    obtain ⟨hab, hfreeA, hfreeB⟩ := connectFault?_eq_none_iff_isFree.1 hnone
    -- an end of a later pair is free after the first pair is connected, so it is no end of that one
    have hrest : ∀ p ∈ pairEnds rest, net.IsFree p ∧ p ≠ a ∧ p ≠ b :=
      fun p hp => isFree_join.1 (hfree p hp)
    rw [pairEnds_cons]
    refine ⟨?_, ?_⟩
    · simp only [List.nodup_cons, List.mem_cons, not_or]
      exact ⟨⟨hab, fun hmem => (hrest a hmem).2.1 rfl⟩, fun hmem => (hrest b hmem).2.2 rfl, hnodup⟩
    · simp only [List.mem_cons, forall_eq_or_imp]
      exact ⟨hfreeA, hfreeB, fun p hp => (hrest p hp).1⟩

variable (h : Connects pairs net connections after)

include h

theorem wellFormed (hwell : net.WellFormed) : after.WellFormed := by
  have hrun := hwell.run_connectPairs pairs
  rwa [run_connectPairs_iff.2 h] at hrun

theorem agents_eq : after.agents = net.agents := by
  induction h with
  | nil net => rfl
  | cons hfirst _ ih =>
    obtain ⟨-, rfl⟩ := join_of_run_connect hfirst
    exact ih

theorem tally_eq : after.tally = net.tally := by
  induction h with
  | nil net => rfl
  | cons hfirst _ ih =>
    obtain ⟨-, rfl⟩ := join_of_run_connect hfirst
    exact ih

/-- The ends leave the interface. -/
theorem interface_eq : after.interface = (pairEnds pairs).foldl List.erase net.interface := by
  induction h with
  | nil net => rfl
  | cons hfirst _ ih =>
    obtain ⟨-, rfl⟩ := join_of_run_connect hfirst
    exact ih

/-- Every other port is as before. -/
theorem port?_of_not_mem (hp : p ∉ pairEnds pairs) : after.port? p = net.port? p := by
  induction h with
  | nil net => rfl
  | cons hfirst _ ih =>
    obtain ⟨-, rfl⟩ := join_of_run_connect hfirst
    obtain ⟨ha, hb, hrest⟩ : p ≠ _ ∧ p ≠ _ ∧ p ∉ pairEnds _ := by simpa [not_or] using hp
    rw [ih hrest, port?_join, if_neg (not_or.2 ⟨ha, hb⟩)]

/-- Ports are joined as before, and the two ports of a pair are joined. -/
theorem joined_iff : after.Joined p q ↔ net.Joined p q ∨ (p, q) ∈ pairs ∨ (q, p) ∈ pairs := by
  induction h with
  | nil net => simp
  | @cons a b _ _ _ _ _ _ hfirst _ ih =>
    obtain ⟨-, rfl⟩ := join_of_run_connect hfirst
    rw [ih, joined_join, List.mem_cons, List.mem_cons, Prod.mk.injEq, Prod.mk.injEq, or_assoc,
      or_or_or_comm, and_comm (a := p = b)]

/-- Connections that are there stay there. -/
theorem connection?_of_some (hc : net.connection? c = some data) :
    after.connection? c = some data := by
  induction h with
  | nil net => exact hc
  | @cons a b _ net _ _ _ _ hfirst _ ih =>
    obtain ⟨-, rfl⟩ := join_of_run_connect hfirst
    have hne : c ≠ net.nextConnection := by
      rintro rfl
      rw [connection?_nextConnection] at hc
      cases hc
    exact ih (by rw [connection?_join, if_neg hne, hc])

/-- Every pair gets a connection under an id that was vacant. -/
theorem exists_connection {pair : PortId × PortId} (hpair : pair ∈ pairs) :
    ∃ c data, net.connection? c = none ∧ after.connection? c = some data ∧ data.ports = pair := by
  induction h with
  | nil net => cases hpair
  | @cons a b _ net _ _ _ _ hfirst hrest ih =>
    obtain ⟨-, rfl⟩ := join_of_run_connect hfirst
    rcases List.mem_cons.1 hpair with rfl | hlater
    · refine ⟨net.nextConnection, net.joinData a b, net.connection?_nextConnection,
        hrest.connection?_of_some ?_, rfl⟩
      rw [connection?_join, if_pos rfl]
    · obtain ⟨c, data, hvacant, hc, hports⟩ := ih hlater
      refine ⟨c, data, ?_, hc, hports⟩
      rw [connection?_join] at hvacant
      split at hvacant
      · cases hvacant
      · exact hvacant

/-- Every connection was there before or is made for one of the pairs. -/
theorem connection_cases (hc : after.connection? c = some data) :
    net.connection? c = some data ∨ data.ports ∈ pairs := by
  induction h with
  | nil net => exact .inl hc
  | cons hfirst _ ih =>
    obtain ⟨-, rfl⟩ := join_of_run_connect hfirst
    rcases ih hc with hmid | hmem
    · rw [connection?_join] at hmid
      split at hmid
      · obtain rfl := Option.some.inj hmid
        exact .inr List.mem_cons_self
      · exact .inl hmid
    · exact .inr (List.mem_cons_of_mem _ hmem)

end Connects

/-- Pairs of ports can be connected in a row exactly when all their ends are different and free. -/
theorem exists_connects_iff : (∃ connections after, Connects pairs net connections after) ↔
    (pairEnds pairs).Nodup ∧ ∀ p ∈ pairEnds pairs, net.IsFree p := by
  constructor
  · rintro ⟨connections, after, h⟩
    obtain ⟨hnodup, hends⟩ := pairingFault?_eq_none_iff.1 h.pairingFault?_eq_none
    exact ⟨hnodup, fun p hp => (hends p hp).1⟩
  · rintro ⟨hnodup, hfree⟩
    obtain ⟨connections, after, hrun⟩ := exists_run_connectPairs hnodup hfree
    exact ⟨connections, after, run_connectPairs_iff.1 hrun⟩

/-! ### All pairs or none -/

theorem connectInterfaceFault?_eq_none_iff {left right : List PortId} :
    net.connectInterfaceFault? left right = none ↔
      left.length = right.length ∧ net.pairingFault? [] (left.zip right) = none := by
  by_cases hlength : left.length = right.length <;> simp [connectInterfaceFault?, hlength]

/-- **Two lists of ports are connected pairwise or not at all.** The lists are connected exactly
when they are equally long and their pairs can be connected one after another. Then the connections
that are given back, and the net that is left, are those of the single connections; otherwise
nothing changes. -/
theorem connectInterface_pairwise (net : Net) (left right : List PortId) :
    (∀ connections after, (connectInterface left right).run net = (.ok connections, after) ↔
      left.length = right.length ∧ Connects (left.zip right) net connections after) ∧
    ∀ fault after, (connectInterface left right).run net = (.error fault, after) → after = net := by
  rw [connectInterface, Edit.run_bind, Edit.run_guard]
  cases hfault : net.connectInterfaceFault? left right with
  | some fault =>
    refine ⟨fun connections after => ⟨fun hok => ?_, ?_⟩,
      fun _ after herror => (congrArg Prod.snd herror).symm⟩
    · cases congrArg Prod.fst hok
    · rintro ⟨hlength, h⟩
      rw [connectInterfaceFault?_eq_none_iff.2 ⟨hlength, h.pairingFault?_eq_none⟩] at hfault
      cases hfault
  | none =>
    obtain ⟨hlength, hpairs⟩ := connectInterfaceFault?_eq_none_iff.1 hfault
    obtain ⟨hnodup, hends⟩ := pairingFault?_eq_none_iff.1 hpairs
    refine ⟨fun connections after => ?_, fun fault after herror => ?_⟩
    · rw [and_iff_right hlength]
      exact run_connectPairs_iff
    · -- what the check lets through is connected to the end
      obtain ⟨_, _, hrun⟩ := exists_run_connectPairs hnodup fun p hp => (hends p hp).1
      cases congrArg Prod.fst (hrun.symm.trans herror)

/-- Two passages that are not connected. -/
def loosePassages : Net :=
  ((single passage).newAgent passage).2

/-- The ports of one passage are connected to those of the other one. When the second pair takes up
a port of the first one again, the first pair is not connected either. -/
theorem connectInterface_loosePassages :
    (∃ connections after, Connects [(0, 3), (1, 2)] loosePassages connections after) ∧
      ((connectInterface [0, 1] [3, 0]).run loosePassages).2 = loosePassages := by
  constructor
  · have hok := (connectInterface_pairwise loosePassages [0, 1] [3, 2]).1 [0, 1]
    exact ⟨_, _, ((hok _).1 (Prod.fst_eq_iff.1 (by decide +kernel))).2⟩
  · exact (connectInterface_pairwise loosePassages [0, 1] [3, 0]).2 (.doubleConnect 0) _
      (Prod.fst_eq_iff.1 (by decide +kernel))

end Net

end InteractionNets
