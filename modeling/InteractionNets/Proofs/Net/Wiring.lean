import InteractionNets.Net.Compose

/-!
# What wiring leads to

Wiring a net is connecting free ports and taking connections apart, one after another, and it may be
refused along the way. So a relation between nets that holds of either, and that is reflexive and
transitive (`Net.FollowsWiring`), holds between the net before and the net after every edit that
does nothing else, whether the edit is refused or not (`Edit.Leads`). Nets are put together by
copying the one into the other and wiring the result, so such a relation holds between the net with
the copy in it and the net that is made.
-/

namespace InteractionNets

open Net

variable {α β : Type} {R : Net → Net → Prop}

namespace Net

variable {net : Net}

/-! ### Runs of edits -/

/-- An edit that is not refused is followed by the next one. -/
theorem run_bind_ok {edit : Edit α} {next : α → Edit β} {mid : Net} {a : α}
    (h : edit.run net = (.ok a, mid)) : (edit >>= next).run net = (next a).run mid := by
  rw [Edit.run_bind, h]

theorem run_connect_of_none {a b : PortId} (hab : net.connectFault? a b = none) :
    (connect a b).run net = (.ok (net.join a b).1, (net.join a b).2) := by
  rw [connect, Edit.run_bind, Edit.run_guard, hab]
  rfl

theorem run_connect_of_some {a b : PortId} {fault : Fault}
    (hab : net.connectFault? a b = some fault) : (connect a b).run net = (.error fault, net) := by
  rw [connect, Edit.run_bind, Edit.run_guard, hab]

/-- Ports that were connected could be. -/
theorem join_of_run_connect {a b : PortId} {c : ConnectionId} {after : Net}
    (hrun : (connect a b).run net = (.ok c, after)) :
    net.connectFault? a b = none ∧ after = (net.join a b).2 := by
  cases hab : net.connectFault? a b with
  | none =>
    rw [run_connect_of_none hab] at hrun
    exact ⟨rfl, (congrArg Prod.snd hrun).symm⟩
  | some fault =>
    rw [run_connect_of_some hab] at hrun
    cases congrArg Prod.fst hrun

theorem run_disconnect_of_some {c : ConnectionId} {data : Connection}
    (hc : net.connection? c = some data) :
    (disconnect c).run net = (.ok data.ports, net.separate c data) := by
  simp only [disconnect, Edit.run, hc]

theorem run_disconnect_of_none {c : ConnectionId} (hc : net.connection? c = none) :
    (disconnect c).run net = (.error (.unknownConnection c), net) := by
  simp only [disconnect, Edit.run, hc]

end Net

/-! ### Relations that follow wiring -/

/-- Whether it is refused or not, an edit leaves a net that stands in a relation to the one
before. -/
def Edit.Leads (R : Net → Net → Prop) (edit : Edit α) : Prop :=
  ∀ net, R net (edit.run net).2

/-- A relation of a net to what becomes of it when it is wired. -/
structure Net.FollowsWiring (R : Net → Net → Prop) : Prop where
  refl : ∀ net, R net net
  trans : ∀ {net mid after}, R net mid → R mid after → R net after
  join : ∀ {net : Net} {a b}, net.connectFault? a b = none → R net (net.join a b).2
  separate : ∀ {net : Net} {c data}, net.connection? c = some data → R net (net.separate c data)

namespace Net.FollowsWiring

variable (h : FollowsWiring R)

include h

theorem pure (a : α) : (Pure.pure a : Edit α).Leads R :=
  h.refl

theorem fail (fault : Fault) : (Edit.fail fault : Edit α).Leads R :=
  h.refl

theorem look (f : Net → Except Fault α) : (Edit.look f).Leads R :=
  h.refl

theorem guard (check : Net → Option Fault) : (Edit.guard check).Leads R := by
  intro net
  rw [Edit.run_guard]
  cases check net <;> exact h.refl net

theorem bind {edit : Edit α} {next : α → Edit β} (hedit : edit.Leads R)
    (hnext : ∀ a, (next a).Leads R) : (edit >>= next).Leads R := by
  intro net
  have hmid := hedit net
  rw [Edit.run_bind]
  rcases hrun : edit.run net with ⟨fault | a, mid⟩ <;> rw [hrun] at hmid
  · exact hmid
  · exact h.trans hmid (hnext a mid)

theorem connect (a b : PortId) : (Net.connect a b).Leads R := by
  intro net
  cases hab : net.connectFault? a b with
  | some fault =>
    rw [run_connect_of_some hab]
    exact h.refl net
  | none =>
    rw [run_connect_of_none hab]
    exact h.join hab

theorem connectPairs (pairs : List (PortId × PortId)) : (Net.connectPairs pairs).Leads R := by
  induction pairs with
  | nil => exact h.pure []
  | cons pair rest ih =>
    exact h.bind (h.connect pair.1 pair.2) fun _ => h.bind ih fun _ => h.pure _

theorem connectInterface (left right : List PortId) :
    (Net.connectInterface left right).Leads R :=
  h.bind (h.guard _) fun _ => h.connectPairs _

theorem disconnect (c : ConnectionId) : (Net.disconnect c).Leads R := by
  intro net
  cases hc : net.connection? c with
  | none =>
    rw [run_disconnect_of_none hc]
    exact h.refl net
  | some data =>
    rw [run_disconnect_of_some hc]
    exact h.separate hc

theorem disconnectPorts (ports : List PortId) : (Net.disconnectPorts ports).Leads R := by
  induction ports with
  | nil => exact h.pure ()
  | cons port rest ih =>
    refine h.bind (h.look _) fun link => ?_
    cases link with
    | none => exact h.bind (h.pure ()) fun _ => ih
    | some c => exact h.bind (h.disconnect c) fun _ => ih

/-! ### Putting nets together -/

theorem plugPairs (map : PortMap) (pairs : List (PortId × PortId)) :
    (Net.plugPairs map pairs).Leads R := by
  induction pairs with
  | nil => exact h.pure ()
  | cons pair rest ih =>
    rw [Net.plugPairs]
    split
    · exact h.fail _
    · exact h.bind (h.connect pair.1 _) fun _ => ih

variable {left right after : Net}

/-- Plugging two nets into each other is wiring the left one with a copy of the right one in it. -/
theorem plug {pairs : List (PortId × PortId)} (hafter : left.plug right pairs = .ok after) :
    R (left.inject right true).2 after := by
  rw [Net.plug] at hafter
  generalize left.inject right true = copied at hafter ⊢
  obtain ⟨map, mid⟩ := copied
  have hwired := h.plugPairs map pairs mid
  simp only [Edit.result] at hafter
  simp only [Edit.run] at hwired
  generalize Net.plugPairs map pairs mid = out at hafter hwired
  obtain ⟨_ | _, last⟩ := out
  · cases hafter
  · obtain rfl : last = after := Except.ok.inj hafter
    exact hwired

theorem sequential (hafter : left.sequential right = .ok after) :
    R (left.inject right true).2 after := by
  rw [Net.sequential] at hafter
  split at hafter
  · cases hafter
  · exact h.plug hafter

theorem compose {mapping : OrderedMap PortId PortId}
    (hafter : left.compose right mapping = .ok after) : R (left.inject right true).2 after := by
  rw [Net.compose] at hafter
  split at hafter
  · cases hafter
  · exact h.plug hafter

end Net.FollowsWiring

end InteractionNets
