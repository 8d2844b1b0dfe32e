import InteractionNets.Proofs.Net.Lookup
import InteractionNets.Proofs.Net.Wiring
import InteractionNets.Proofs.Tally

/-!
# Nets with another tally

Nothing that is done to a net looks at its tally. Wiring leaves the tally alone
(`Edit.KeepsTally`), copying a net in adds the tally of that net (`Net.tally_inject`), and what is
done to the rest of the net is the same whatever the tally is.
-/

namespace InteractionNets

open Net

variable {α : Type}

/-! ### Wiring -/

/-- An edit that leaves the tally alone, whether it is refused or not. -/
def Edit.KeepsTally (edit : Edit α) : Prop :=
  ∀ net, (edit.run net).2.tally = net.tally

namespace Net

theorem followsWiring_tally : FollowsWiring fun net after => after.tally = net.tally where
  refl _ := rfl
  trans hfirst hsecond := hsecond.trans hfirst
  join _ := rfl
  separate := @fun net c _ _ => tally_unlink net c

theorem keepsTally_removeAgent (agent : AgentId) : (removeAgent agent).KeepsTally := by
  refine followsWiring_tally.bind (followsWiring_tally.look _) fun data => ?_
  cases data with
  | none => exact followsWiring_tally.fail _
  | some data =>
    exact followsWiring_tally.bind (followsWiring_tally.disconnectPorts data.ports) fun _ =>
      followsWiring_tally.bind (fun net => tally_dropAgent net agent) fun _ =>
        followsWiring_tally.pure _

/-! ### Operations that pass the tally on -/

section WithTally

variable (net : Net) (tally : Tally)

theorem unlink_withTally (c : ConnectionId) :
    { net with tally := tally }.unlink c = { net.unlink c with tally := tally } := by
  rw [unlink, unlink, connection?_withTally]
  cases net.connection? c <;> rfl

theorem copyAgents_withTally (agents : List Agent) :
    copyAgents agents { net with tally := tally } =
      ((copyAgents agents net).1, { (copyAgents agents net).2 with tally := tally }) := by
  induction agents generalizing net with
  | nil => rfl
  | cons agent rest ih =>
    have halloc : { net with tally := tally }.allocAgent agent.symbol =
        ((net.allocAgent agent.symbol).1,
          { (net.allocAgent agent.symbol).2 with tally := tally }) := rfl
    simp only [copyAgents, halloc, ih]
    rfl

theorem copyConnections_withTally (map : PortMap) (connections : List Connection) :
    copyConnections map connections { net with tally := tally } =
      { copyConnections map connections net with tally := tally } := by
  induction connections generalizing net with
  | nil => rfl
  | cons connection rest ih =>
    simp only [copyConnections]
    split
    · rename_i a b _ _
      exact ih (net.link a b).2
    · exact ih net

end WithTally

/-! ### Putting nets together -/

/-- Copying a net in adds its tally. -/
theorem tally_inject (host other : Net) (expose : Bool) :
    (host.inject other expose).2.tally = host.tally + other.tally := by
  have hagents : (copyAgents other.agentList host).2.tally = host.tally :=
    congrArg (Net.tally ∘ Prod.snd) (copyAgents_withTally host host.tally other.agentList)
  have hconnections : ∀ map connections (net : Net),
      (copyConnections map connections net).tally = net.tally := by
    intro map connections net
    have hsame := congrArg Net.tally (copyConnections_withTally net net.tally map connections)
    exact hsame
  show (copyConnections _ _ _).tally + other.tally = _
  rw [hconnections, hagents]

variable {left right after : Net}

/-- Nets that are composed have their tallies added. -/
theorem tally_sequential (h : left.sequential right = .ok after) :
    after.tally = left.tally + right.tally :=
  (followsWiring_tally.sequential h).trans (tally_inject left right true)

theorem tally_compose {mapping : OrderedMap PortId PortId}
    (h : left.compose right mapping = .ok after) : after.tally = left.tally + right.tally :=
  (followsWiring_tally.compose h).trans (tally_inject left right true)

end Net

end InteractionNets
