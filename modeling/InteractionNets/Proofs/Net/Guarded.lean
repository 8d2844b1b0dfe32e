import InteractionNets.Proofs.Net.Composition
import InteractionNets.Proofs.Net.GuardedEdit
import InteractionNets.Proofs.Net.WithTally

/-!
# Guarded wiring and composition

Wiring and copying look things up that they count on: the ports that a link joins, the copy of a
port in a port map, the agent that is to be dropped. They also count on a port that is given back
to the interface not being there already. In well-formed nets they find all of it, so the guarded
edits here are safe (`GuardedEdit.Safe`): wiring never stops, and nets are put together unless the
sum of their tallies is out of range.
-/

namespace InteractionNets

/-! ### Places on the interface -/

/-- Put a port on the interface that is not there yet. -/
def Interface.insertAt? (l : Interface) (position : Nat) (port : PortId) : Option Interface :=
  if port ∈ l then none else some (l.insertAt position port)

/-- Give back the two ends of a removed connection, where neither is on the interface yet when it
is put back to its place. -/
def Interface.release? (l : Interface) (ports : PortId × PortId) (restore : Restore × Restore) :
    Option Interface :=
  let l := (l.releaseUnrecorded ports.1 restore.1).releaseUnrecorded ports.2 restore.2
  match restore with
  | (.interface i, .interface j) =>
    if i < j ∨ (i = j ∧ ports.1 ≤ ports.2) then
      (l.insertAt? i ports.1).bind fun l => l.insertAt? j ports.2
    else (l.insertAt? j ports.2).bind fun l => l.insertAt? i ports.1
  | (.interface i, _) => l.insertAt? i ports.1
  | (_, .interface j) => l.insertAt? j ports.2
  | _ => some l

namespace Interface

theorem insertAt?_eq {l : Interface} {p : PortId} (h : p ∉ l) (i : Nat) :
    l.insertAt? i p = some (l.insertAt i p) := by
  rw [insertAt?, if_neg h]

/-- Two different ports that are not on the interface can be given back. -/
theorem release?_eq {l : Interface} {ports : PortId × PortId} (hne : ports.1 ≠ ports.2)
    (h₁ : ports.1 ∉ l) (h₂ : ports.2 ∉ l) (restore : Restore × Restore) :
    l.release? ports restore = some (l.release ports restore) := by
  obtain ⟨p, q⟩ := ports
  obtain ⟨r, s⟩ := restore
  have hpq : ∀ i, q ∉ l.insertAt i p := by
    intro i
    rw [mem_insertAt]
    exact not_or.2 ⟨hne.symm, h₂⟩
  have hqp : ∀ i, p ∉ l.insertAt i q := by
    intro i
    rw [mem_insertAt]
    exact not_or.2 ⟨hne, h₁⟩
  have hpush₁ : p ∉ l.push q := by
    rw [mem_push]
    exact not_or.2 ⟨h₁, hne⟩
  have hpush₂ : q ∉ l.push p := by
    rw [mem_push]
    exact not_or.2 ⟨h₂, hne.symm⟩
  cases r <;> cases s <;> simp only [release?, release, releaseUnrecorded]
  case interface.interface i j =>
    split
    · rw [insertAt?_eq h₁, Option.bind_some, insertAt?_eq (hpq i)]
    · rw [insertAt?_eq h₂, Option.bind_some, insertAt?_eq (hqp j)]
  case interface.hidden i => exact insertAt?_eq h₁ i
  case interface.unrecorded i => exact insertAt?_eq hpush₁ i
  case hidden.interface j => exact insertAt?_eq h₂ j
  case unrecorded.interface j => exact insertAt?_eq hpush₂ j

end Interface

namespace Net

variable {net : Net}

open GuardedEdit

/-! ### Linking and connecting -/

/-- Make a connection between two ports that exist. -/
def link? (net : Net) (a b : PortId) : Option (ConnectionId × Net) :=
  if (net.port? a).isSome && (net.port? b).isSome then some (net.link a b) else none

theorem link?_eq {a b : PortId} (ha : (net.port? a).isSome) (hb : (net.port? b).isSome) :
    net.link? a b = some (net.link a b) := by
  simp [link?, ha, hb]

/-- Connect two ports that may be connected and exist. -/
def join? (net : Net) (a b : PortId) : Option (ConnectionId × Net) :=
  let restore := (net.interface.record a, net.interface.record b)
  let net := { net with interface := (net.interface.erase a).erase b }
  (net.link? a b).map fun (connection, net) =>
    (connection, { net with
      connections := net.connections.modify connection fun data => { data with restore } })

/-- Connect two ports. -/
def connect? (a b : PortId) : GuardedEdit ConnectionId := do
  .of (.guard fun net => net.connectFault? a b)
  .update fun net => net.join? a b

theorem safe_connect? (a b : PortId) : (connect? a b).Safe (connect a b) := by
  intro net h
  refine (safe_guard _ net h).andThen fun _ after hafter => ?_
  rw [Edit.run_guard] at hafter
  split at hafter
  · cases hafter
  · rename_i hfault
    cases hafter
    obtain ⟨-, ⟨dataA, hdataA, -⟩, dataB, hdataB, -⟩ := connectFault?_eq_none_iff.1 hfault
    have hlink := @link?_eq { net with interface := (net.interface.erase a).erase b } a b
      (by simp [hdataA]) (by simp [hdataB])
    have hrun : (update fun net => net.join? a b).run net =
        some ((Edit.update fun net => net.join a b).run net) := by
      simp only [GuardedEdit.run, update, join?, hlink]
      rfl
    rw [hrun]
    exact .of_tally_eq (h.join hfault) rfl

/-- Connect pairs of ports one after another. -/
def connectPairs? : List (PortId × PortId) → GuardedEdit (List ConnectionId)
  | [] => pure []
  | (a, b) :: rest => do
    let connection ← connect? a b
    let connections ← connectPairs? rest
    return connection :: connections

theorem safe_connectPairs? (pairs : List (PortId × PortId)) :
    (connectPairs? pairs).Safe (connectPairs pairs) := by
  induction pairs with
  | nil => exact safe_pure []
  | cons pair rest ih =>
    obtain ⟨a, b⟩ := pair
    exact (safe_connect? a b).bind fun connection => ih.bind fun connections => safe_pure _

/-- Connect two equally long lists of ports pairwise. -/
def connectInterface? (left right : List PortId) : GuardedEdit (List ConnectionId) := do
  .of (.guard fun net => net.connectInterfaceFault? left right)
  connectPairs? (left.zip right)

theorem safe_connectInterface? (left right : List PortId) :
    (connectInterface? left right).Safe (connectInterface left right) := by
  exact (safe_guard _).bind fun _ => safe_connectPairs? _

/-! ### Disconnecting -/

/-- Remove a known connection, and give its ports back to the places they came from. -/
def separate? (net : Net) (connection : ConnectionId) (data : Connection) : Option Net :=
  let net := net.unlink connection
  (net.interface.release? data.ports data.restore).map fun interface => { net with interface }

theorem separate?_eq (h : net.WellFormed) {c : ConnectionId} {data : Connection}
    (hc : net.connection? c = some data) : net.separate? c data = some (net.separate c data) := by
  have hjoined : net.Joined data.ports.1 data.ports.2 := ⟨c, data, hc, .inl rfl⟩
  have hrelease := Interface.release?_eq (h.ends_ne hc)
    (h.not_mem_interface_of_joined hjoined) (h.not_mem_interface_of_joined hjoined.symm)
    data.restore
  simp only [separate?, separate, interface_unlink, hrelease, Option.map_some]

/-- Remove a connection. -/
def disconnect? (connection : ConnectionId) : GuardedEdit (PortId × PortId) := fun net =>
  match net.connection? connection with
  | none => some (.error (.unknownConnection connection), net)
  | some data => (net.separate? connection data).map fun net => (.ok data.ports, net)

theorem safe_disconnect? (c : ConnectionId) : (disconnect? c).Safe (disconnect c) := by
  intro net h
  have hrun : (disconnect? c).run net = some ((disconnect c).run net) := by
    cases hc : net.connection? c with
    | none => simp only [GuardedEdit.run, disconnect?, hc, run_disconnect_of_none hc]
    | some data =>
      simp only [GuardedEdit.run, disconnect?, hc, run_disconnect_of_some hc, separate?_eq h hc,
        Option.map_some]
  rw [hrun]
  exact .of_tally_eq (h.run_disconnect c) (followsWiring_tally.disconnect c net)

/-- Remove the connections that some ports take part in. -/
def disconnectPorts? : List PortId → GuardedEdit Unit
  | [] => pure ()
  | port :: rest => do
    match ← GuardedEdit.of (Edit.look fun net => .ok (net.linkOf? port)) with
    | none => pure ()
    | some connection => let _ ← disconnect? connection
    disconnectPorts? rest

theorem safe_disconnectPorts? (ports : List PortId) :
    (disconnectPorts? ports).Safe (disconnectPorts ports) := by
  induction ports with
  | nil => exact safe_pure ()
  | cons port rest ih =>
    refine (safe_look _).bind fun link => ?_
    cases link with
    | none => exact ih
    | some connection => exact (safe_disconnect? connection).bind fun _ => ih

/-- Drop an agent that is there, for its symbol. -/
def dropAgent? (agent : AgentId) (symbol : Symbol) : GuardedEdit Symbol :=
  .update fun net =>
    match net.agent? agent with
    | none => none
    | some _ => some (symbol, net.dropAgent agent)

/-- Take an agent out, with every connection that touches it. -/
def removeAgent? (agent : AgentId) : GuardedEdit Symbol := do
  match ← GuardedEdit.of (Edit.look fun net => .ok (net.agent? agent)) with
  | none => .of (.fail (.unknownAgent agent))
  | some data =>
    disconnectPorts? data.ports
    dropAgent? agent data.symbol

theorem safe_removeAgent? (a : AgentId) : (removeAgent? a).Safe (removeAgent a) := by
  intro net h
  refine (safe_look (fun net => .ok (net.agent? a)) net h).andThen fun found after hafter => ?_
  rw [Edit.run_look] at hafter
  cases hafter
  cases ha : net.agent? a with
  | none => exact safe_fail _ net h
  | some data =>
    obtain ⟨after, hrun, hcut⟩ := h.exists_isCutAt data.ports
    refine (safe_disconnectPorts? data.ports net h).andThen fun _ after' hafter' => ?_
    rw [hrun] at hafter'
    cases hafter'
    -- the agent is still there when its connections are gone
    have hlive : after.agent? a = some data := by rwa [agent?, hcut.agents]
    have hdrop : (dropAgent? a data.symbol).run after =
        some ((do Edit.change fun net => net.dropAgent a; return data.symbol : Edit Symbol).run
          after) := by
      simp only [GuardedEdit.run, dropAgent?, update, hlive]
      rfl
    rw [hdrop]
    exact .of_tally_eq (IsCutAt.isWithout h (portsOf_eq ha ▸ hcut)).wellFormed
      (tally_dropAgent after a)

/-! ### Copying -/

/-- Make a copy of each of some connections, whose ends the port map lists. -/
def copyConnections? (map : PortMap) : List Connection → Net → Option Net
  | [], host => some host
  | connection :: rest, host =>
    match map.lookup connection.ports.1, map.lookup connection.ports.2 with
    | some a, some b => (host.link? a b).bind fun (_, host) => copyConnections? map rest host
    | _, _ => none

theorem isSome_port?_link {a b p : PortId} (hp : (net.port? p).isSome) :
    ((net.link a b).2.port? p).isSome := by
  rw [port?_link]
  split
  · rwa [Option.isSome_map]
  · exact hp

theorem copyConnections?_eq {map : PortMap} {connections : List Connection}
    (hmap : ∀ c ∈ connections, ∀ p, p = c.ports.1 ∨ p = c.ports.2 →
      ∃ q, map.lookup p = some q ∧ (net.port? q).isSome) :
    copyConnections? map connections net = some (copyConnections map connections net) := by
  induction connections generalizing net with
  | nil => rfl
  | cons c rest ih =>
    obtain ⟨a, ha, hliveA⟩ := hmap c List.mem_cons_self _ (.inl rfl)
    obtain ⟨b, hb, hliveB⟩ := hmap c List.mem_cons_self _ (.inr rfl)
    simp only [copyConnections?, copyConnections, ha, hb, link?_eq hliveA hliveB,
      Option.bind_some]
    refine ih fun d hd p hp => ?_
    obtain ⟨q, hq, hliveQ⟩ := hmap d (List.mem_cons_of_mem _ hd) p hp
    exact ⟨q, hq, isSome_port?_link hliveQ⟩

/-- The copies of some ports, all of which the port map lists. -/
def copyPorts? (map : PortMap) : List PortId → Option (List PortId)
  | [] => some []
  | port :: rest =>
    match map.lookup port with
    | none => none
    | some copy => (copyPorts? map rest).map (copy :: ·)

theorem copyPorts?_eq {map : PortMap} {ports : List PortId}
    (hports : ∀ p ∈ ports, (map.lookup p).isSome) :
    copyPorts? map ports = some (ports.filterMap fun port => map.lookup port) := by
  induction ports with
  | nil => rfl
  | cons p rest ih =>
    obtain ⟨q, hq⟩ := Option.isSome_iff_exists.1 (hports p List.mem_cons_self)
    have hrest := ih fun r hr => hports r (List.mem_cons_of_mem _ hr)
    rw [List.filterMap_cons, hq]
    simp only [copyPorts?, hq, hrest, Option.map_some]

/-- Copy a net, all of whose ports get copies, into a host. -/
def inject? (host other : Net) (expose : Bool) : Option (PortMap × Net) :=
  let (map, host) := copyAgents other.agentList host
  (copyConnections? map other.connectionList host).bind fun host =>
    (if expose then (copyPorts? map other.interface).map host.interface.extend
      else some host.interface).bind fun interface =>
        checkTally (map, { host with interface, tally := host.tally + other.tally })

/-- A net can be copied into another one, unless the sum of their tallies is out of range. -/
theorem inject?_eq (h : net.WellFormed) {other : Net} (hother : other.WellFormed)
    (expose : Bool) : net.inject? other expose = checkTally (net.inject other expose) := by
  obtain ⟨copy, hcopies, hlookup, -⟩ := exists_copiesAgents hother h
  have hconnections : copyConnections? (copyAgents other.agentList net).1 other.connectionList
      (copyAgents other.agentList net).2 = some (copyConnections _ _ _) :=
    copyConnections?_eq fun c hc p hp =>
      have hlive := hother.isSome_of_mem_ends hc hp
      ⟨_, hlookup p hlive, hcopies.port_copy hother hlive⟩
  have hports : copyPorts? (copyAgents other.agentList net).1 other.interface = some _ :=
    copyPorts?_eq fun p hp => by
      rw [hlookup p (hother.isSome_of_mem_interface hp)]
      rfl
  simp only [inject?, hconnections, Option.bind_some, hports, inject]
  cases expose <;> rfl

theorem safe_inject? (h : net.WellFormed) {other : Net} (hother : other.WellFormed)
    (expose : Bool) : SafeOutcome net (net.inject? other expose) (net.inject other expose) := by
  rw [inject?_eq h hother]
  refine .of_checkTally (h.inject hother expose) ?_
  rw [tally_inject]
  exact net.tally.growsTo_add other.tally

/-- Two nets side by side. -/
def parallel? (left right : Net) : Option Net :=
  (left.inject? right true).map Prod.snd

/-! ### Composing -/

/-- Connect ports of a host with the copies, listed in the port map, of ports of a copied net. -/
def plugPairs? (map : PortMap) : List (PortId × PortId) → GuardedEdit Unit
  | [] => pure ()
  | (a, b) :: rest => do
    let copy ← .update fun net => (map.lookup b).map fun copy => (copy, net)
    let _ ← connect? a copy
    plugPairs? map rest

theorem safe_plugPairs? {map : PortMap} {pairs : List (PortId × PortId)}
    (hpairs : ∀ pair ∈ pairs, (map.lookup pair.2).isSome) :
    (plugPairs? map pairs).Safe (plugPairs map pairs) := by
  induction pairs with
  | nil => exact safe_pure ()
  | cons pair rest ih =>
    obtain ⟨a, b⟩ := pair
    obtain ⟨copy, hcopy⟩ := Option.isSome_iff_exists.1 (hpairs _ List.mem_cons_self)
    have hguarded : plugPairs? map ((a, b) :: rest) =
        (connect? a copy >>= fun _ => plugPairs? map rest) := by
      funext net
      simp only [plugPairs?, bind, update, hcopy, Option.map_some]
      rfl
    have hplain : plugPairs map ((a, b) :: rest) =
        (connect a copy >>= fun _ => plugPairs map rest) := by
      rw [plugPairs, hcopy]
    rw [hguarded, hplain]
    exact (safe_connect? a copy).bind fun _ =>
      ih fun pair hpair => hpairs pair (List.mem_cons_of_mem _ hpair)

/-- Copy the right net into the left one and connect pairs of their ports. -/
def plug? (left right : Net) (pairs : List (PortId × PortId)) : Option (Except Fault Net) :=
  ((left.inject? right true).bind fun copied => (plugPairs? copied.1 pairs).run copied.2).map
    fun (result, net) => result.map fun _ => net

/-- A composition that may stop for good does what the composition does, unless the tally of the net
that is made is out of range. -/
def checkResult : Except Fault Net → Option (Except Fault Net)
  | .ok after => if after.tally.inRange then some (.ok after) else none
  | .error fault => some (.error fault)

/-- Nets that can be plugged into each other are, unless the sum of their tallies is out of
range. -/
theorem plug?_eq (h : net.WellFormed) {other : Net} (hother : other.WellFormed)
    {pairs : List (PortId × PortId)} (hpairs : ∀ pair ∈ pairs, pair.2 ∈ other.interface)
    {after : Net} (hplug : net.plug other pairs = .ok after) (hrange : net.tally.inRange) :
    net.plug? other pairs = checkResult (.ok after) := by
  obtain ⟨copy, -, hlookup, -⟩ := exists_isCopy_inject hother h true
  have hcopied := safe_inject? h hother true
  rw [plug?]
  rw [plug] at hplug
  generalize net.inject other true = copied at hlookup hcopied hplug
  obtain ⟨map, mid⟩ := copied
  have hlookups : ∀ pair ∈ pairs, (map.lookup pair.2).isSome := by
    intro pair hpair
    rw [hlookup _ (hother.isSome_of_mem_interface (hpairs pair hpair))]
    rfl
  have hsafe : SafeOutcome net
      ((net.inject? other true).bind fun copied => (plugPairs? copied.1 pairs).run copied.2)
      ((plugPairs map pairs).run mid) :=
    hcopied.bind (safe_plugPairs? hlookups mid hcopied.wellFormed)
  have hout : (plugPairs map pairs).run mid = (.ok (), after) := by
    simp only [Edit.result] at hplug
    rw [Edit.run]
    rcases hrun : plugPairs map pairs mid with ⟨_ | _, last⟩ <;> rw [hrun] at hplug
    · cases hplug
    · obtain rfl : last = after := Except.ok.inj hplug
      rfl
  rw [hsafe.eq_checkTally hrange, hout, checkTally, checkResult]
  split <;> rfl

/-- Plug two nets into each other along their interfaces. -/
def sequential? (left right : Net) : Option (Except Fault Net) :=
  match left.sizeFault? right with
  | some fault => some (.error fault)
  | none => left.plug? right (left.interface.zip right.interface)

theorem sequential?_eq (h : net.WellFormed) {other : Net} (hother : other.WellFormed)
    (hrange : net.tally.inRange) : net.sequential? other = checkResult (net.sequential other) := by
  cases hfault : net.sizeFault? other with
  | some fault => simp only [sequential?, sequential, hfault, checkResult]
  | none =>
    obtain ⟨after, hafter⟩ :=
      (exists_sequential_iff h hother).2 (sizeFault?_eq_none_iff.1 hfault)
    rw [hafter]
    rw [sequential, hfault] at hafter
    rw [sequential?, hfault]
    exact plug?_eq h hother (fun pair hpair => (List.of_mem_zip hpair).2) hafter hrange

/-- Plug two nets into each other, along a bijection from the left interface to the right one. -/
def compose? (left right : Net) (mapping : OrderedMap PortId PortId) : Option (Except Fault Net) :=
  match left.mappingFault? right mapping with
  | some fault => some (.error fault)
  | none => left.plug? right mapping.entries

theorem compose?_eq (h : net.WellFormed) {other : Net} (hother : other.WellFormed)
    (mapping : OrderedMap PortId PortId) (hrange : net.tally.inRange) :
    net.compose? other mapping = checkResult (net.compose other mapping) := by
  cases hfault : net.mappingFault? other mapping with
  | some fault => simp only [compose?, compose, hfault, checkResult]
  | none =>
    obtain ⟨after, hafter⟩ := (exists_compose_iff h hother).2
      ((mappingFault?_eq_none_iff_isBijection h hother).1 hfault)
    obtain ⟨-, hvalues⟩ := (mappingFault?_eq_none_iff hother.interface_nodup).1 hfault
    rw [hafter]
    rw [compose, hfault] at hafter
    rw [compose?, hfault]
    exact plug?_eq h hother
      (fun pair hpair => hvalues.mem_iff.1 (List.mem_map_of_mem hpair)) hafter hrange

end Net

end InteractionNets
