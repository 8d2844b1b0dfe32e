import InteractionNets.Net.Agents
import InteractionNets.Net.Edit

/-!
# Wiring nets

Connecting and disconnecting ports, hiding and exposing them, and taking agents out. Every edit
here looks for faults before it changes anything; one that is made of several smaller edits looks
for the faults of all of them first.
-/

namespace InteractionNets

namespace Net

/-! ### Connections -/

/-- The agent that owns a port, for a port that exists. -/
def ownerOf (net : Net) (port : PortId) : AgentId :=
  ((net.port? port).map Port.agent).getD 0

/-- Make a connection between two ports that exist and are not connected. The interface is left as
it is, and nothing is recorded for the time the connection is removed. -/
def link (net : Net) (a b : PortId) : ConnectionId × Net :=
  let agents := (net.ownerOf a, net.ownerOf b)
  let (connection, connections) := net.connections.allocWith fun id =>
    { id, ports := (a, b), agents, restore := (.unrecorded, .unrecorded) }
  let attach (port : Port) : Port := { port with link := some connection }
  (connection, { net with
    connections
    ports := (net.ports.modify a attach).modify b attach })

/-- Remove a connection; the interface is left as it is. Nothing happens for an unknown one. -/
def unlink (net : Net) (connection : ConnectionId) : Net :=
  match net.connection? connection with
  | none => net
  | some data =>
    let detach (port : Port) : Port := { port with link := none }
    { net with
      connections := net.connections.erase connection
      ports := (net.ports.modify data.ports.1 detach).modify data.ports.2 detach }

/-- What forbids to connect two ports: one that does not exist, a port and itself, or one that is
connected already. -/
def connectFault? (net : Net) (a b : PortId) : Option Fault :=
  match net.port? a, net.port? b with
  | none, _ => some (.unknownPort a)
  | some _, none => some (.unknownPort b)
  | some dataA, some dataB =>
    if a = b then some (.selfLoop a)
    else if dataA.isConnected then some (.doubleConnect a)
    else if dataB.isConnected then some (.doubleConnect b)
    else none

/-- Two ports may be connected when they are different, exist and are unconnected. -/
theorem connectFault?_eq_none_iff {net : Net} {a b : PortId} :
    net.connectFault? a b = none ↔
      a ≠ b ∧ (∃ data, net.port? a = some data ∧ data.isConnected = false) ∧
        ∃ data, net.port? b = some data ∧ data.isConnected = false := by
  unfold connectFault?
  cases ha : net.port? a with
  | none => simp
  | some dataA =>
    cases hb : net.port? b with
    | none => simp
    | some dataB =>
      by_cases hab : a = b
      · simp [hab]
      · cases hA : dataA.isConnected <;> cases hB : dataB.isConnected <;> simp [hab, hA, hB]

/-- Connect two ports that may be connected. Both leave the interface, and where they stood there
is recorded. -/
def join (net : Net) (a b : PortId) : ConnectionId × Net :=
  let restore := (net.interface.record a, net.interface.record b)
  let (connection, net) :=
    { net with interface := (net.interface.erase a).erase b }.link a b
  (connection, { net with
    connections := net.connections.modify connection fun data => { data with restore } })

/-- Connect two ports, which must be unconnected. -/
def connect (a b : PortId) : Edit ConnectionId := do
  .guard fun net => net.connectFault? a b
  .update fun net => net.join a b

/-- Remove a known connection, and give its ports back to the places they came from. -/
def separate (net : Net) (connection : ConnectionId) (data : Connection) : Net :=
  let net := net.unlink connection
  { net with interface := net.interface.release data.ports data.restore }

/-- Remove a connection. Its ports go back to where they were when they were connected: to their
places on the interface, or out of sight if they were hidden. Ports that were joined in another
way go to the end of the interface. -/
def disconnect (connection : ConnectionId) : Edit (PortId × PortId) := fun net =>
  match net.connection? connection with
  | none => (.error (.unknownConnection connection), net)
  | some data => (.ok data.ports, net.separate connection data)

/-! ### Many connections at once -/

/-- What forbids a port in a list of pairs to be connected, when some ports are used up by the
pairs before it; `a` and `b` are the pair it stands in. -/
def pairedPortFault? (net : Net) (used : List PortId) (a b port : PortId) : Option Fault :=
  match net.port? port with
  | none => some (.unknownPort port)
  | some data =>
    if data.isConnected || used.contains port then
      some (if a = b then .selfLoop port else .doubleConnect port)
    else none

/-- What forbids to connect a list of pairs one after another, when some ports are used up. -/
def pairingFault? (net : Net) (used : List PortId) : List (PortId × PortId) → Option Fault
  | [] => none
  | (a, b) :: rest =>
    match net.pairedPortFault? used a b a with
    | some fault => some fault
    | none =>
      match net.pairedPortFault? (a :: used) a b b with
      | some fault => some fault
      | none => net.pairingFault? (b :: a :: used) rest

/-- What forbids to connect two lists of ports pairwise. -/
def connectInterfaceFault? (net : Net) (left right : List PortId) : Option Fault :=
  if left.length ≠ right.length then some (.interfaceSizeMismatch left.length right.length)
  else net.pairingFault? [] (left.zip right)

/-- Connect pairs of ports one after another. -/
def connectPairs : List (PortId × PortId) → Edit (List ConnectionId)
  | [] => pure []
  | (a, b) :: rest => do
    let connection ← connect a b
    let connections ← connectPairs rest
    return connection :: connections

/-- Connect two equally long lists of ports pairwise. -/
def connectInterface (left right : List PortId) : Edit (List ConnectionId) := do
  .guard fun net => net.connectInterfaceFault? left right
  connectPairs (left.zip right)

/-! ### Hiding and exposing -/

/-- What forbids to hide some ports: the first one that is not on the interface. -/
def restrictFault? (net : Net) (ports : List PortId) : Option Fault :=
  (ports.find? fun port => !net.interface.contains port).map .unknownPort

/-- Hide ports that are on the interface. -/
def restrictInterface (ports : List PortId) : Edit Unit := do
  .guard fun net => net.restrictFault? ports
  .change fun net => { net with interface := ports.foldl List.erase net.interface }

/-- What forbids to expose some ports: the first one that does not exist or is connected. -/
def extendFault? (net : Net) : List PortId → Option Fault
  | [] => none
  | port :: rest =>
    match net.port? port with
    | none => some (.unknownPort port)
    | some data => if data.isConnected then some (.doubleConnect port) else net.extendFault? rest

/-- Expose unconnected ports, after the ports that are on the interface already. -/
def extendInterface (ports : List PortId) : Edit Unit := do
  .guard fun net => net.extendFault? ports
  .change fun net => { net with interface := net.interface.extend ports }

/-! ### Taking agents out -/

/-- Remove the connections that some ports take part in. -/
def disconnectPorts : List PortId → Edit Unit
  | [] => pure ()
  | port :: rest => do
    match ← Edit.look fun net => .ok (net.linkOf? port) with
    | none => pure ()
    | some connection => let _ ← disconnect connection
    disconnectPorts rest

/-- Take an agent out, with every connection that touches it. The ports it was connected to are
released as `disconnect` releases them. -/
def removeAgent (agent : AgentId) : Edit Symbol := do
  match ← Edit.look fun net => .ok (net.agent? agent) with
  | none => .fail (.unknownAgent agent)
  | some data =>
    disconnectPorts data.ports
    .change fun net => net.dropAgent agent
    return data.symbol

end Net

end InteractionNets
