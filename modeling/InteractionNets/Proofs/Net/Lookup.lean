import InteractionNets.Net.Wiring
import InteractionNets.Proofs.Arena

/-!
# Looking things up after an operation

Agents, ports, connections and the interface are the four views of a net. Each primitive operation
gets one equation for each view that it changes; a view without an equation is untouched, and then
the equation is a simp lemma. `Net.linkAll` makes several links in a row, which is how copies are
wired and how an interaction reconnects its surroundings.
-/

namespace InteractionNets

namespace Interface

/-- Putting new ports at the end appends them. -/
theorem extend_eq_append {l : Interface} {ports : List PortId} (h : (l ++ ports).Nodup) :
    l.extend ports = l ++ ports := by
  induction ports generalizing l with
  | nil => simp [extend]
  | cons p rest ih =>
    have hp : p ∉ l := fun hmem => (List.nodup_append.1 h).2.2 p hmem p List.mem_cons_self rfl
    have hpush : l.push p = l ++ [p] := by rw [push, if_neg hp]
    have hrest : (l ++ [p] ++ rest).Nodup := by simpa using h
    show (l.push p).extend rest = _
    rw [hpush, ih hrest, List.append_assoc, List.singleton_append]

end Interface

namespace Net

variable {net : Net}

/-! ### Making a link -/

section Link

variable (net : Net) (a b : PortId)

/-- The id of the connection that the next link makes. -/
def nextConnection : ConnectionId :=
  net.connections.nextId

theorem connection?_nextConnection : net.connection? net.nextConnection = none :=
  net.connections.get?_nextId

@[simp] theorem fst_link : (net.link a b).1 = net.nextConnection :=
  net.connections.fst_allocWith _

@[simp] theorem agents_link : (net.link a b).2.agents = net.agents := rfl

@[simp] theorem agent?_link (x : AgentId) : (net.link a b).2.agent? x = net.agent? x := rfl

@[simp] theorem interface_link : (net.link a b).2.interface = net.interface := rfl

@[simp] theorem tally_link : (net.link a b).2.tally = net.tally := rfl

/-- What a new link is stored as. -/
def linkData : Connection where
  id := net.nextConnection
  ports := (a, b)
  agents := (net.ownerOf a, net.ownerOf b)
  restore := (.unrecorded, .unrecorded)

theorem connection?_link (c : ConnectionId) :
    (net.link a b).2.connection? c =
      if c = net.nextConnection then some (net.linkData a b) else net.connection? c := by
  rw [connection?, link, Arena.get?_allocWith, nextConnection]
  split
  · rename_i h
    subst h
    rfl
  · rfl

theorem port?_link (p : PortId) :
    (net.link a b).2.port? p =
      if p = a ∨ p = b then
        (net.port? p).map fun port => { port with link := some net.nextConnection }
      else net.port? p := by
  have hid : (net.connections.allocWith fun id =>
      { id, ports := (a, b), agents := (net.ownerOf a, net.ownerOf b),
        restore := (Restore.unrecorded, Restore.unrecorded) : Connection }).1 =
      net.nextConnection := net.connections.fst_allocWith _
  simp only [port?, link, Arena.get?_modify, hid]
  by_cases ha : a = p
  · subst ha
    by_cases hb : b = a
    · subst hb
      cases net.ports.get? b <;> simp
    · simp [hb]
  · by_cases hb : b = p
    · subst hb
      simp [ha]
    · simp [ha, hb, Ne.symm ha, Ne.symm hb]

end Link

/-! ### Removing a connection -/

section Unlink

variable {c : ConnectionId} {data : Connection}

@[simp] theorem agents_unlink (net : Net) (c : ConnectionId) :
    (net.unlink c).agents = net.agents := by
  unfold unlink
  split <;> rfl

@[simp] theorem agent?_unlink (net : Net) (c : ConnectionId) (x : AgentId) :
    (net.unlink c).agent? x = net.agent? x := by
  simp [agent?]

@[simp] theorem interface_unlink (net : Net) (c : ConnectionId) :
    (net.unlink c).interface = net.interface := by
  unfold unlink
  split <;> rfl

@[simp] theorem tally_unlink (net : Net) (c : ConnectionId) :
    (net.unlink c).tally = net.tally := by
  unfold unlink
  split <;> rfl

theorem unlink_of_none (h : net.connection? c = none) : net.unlink c = net := by
  simp [unlink, h]

theorem connection?_unlink (net : Net) (c d : ConnectionId) :
    (net.unlink c).connection? d = if d = c then none else net.connection? d := by
  cases h : net.connection? c with
  | none =>
    rw [unlink_of_none h]
    split
    · rename_i hd
      rw [hd, h]
    · rfl
  | some data =>
    have hnet : (net.unlink c).connections = net.connections.erase c := by simp [unlink, h]
    rw [connection?, hnet, Arena.get?_erase]
    simp only [eq_comm, connection?]

theorem port?_unlink (h : net.connection? c = some data) (p : PortId) :
    (net.unlink c).port? p =
      if p = data.ports.1 ∨ p = data.ports.2 then
        (net.port? p).map fun port => { port with link := none }
      else net.port? p := by
  simp only [port?, unlink, h, Arena.get?_modify]
  by_cases h₁ : data.ports.1 = p
  · subst h₁
    by_cases h₂ : data.ports.2 = data.ports.1
    · rw [h₂]
      cases net.ports.get? data.ports.1 <;> simp
    · simp [h₂]
  · by_cases h₂ : data.ports.2 = p
    · subst h₂
      simp [h₁]
    · simp [h₁, h₂, Ne.symm h₁, Ne.symm h₂]

end Unlink

/-! ### Making an agent -/

section AllocAgent

/-- What an agent's ports are stored as when they have just been made: port number `k` counted from
a position, and every other port as before. -/
theorem allocPorts_spec (agent : AgentId) (count position : Nat) (arena : Arena Port) :
    (allocPorts agent count position arena).1.length = count ∧
      (allocPorts agent count position arena).1.Nodup ∧
      (∀ p ∈ (allocPorts agent count position arena).1, arena.get? p = none) ∧
      (∀ k p, (allocPorts agent count position arena).1[k]? = some p →
        (allocPorts agent count position arena).2.get? p =
          some ⟨p, agent, position + k, position + k == 0, none⟩) ∧
      ∀ p ∉ (allocPorts agent count position arena).1,
        (allocPorts agent count position arena).2.get? p = arena.get? p := by
  induction count generalizing position arena with
  | zero => simp [allocPorts]
  | succ count ih =>
    let make (id : PortId) : Port := ⟨id, agent, position, position == 0, none⟩
    obtain ⟨hlen, hnodup, hfresh, hnew, hold⟩ := ih (position + 1) (arena.allocWith make).2
    -- the first new port is live for the ones after it, so it is not among them
    have hfirst : arena.nextId ∉
        (allocPorts agent count (position + 1) (arena.allocWith make).2).1 := by
      intro hmem
      have := hfresh _ hmem
      simp [Arena.get?_allocWith] at this
    simp only [allocPorts, Arena.fst_allocWith]
    refine ⟨by simpa using hlen, List.nodup_cons.2 ⟨hfirst, hnodup⟩, ?_, ?_, ?_⟩
    · intro p hp
      rcases List.mem_cons.1 hp with rfl | hp
      · exact arena.get?_nextId
      · have hne : p ≠ arena.nextId := fun h => hfirst (h ▸ hp)
        simpa [Arena.get?_allocWith, hne] using hfresh p hp
    · intro k p hk
      cases k with
      | zero =>
        obtain rfl : arena.nextId = p := by simpa using hk
        rw [hold _ hfirst, Arena.get?_allocWith, if_pos rfl]
        simp [make]
      | succ k =>
        rw [hnew k p (by simpa using hk)]
        simp [Nat.add_assoc, Nat.add_comm 1 k]
    · intro p hp
      have hne : p ≠ arena.nextId := fun h => hp (by simp [h])
      rw [hold p fun h => hp (List.mem_cons_of_mem _ h), Arena.get?_allocWith, if_neg hne]

variable (net : Net) (symbol : Symbol)

/-- The id of the agent that is made next. -/
def nextAgent : AgentId :=
  net.agents.nextId

/-- The ports that the next agent gets. -/
def nextPorts : List PortId :=
  (allocPorts net.nextAgent symbol.arity 0 net.ports).1

theorem agent?_nextAgent : net.agent? net.nextAgent = none :=
  net.agents.get?_nextId

theorem length_nextPorts : (net.nextPorts symbol).length = symbol.arity :=
  (allocPorts_spec _ _ _ _).1

theorem nodup_nextPorts : (net.nextPorts symbol).Nodup :=
  (allocPorts_spec _ _ _ _).2.1

theorem port?_of_mem_nextPorts {p : PortId} (h : p ∈ net.nextPorts symbol) : net.port? p = none :=
  (allocPorts_spec _ _ _ _).2.2.1 p h

@[simp] theorem fst_allocAgent : (net.allocAgent symbol).1 = net.nextAgent :=
  net.agents.fst_allocWith _

@[simp] theorem connections_allocAgent :
    (net.allocAgent symbol).2.connections = net.connections := rfl

@[simp] theorem connection?_allocAgent (c : ConnectionId) :
    (net.allocAgent symbol).2.connection? c = net.connection? c := rfl

@[simp] theorem interface_allocAgent : (net.allocAgent symbol).2.interface = net.interface := rfl

@[simp] theorem tally_allocAgent : (net.allocAgent symbol).2.tally = net.tally := rfl

theorem agent?_allocAgent (a : AgentId) :
    (net.allocAgent symbol).2.agent? a =
      if a = net.nextAgent then some ⟨a, symbol, net.nextPorts symbol⟩ else net.agent? a := by
  simp only [agent?, allocAgent, Arena.get?_modify, Arena.fst_allocWith, Arena.get?_allocWith,
    nextAgent]
  by_cases h : a = net.agents.nextId
  · simp [h, nextPorts, nextAgent]
  · simp [h, Ne.symm h]

@[simp] theorem portsOf_nextAgent :
    (net.allocAgent symbol).2.portsOf net.nextAgent = net.nextPorts symbol := by
  simp [portsOf, agent?_allocAgent]

theorem port?_allocAgent_new {k : Nat} {p : PortId} (h : (net.nextPorts symbol)[k]? = some p) :
    (net.allocAgent symbol).2.port? p = some ⟨p, net.nextAgent, k, k == 0, none⟩ := by
  have hspec := (allocPorts_spec net.nextAgent symbol.arity 0 net.ports).2.2.2.1 k p h
  simpa [port?, allocAgent, Arena.fst_allocWith, nextAgent] using hspec

theorem port?_allocAgent_old {p : PortId} (h : p ∉ net.nextPorts symbol) :
    (net.allocAgent symbol).2.port? p = net.port? p := by
  have hspec := (allocPorts_spec net.nextAgent symbol.arity 0 net.ports).2.2.2.2 p h
  simpa [port?, allocAgent, Arena.fst_allocWith, nextAgent] using hspec

end AllocAgent

/-! ### Dropping an agent -/

section DropAgent

variable (net : Net) (a : AgentId)

@[simp] theorem connections_dropAgent : (net.dropAgent a).connections = net.connections := rfl

@[simp] theorem connection?_dropAgent (c : ConnectionId) :
    (net.dropAgent a).connection? c = net.connection? c := rfl

@[simp] theorem tally_dropAgent : (net.dropAgent a).tally = net.tally := rfl

theorem agent?_dropAgent (b : AgentId) :
    (net.dropAgent a).agent? b = if b = a then none else net.agent? b := by
  simp only [agent?, dropAgent, Arena.get?_erase, eq_comm]

theorem port?_dropAgent (p : PortId) :
    (net.dropAgent a).port? p = if p ∈ net.portsOf a then none else net.port? p :=
  Arena.get?_foldl_erase _ _ _

theorem interface_dropAgent :
    (net.dropAgent a).interface = (net.portsOf a).foldl List.erase net.interface := rfl

end DropAgent

/-! ### Making links in a row -/

/-- Make links between pairs of ports, one after another. -/
def linkAll (pairs : List (PortId × PortId)) (net : Net) : Net :=
  pairs.foldl (fun net pair => (net.link pair.1 pair.2).2) net

section LinkAll

variable (net : Net) (pairs : List (PortId × PortId))

@[simp] theorem linkAll_nil : linkAll [] net = net := rfl

@[simp] theorem linkAll_cons (a b : PortId) :
    linkAll ((a, b) :: pairs) net = linkAll pairs (net.link a b).2 := rfl

@[simp] theorem agents_linkAll : (linkAll pairs net).agents = net.agents := by
  induction pairs generalizing net with
  | nil => rfl
  | cons pair rest ih => rw [linkAll_cons, ih, agents_link]

@[simp] theorem agent?_linkAll (a : AgentId) : (linkAll pairs net).agent? a = net.agent? a := by
  simp [agent?]

@[simp] theorem interface_linkAll : (linkAll pairs net).interface = net.interface := by
  induction pairs generalizing net with
  | nil => rfl
  | cons pair rest ih => rw [linkAll_cons, ih, interface_link]

variable {net} in
/-- Connections that are there stay there. -/
theorem connection?_linkAll_of_some {c : ConnectionId} {data : Connection}
    (hc : net.connection? c = some data) : (linkAll pairs net).connection? c = some data := by
  induction pairs generalizing net with
  | nil => exact hc
  | cons pair rest ih =>
    refine ih ?_
    rw [connection?_link, if_neg, hc]
    rintro rfl
    simp [connection?_nextConnection] at hc

@[simp] theorem tally_linkAll : (linkAll pairs net).tally = net.tally := by
  induction pairs generalizing net with
  | nil => rfl
  | cons pair rest ih => rw [linkAll_cons, ih, tally_link]

end LinkAll

/-! ### Changing the interface or the tally -/

section Update

variable (net : Net) (interface : Interface) (tally : Tally)

@[simp] theorem agent?_withInterface (x : AgentId) :
    { net with interface := interface }.agent? x = net.agent? x := rfl

@[simp] theorem port?_withInterface (p : PortId) :
    { net with interface := interface }.port? p = net.port? p := rfl

@[simp] theorem connection?_withInterface (c : ConnectionId) :
    { net with interface := interface }.connection? c = net.connection? c := rfl

@[simp] theorem agent?_withTally (x : AgentId) :
    { net with tally := tally }.agent? x = net.agent? x := rfl

@[simp] theorem port?_withTally (p : PortId) :
    { net with tally := tally }.port? p = net.port? p := rfl

@[simp] theorem connection?_withTally (c : ConnectionId) :
    { net with tally := tally }.connection? c = net.connection? c := rfl

end Update

end Net

end InteractionNets
