import InteractionNets.Id

/-!
# Interfaces

The interface of a net lists the unconnected ports that are exposed to the outside, each once. The
operations here keep the order of what stays: a port joins at the end or at a given place, and a
port whose connection is removed goes back to the place that was recorded when it was connected.
-/

namespace InteractionNets

/-- The exposed ports of a net, in order. -/
abbrev Interface := List PortId

/-- Where a port goes when its connection is removed. -/
inductive Restore where
  /-- Back to the place on the interface that it had when it was connected. -/
  | interface (position : Nat)
  /-- It was hidden and is hidden again. -/
  | hidden
  /-- Nothing was recorded: it goes to the end of the interface. -/
  | unrecorded
deriving DecidableEq, Inhabited

namespace Interface

/-- Put a port at the end, unless it is there already. -/
def push (l : Interface) (port : PortId) : Interface :=
  if port ∈ l then l else l ++ [port]

/-- Put some ports at the end, one after another. -/
def extend (l : Interface) (ports : List PortId) : Interface :=
  ports.foldl push l

/-- Put a port at a position; one past the end stands for the end. -/
def insertAt (l : Interface) (position : Nat) (port : PortId) : Interface :=
  l.take position ++ port :: l.drop position

/-- What has to be recorded of a port that is about to leave the interface. -/
def record (l : Interface) (port : PortId) : Restore :=
  match l.idxOf? port with
  | some position => .interface position
  | none => .hidden

/-- Put a port at the end if nothing was recorded of it. -/
def releaseUnrecorded (l : Interface) (port : PortId) : Restore → Interface
  | .unrecorded => l.push port
  | _ => l

/-- Give back the two ends of a removed connection: first those of which nothing was recorded,
then the recorded ones in the order of their positions, equal positions in the order of the
ports. -/
def release (l : Interface) (ports : PortId × PortId) (restore : Restore × Restore) : Interface :=
  let l := (l.releaseUnrecorded ports.1 restore.1).releaseUnrecorded ports.2 restore.2
  match restore with
  | (.interface i, .interface j) =>
    if i < j ∨ (i = j ∧ ports.1 ≤ ports.2) then (l.insertAt i ports.1).insertAt j ports.2
    else (l.insertAt j ports.2).insertAt i ports.1
  | (.interface i, _) => l.insertAt i ports.1
  | (_, .interface j) => l.insertAt j ports.2
  | _ => l

/-! ### Which ports are on the interface -/

theorem mem_push {l : Interface} {p q : PortId} : q ∈ l.push p ↔ q ∈ l ∨ q = p := by
  unfold push
  split
  · exact ⟨Or.inl, fun h => h.elim id fun h => h ▸ ‹p ∈ l›⟩
  · simp

theorem nodup_push {l : Interface} (h : l.Nodup) (p : PortId) : (l.push p).Nodup := by
  unfold push
  split
  · exact h
  · refine List.nodup_append.2 ⟨h, by simp, fun a ha b hb => ?_⟩
    rintro rfl
    exact ‹p ∉ l› (List.mem_singleton.1 hb ▸ ha)

theorem mem_extend {l : Interface} {ports : List PortId} {q : PortId} :
    q ∈ l.extend ports ↔ q ∈ l ∨ q ∈ ports := by
  induction ports generalizing l with
  | nil => simp [extend]
  | cons p rest ih =>
    have hstep : l.extend (p :: rest) = (l.push p).extend rest := rfl
    rw [hstep, ih, mem_push, List.mem_cons, or_assoc]

theorem nodup_extend {l : Interface} (h : l.Nodup) (ports : List PortId) :
    (l.extend ports).Nodup := by
  induction ports generalizing l with
  | nil => exact h
  | cons p rest ih => exact ih (nodup_push h p)

theorem mem_insertAt {l : Interface} {i : Nat} {p q : PortId} :
    q ∈ l.insertAt i p ↔ q = p ∨ q ∈ l := by
  have hsplit : q ∈ l ↔ q ∈ l.take i ∨ q ∈ l.drop i := by
    rw [← List.mem_append, List.take_append_drop]
  rw [insertAt, List.mem_append, List.mem_cons, hsplit, or_left_comm]

end Interface

end InteractionNets
