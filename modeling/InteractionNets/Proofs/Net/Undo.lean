import InteractionNets.Proofs.Net.Connecting

/-!
# Disconnecting undoes connecting

A connection records where its ends stood on the interface, and when it is removed they go back
there. Connections that are made one after another are nested: when they are removed in the opposite
order, each one is removed from the interface that it was made from, so the positions it recorded
are still right (`Net.WellFormed.disconnect_undoes_connect`). The ids that connections gave back are
vacant afterwards, so the net has the contents it had before (`Net.SameContents`), but it may hand
out other ids next.
-/

namespace InteractionNets

/-! ### Places on the interface -/

namespace Interface

variable {l : Interface} {a b : PortId} {i j : Nat}

/-- A port goes back to its position. -/
theorem insertAt_erase (ha : l.idxOf? a = some i) : insertAt (l.erase a) i a = l := by
  induction l generalizing i with
  | nil => cases ha
  | cons p rest ih =>
    rw [List.idxOf?_cons] at ha
    by_cases hp : p = a
    · subst hp
      obtain rfl : 0 = i := by simpa using ha
      rw [List.erase_cons_head]
      rfl
    · have hbeq : (p == a) = false := by simpa using hp
      rw [hbeq, if_neg Bool.false_ne_true, Option.map_eq_some_iff] at ha
      obtain ⟨k, hk, rfl⟩ := ha
      rw [List.erase_cons_tail (by simpa using hp)]
      show p :: insertAt (rest.erase a) k a = p :: rest
      rw [ih hk]

/-- The position of a port does not change when a port behind it leaves. -/
theorem idxOf?_erase_of_lt (ha : l.idxOf? a = some i) (hb : l.idxOf? b = some j) (hij : i < j) :
    (l.erase b).idxOf? a = some i := by
  induction l generalizing i j with
  | nil => cases ha
  | cons p rest ih =>
    rw [List.idxOf?_cons] at ha hb
    have hp : ¬ p = b := by
      rintro rfl
      obtain rfl : 0 = j := by simpa using hb
      exact Nat.not_lt_zero i hij
    have hbeq : (p == b) = false := by simpa using hp
    rw [hbeq, if_neg Bool.false_ne_true, Option.map_eq_some_iff] at hb
    obtain ⟨j, hj, rfl⟩ := hb
    rw [List.erase_cons_tail (by simpa using hp), List.idxOf?_cons]
    split at ha
    · rw [if_pos ‹_›, ha]
    · obtain ⟨k, hk, rfl⟩ := Option.map_eq_some_iff.1 ha
      rw [if_neg ‹_›, ih hk hj (Nat.lt_of_succ_lt_succ hij)]
      rfl

/-- Two recorded ports go back to their positions, the front one first. -/
private theorem insertAt_insertAt_erase (ha : l.idxOf? a = some i) (hb : l.idxOf? b = some j)
    (hij : i < j) : insertAt (insertAt ((l.erase a).erase b) i a) j b = l := by
  rw [List.erase_comm a b, insertAt_erase (idxOf?_erase_of_lt ha hb hij), insertAt_erase hb]

/-- **Two ports that leave the interface go back to where they stood**, with what was recorded of
them before. -/
theorem release_record (hab : a ≠ b) :
    release ((l.erase a).erase b) (a, b) (l.record a, l.record b) = l := by
  unfold record
  cases ha : l.idxOf? a with
  | none =>
    have hmem : a ∉ l := List.idxOf?_eq_none_iff.1 ha
    rw [List.erase_of_not_mem hmem]
    cases hb : l.idxOf? b with
    | none => exact List.erase_of_not_mem (List.idxOf?_eq_none_iff.1 hb)
    | some j => exact insertAt_erase hb
  | some i =>
    cases hb : l.idxOf? b with
    | none =>
      have hmem : b ∉ l.erase a := fun hmem =>
        List.idxOf?_eq_none_iff.1 hb (List.mem_of_mem_erase hmem)
      rw [List.erase_of_not_mem hmem]
      exact insertAt_erase ha
    | some j =>
      show (if i < j ∨ (i = j ∧ a ≤ b) then insertAt (insertAt ((l.erase a).erase b) i a) j b
        else insertAt (insertAt ((l.erase a).erase b) j b) i a) = l
      rcases Nat.lt_trichotomy i j with hij | rfl | hij
      · rw [if_pos (.inl hij)]
        exact insertAt_insertAt_erase ha hb hij
      · -- different ports stand at different positions
        obtain ⟨_, ha, -⟩ := List.idxOf?_eq_some_iff.1 ha
        obtain ⟨_, hb, -⟩ := List.idxOf?_eq_some_iff.1 hb
        exact absurd (ha.symm.trans hb) hab
      · rw [if_neg (by omega), List.erase_comm a b]
        exact insertAt_insertAt_erase hb ha hij

end Interface

/-! ### Nets with the same contents -/

namespace Net

variable {net other last : Net} {a b : PortId} {c : ConnectionId} {data : Connection}

/-- Nets with equal agents, ports and connections under the same ids and with the same interface and
tally. They may differ in the ids they hand out next. -/
structure SameContents (net other : Net) : Prop where
  agent : ∀ x, net.agent? x = other.agent? x
  port : ∀ p, net.port? p = other.port? p
  connection : ∀ c, net.connection? c = other.connection? c
  interface : net.interface = other.interface
  tally : net.tally = other.tally

namespace SameContents

theorem refl (net : Net) : net.SameContents net :=
  ⟨fun _ => rfl, fun _ => rfl, fun _ => rfl, rfl, rfl⟩

theorem trans (h : net.SameContents other) (h' : other.SameContents last) :
    net.SameContents last where
  agent x := (h.agent x).trans (h'.agent x)
  port p := (h.port p).trans (h'.port p)
  connection c := (h.connection c).trans (h'.connection c)
  interface := h.interface.trans h'.interface
  tally := h.tally.trans h'.tally

/-- Nets with the same contents are the same. -/
theorem same (h : net.SameContents other) : net.same other := by
  have hagents := Arena.same_of_get?_eq h.agent
  have hports := Arena.same_of_get?_eq h.port
  rw [Net.same, hagents, hports, Arena.size_congr h.connection, Arena.entries_congr h.connection,
    h.interface]
  simp

/-- A connection is removed from nets with the same contents in the same way. -/
theorem separate (h : net.SameContents other) (hc : other.connection? c = some data) :
    (net.separate c data).SameContents (other.separate c data) where
  agent x := by
    show (net.unlink c).agent? x = (other.unlink c).agent? x
    rw [agent?_unlink, agent?_unlink, h.agent]
  port p := by
    show (net.unlink c).port? p = (other.unlink c).port? p
    rw [port?_unlink ((h.connection c).trans hc), port?_unlink hc, h.port]
  connection d := by
    show (net.unlink c).connection? d = (other.unlink c).connection? d
    rw [connection?_unlink, connection?_unlink, h.connection]
  interface := by
    show (net.unlink c).interface.release _ _ = (other.unlink c).interface.release _ _
    rw [interface_unlink, interface_unlink, h.interface]
  tally := by
    show (net.unlink c).tally = (other.unlink c).tally
    rw [tally_unlink, tally_unlink, h.tally]

end SameContents

/-! ### Connecting and disconnecting -/

/-- Removing a new connection leaves the contents there were. -/
theorem separate_join (hab : net.connectFault? a b = none) :
    ((net.join a b).2.separate net.nextConnection (net.joinData a b)).SameContents net := by
  obtain ⟨hne, hfreeA, hfreeB⟩ := connectFault?_eq_none_iff_isFree.1 hab
  have hnew : (net.join a b).2.connection? net.nextConnection = some (net.joinData a b) := by
    rw [connection?_join, if_pos rfl]
  constructor
  case agent =>
    intro x
    show ((net.join a b).2.unlink _).agent? x = _
    rw [agent?_unlink]
    rfl
  case port =>
    intro p
    show ((net.join a b).2.unlink _).port? p = _
    rw [port?_unlink hnew, port?_join]
    show (if p = a ∨ p = b then _ else _) = _
    split
    · -- the two ports were free, so taking the link away gives back their records
      have hfree : net.IsFree p := by
        rename_i hp
        rcases hp with rfl | rfl
        · exact hfreeA
        · exact hfreeB
      obtain ⟨port, hport, hlink⟩ := hfree
      rw [hport, ← hlink]
      rfl
    · rfl
  case connection =>
    intro c
    show ((net.join a b).2.unlink _).connection? c = _
    rw [connection?_unlink, connection?_join]
    split
    · rw [‹c = _›, connection?_nextConnection]
    · rfl
  case interface =>
    show ((net.join a b).2.unlink _).interface.release _ _ = _
    rw [interface_unlink]
    exact Interface.release_record hne
  case tally =>
    show ((net.join a b).2.unlink _).tally = _
    rw [tally_unlink]
    rfl

/-- **Disconnecting undoes connecting**, nested to any depth. When pairs of ports have been
connected one after another, removing their connections in the opposite order gives back each pair
as it was given, and leaves a net with the contents of the one before: the same agents, ports and
connections under the same ids, and the same interface in the same order. -/
theorem disconnect_undoes_connect {pairs : List (PortId × PortId)}
    {connections : List ConnectionId} {mid : Net}
    (hrun : (connectPairs pairs).run net = (.ok connections, mid)) :
    ∃ after, (connections.reverse.mapM disconnect).run mid = (.ok pairs.reverse, after) ∧
      after.same net ∧ after.SameContents net := by
  suffices ∃ after, (connections.reverse.mapM disconnect).run mid = (.ok pairs.reverse, after) ∧
      after.SameContents net by
    obtain ⟨after, hundo, hsame⟩ := this
    exact ⟨after, hundo, hsame.same, hsame⟩
  induction pairs generalizing net connections with
  | nil =>
    obtain ⟨hnil, rfl⟩ := Prod.mk.inj hrun
    obtain rfl := Except.ok.inj hnil
    exact ⟨net, rfl, .refl net⟩
  | cons pair rest ih =>
    obtain ⟨a, b⟩ := pair
    obtain ⟨c, joined, hconnect, hrun⟩ := exists_of_run_bind hrun
    obtain ⟨hab, rfl⟩ := join_of_run_connect hconnect
    rw [run_connect_of_none hab] at hconnect
    obtain rfl := Except.ok.inj (congrArg Prod.fst hconnect)
    obtain ⟨cs, last, hrest, hlast⟩ := exists_of_run_bind hrun
    obtain ⟨hcs, rfl⟩ := Prod.mk.inj hlast
    obtain rfl := Except.ok.inj hcs
    -- the inner connections are removed first, so the outer one finds what it left
    obtain ⟨back, hundo, hback⟩ := ih hrest
    have hnew : (net.join a b).2.connection? (net.join a b).1 = some (net.joinData a b) := by
      rw [fst_join, connection?_join, if_pos rfl]
    have hdata := (hback.connection _).trans hnew
    refine ⟨back.separate (net.join a b).1 (net.joinData a b), ?_, ?_⟩
    · rw [List.reverse_cons, List.mapM_append, run_bind_ok hundo, List.mapM_cons, List.mapM_nil,
        bind_assoc, run_bind_ok (run_disconnect_of_some hdata), List.reverse_cons]
      rfl
    · have houter := hback.separate hnew
      rw [fst_join] at houter ⊢
      exact houter.trans (separate_join hab)

/-- Two agents with three ports each; the second port of the first one is hidden. -/
def halfHidden : Net :=
  ((restrictInterface [1]).run ((single ⟨"G", 3⟩).newAgent ⟨"D", 3⟩).2).2

/-- The hidden port is connected to a port of the other agent, then two ports of the first agent
with each other, the one that stands behind first. -/
theorem disconnect_undoes_connect_halfHidden :
    ∃ connections mid after,
      (connectPairs [(4, 1), (2, 0)]).run halfHidden = (.ok connections, mid) ∧
        (connections.reverse.mapM disconnect).run mid = (.ok [(2, 0), (4, 1)], after) ∧
        after.same halfHidden ∧ after.SameContents halfHidden := by
  have hrun : (connectPairs [(4, 1), (2, 0)]).run halfHidden =
      (.ok [0, 1], ((connectPairs [(4, 1), (2, 0)]).run halfHidden).2) :=
    Prod.fst_eq_iff.1 (by decide +kernel)
  obtain ⟨after, hundo⟩ := disconnect_undoes_connect hrun
  exact ⟨_, _, after, hrun, hundo⟩

end Net

end InteractionNets
