import InteractionNets.Proofs.Peano.Numerals
import InteractionNets.Proofs.Written.Build

/-!
# Nets of numbers

The net of a number is the number, written down, and its root is on the interface. An operator on
two numbers has their roots at its first two names, and its last name is on the interface.
-/

namespace InteractionNets.Peano

open Net

variable {net : Net} {cells : List (Cell Nat)} {x y : Nat}

/-- The only port on the interface of the net is the root of a number. -/
structure Represents (net : Net) (n : Nat) (port : PortId) : Prop where
  interface_eq : net.interface = [port]
  exists_cells : ∃ root cells, net.Written cells [root] ∧ IsNumeral n root cells

theorem erase_last_first {α : Type} [DecidableEq α] {a b c : α} (h : [a, b, c].Nodup) :
    ([a, b, c].erase c).erase a = [b] := by
  simp only [List.nodup_cons, List.mem_cons, not_or, List.not_mem_nil, or_false] at h
  obtain ⟨⟨hab, hac⟩, hbc, -⟩ := h
  simp [hac, hbc]

/-- Successors on top of a number make a number. -/
theorem Represents.exists_climb (n : Nat) {m : Nat} {p : PortId} (h : Represents net m p) :
    ∃ q after, (climb n p).run net = (.ok q, after) ∧ Represents after (m + n) q := by
  induction n generalizing net m p with
  | zero => exact ⟨p, net, rfl, h⟩
  | succ n ih =>
    obtain ⟨hp, root, cells, hw, hcells⟩ := h
    obtain ⟨a, ports, ws, mid, hmake, hmid, hinterface, hports, hlength, hnames, hfresh⟩ :=
      hw.run_agent succ
    obtain ⟨r, s, rfl⟩ := List.length_eq_two.1 hlength
    obtain ⟨u, v, rfl⟩ := List.length_eq_two.1 hnames
    rw [hp, List.singleton_append] at hinterface
    have hs : mid.interface[2]? = some s := by rw [hinterface]; rfl
    have hroot : mid.interface[0]? = some p := by rw [hinterface]; rfl
    obtain ⟨c, after, hconnect, hafter, hleft, hagents⟩ :=
      hmid.connect hs hroot (m := v) (n := root) rfl rfl (by decide)
    -- the second port of the new agent takes the name of the root that it is connected to
    have hnumeral : IsNumeral (m + 1) u
        ((⟨succ, [u, v]⟩ :: cells).map (Cell.map (Function.update id root v))) := by
      have hu : u ≠ root := by
        rintro rfl
        exact hfresh u (by simp) hcells.root_mem
      have hv : v ≠ root := by
        rintro rfl
        exact hfresh v (by simp) hcells.root_mem
      have hmapped := IsNumeral.succ u (hcells.map (Function.update id root v))
      rw [Function.update_self] at hmapped
      rw [List.map_cons, Cell.map, List.map_cons, List.map_cons, List.map_nil,
        Function.update_of_ne hu, Function.update_of_ne hv]
      exact hmapped
    have hrep : Represents after (m + 1) r := by
      refine ⟨?_, u, _, ?_, hnumeral⟩
      · rw [hleft, hinterface]
        exact erase_last_first (hinterface ▸ hmid.wellFormed.interface_nodup)
      · rw [← erase_last_first hmid.nodup_free]
        exact hafter
    obtain ⟨q, last, hclimb, hlast⟩ := ih hrep
    refine ⟨q, last, ?_, by rwa [Nat.add_right_comm] at hlast⟩
    have hports' : after.portsOf a = [r, s] := by
      rw [← hports, portsOf, portsOf, agent?, agent?, hagents]
    rw [climb, run_bind_ok hmake, run_bind_ok (run_portAt (p := s) (by rw [hports]; rfl)),
      run_bind_ok hconnect, run_bind_ok (run_portAt (p := r) (by rw [hports']; rfl)), hclimb]

/-- The net of a number is the number, written down. -/
theorem exists_nat (n : Nat) : ∃ net p, nat n = .ok net ∧ Represents net n p := by
  obtain ⟨z, ports, ws, mid, hmake, hmid, hinterface, hports, hlength, hnames, -⟩ :=
    written_empty.run_agent zero
  obtain ⟨p, rfl⟩ := List.length_eq_one_iff.1 hlength
  obtain ⟨w, rfl⟩ := List.length_eq_one_iff.1 hnames
  have hzero : Represents mid 0 p := ⟨hinterface, w, _, hmid, .zero w⟩
  obtain ⟨q, after, hclimb, hafter⟩ := hzero.exists_climb n
  rw [Nat.zero_add] at hafter
  refine ⟨after, q, ?_, hafter⟩
  have hrun : (Assembly.agent zero >>= fun z =>
      Assembly.portAt z 0 >>= fun root => climb n root).run .empty = (.ok q, after) := by
    rw [run_bind_ok hmake, run_bind_ok (run_portAt (p := p) (by rw [hports]; rfl)), hclimb]
  show Except.map Prod.snd (Edit.result _ _) = _
  rw [result_eq_ok hrun]
  rfl

/-- The net of a number, which is always made. -/
def numberNet (n : Nat) : Net :=
  (nat n).toOption.getD .empty

theorem nat_eq (n : Nat) : nat n = .ok (numberNet n) := by
  obtain ⟨net, -, hnat, -⟩ := exists_nat n
  rw [numberNet, hnat]
  rfl

theorem erase_first_third {α : Type} [DecidableEq α] {a b c : α} {l : List α}
    (h : (a :: b :: c :: l).Nodup) : ((a :: b :: c :: l).erase a).erase c = b :: l := by
  have hbc : b ≠ c := by
    rintro rfl
    simp at h
  rw [List.erase_cons_head, List.erase_cons_tail (by simpa using hbc), List.erase_cons_head]

/-- Two ports on the interface are connected to the two after the next one after another, and the
names of the four are identified pairwise. -/
theorem exists_connectInterface {u v r : Nat} {p q o₀ o₁ o₂ : PortId}
    (hw : net.Written cells [x, y, u, v, r]) (hinterface : net.interface = [p, q, o₀, o₁, o₂]) :
    ∃ cs after, (connectInterface [p, q] [o₀, o₁]).run net = (.ok cs, after) ∧
      after.Written ((cells.map (Cell.map (Function.update id u x))).map
        (Cell.map (Function.update id v y))) [r] := by
  have hnodup := hw.wellFormed.interface_nodup
  rw [hinterface] at hnodup
  have hroot : net.interface[0]? = some p := by rw [hinterface]; rfl
  have hport : net.interface[2]? = some o₀ := by rw [hinterface]; rfl
  obtain ⟨c, mid, hconnect, hmid, hleft, -⟩ :=
    hw.connect hroot hport (m := x) (n := u) rfl rfl (by decide)
  rw [erase_first_third hw.nodup_free] at hmid
  rw [hinterface, erase_first_third hnodup] at hleft
  have hroot' : mid.interface[0]? = some q := by rw [hleft]; rfl
  have hport' : mid.interface[1]? = some o₁ := by rw [hleft]; rfl
  obtain ⟨c', after, hconnect', hafter, -, -⟩ :=
    hmid.connect hroot' hport' (m := y) (n := v) rfl rfl (by decide)
  rw [List.erase_cons_head, List.erase_cons_head] at hafter
  have hsafe : net.connectInterfaceFault? [p, q] [o₀, o₁] = none := by
    refine hw.wellFormed.pairingFault?_eq_none ?_ ?_
    · rw [hinterface]
      simp
    · simp only [List.nodup_cons, List.mem_cons, not_or] at hnodup
      simp only [List.zip_cons_cons, List.zip_nil_right, pairEnds_cons, pairEnds_nil,
        List.nodup_cons, List.mem_cons, not_or]
      tauto
  have hguard : (Edit.guard fun net => net.connectInterfaceFault? [p, q] [o₀, o₁]).run net =
      (.ok (), net) := by rw [Edit.run_guard, hsafe]
  have hpairs : (connectPairs [(p, o₀), (q, o₁)]).run net = (.ok [c, c'], after) := by
    rw [connectPairs, run_bind_ok hconnect, connectPairs, bind_assoc, run_bind_ok hconnect']
    rfl
  refine ⟨[c, c'], after, ?_, hafter⟩
  rw [connectInterface, run_bind_ok hguard]
  exact hpairs

/-- An operator is put on top of two numbers: make the agent, and connect its first two ports to the
roots. -/
def operate (operator : Symbol) (roots : Interface) : Edit Unit := do
  let op ← Assembly.agent operator
  let _ ← connectInterface roots [← Assembly.portAt op 0, ← Assembly.portAt op 1]

/-- An operator on top of two numbers has their roots at its first two names. -/
theorem exists_operate {operator : Symbol} (harity : operator.arity = 3)
    (hw : net.Written cells [x, y]) : ∃ r after,
      (operate operator net.interface).run net = (.ok (), after) ∧
        after.Written (⟨operator, [x, y, r]⟩ :: cells) [r] := by
  obtain ⟨op, ports, ws, mid, hmake, hmid, hinterface, hports, hlength, hnames, hfresh⟩ :=
    hw.run_agent operator
  rw [harity] at hlength hnames
  obtain ⟨o₀, o₁, o₂, rfl⟩ := List.length_eq_three.1 hlength
  obtain ⟨u, v, r, rfl⟩ := List.length_eq_three.1 hnames
  obtain ⟨p, q, hpq⟩ := List.length_eq_two.1 hw.length_interface
  rw [hpq] at hinterface ⊢
  obtain ⟨cs, after, hconnected, hafter⟩ :=
    exists_connectInterface (x := x) (y := y) hmid hinterface
  refine ⟨r, after, ?_, ?_⟩
  · rw [operate, run_bind_ok hmake, run_bind_ok (run_portAt (p := o₀) (by rw [hports]; rfl)),
      run_bind_ok (run_portAt (p := o₁) (by rw [hports]; rfl)), run_bind_ok hconnected,
      Edit.run_pure]
  · -- the names of the numbers are none of the new ones
    have hsame : ∀ {m n}, m ∈ [u, v, r] →
        cells.map (Cell.map (Function.update id m n)) = cells := by
      intro m n hm
      refine map_cells_eq_self fun k hk => Function.update_of_ne ?_ n id
      rintro rfl
      exact hfresh k hm hk
    have hfree : [x, y, u, v, r].Nodup := hmid.nodup_free
    simp only [List.nodup_cons, List.mem_cons, not_or] at hfree
    rw [List.map_cons, List.map_cons, hsame (by simp), hsame (by simp)] at hafter
    simpa [Cell.map, Function.update_apply, hfree, Ne.symm] using hafter

/-- An operator has the roots of its arguments at its first two names. -/
theorem exists_apply {operator : Symbol} (harity : operator.arity = 3) (a b : Nat) :
    ∃ net x y r ps ys, apply operator a b = .ok net ∧
      net.Written (⟨operator, [x, y, r]⟩ :: (ps ++ ys)) [r] ∧
      IsNumeral a x ps ∧ IsNumeral b y ys := by
  obtain ⟨left, p, hleft, hp, x, ps, hwleft, hps⟩ := exists_nat a
  obtain ⟨right, q, hright, hq, y, ys, hwright, hys⟩ := exists_nat b
  obtain ⟨f, hf, hdisjoint⟩ := exists_rename (wiresOf ps)
  have hw := hwleft.parallel (hwright.rename hf.injOn) (hdisjoint ys)
  obtain ⟨r, after, hrun, hafter⟩ := exists_operate harity hw
  refine ⟨after, x, f y, r, ps, _, ?_, hafter, hps, hys.map f⟩
  rw [apply, hleft, hright]
  show (do return (← (operate operator (left.parallel right).interface).result
    (left.parallel right)).2) = _
  rw [result_eq_ok hrun]
  rfl

end InteractionNets.Peano
