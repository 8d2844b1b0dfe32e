import InteractionNets.Proofs.Net.WellFormed
import InteractionNets.Proofs.Tally.Range

/-!
# Edits that may stop for good

Some operations look things up that they count on, and all of them count in words of 64 bits. A
guarded operation does the same as an operation, but stops for good, without a result, when
something it counts on is missing, and when it has counted beyond the range of its words. On a
well-formed net, with a tally in range, a guarded operation is safe (`SafeOutcome`) when it stops in
the second case only. Tallies grow, so safe operations one after another are safe as a whole
(`SafeOutcome.bind`), and they stop exactly when the last tally is out of range.
-/

namespace InteractionNets

variable {α β : Type} {net : Net}

/-! ### Outcomes -/

/-- Check the tally of a net that an operation leaves: the operation stops for good when the tally
is out of range. -/
def checkTally (out : α × Net) : Option (α × Net) :=
  if out.2.tally.inRange then some out else none

/-- What a guarded operation on a net comes to, beside what the operation comes to. The net that is
left is well-formed, its tally has grown, and the guarded operation stops for good only where that
tally is out of range. -/
structure SafeOutcome (net : Net) (guarded : Option (α × Net)) (out : α × Net) : Prop where
  wellFormed : out.2.WellFormed
  grows : net.tally.GrowsTo out.2.tally
  eq_checkTally : net.tally.inRange → guarded = checkTally out

namespace SafeOutcome

variable {guarded : Option (α × Net)} {out : α × Net}

/-- An operation that counts nothing is safe when it does not stop. -/
theorem of_tally_eq (hwf : out.2.WellFormed) (htally : out.2.tally = net.tally) :
    SafeOutcome net (some out) out where
  wellFormed := hwf
  grows := by
    rw [htally]
    exact .refl net.tally
  eq_checkTally hrange := by rw [checkTally, htally, if_pos hrange]

/-- An operation that counts something and checks the tally is safe. -/
theorem of_checkTally (hwf : out.2.WellFormed) (hgrows : net.tally.GrowsTo out.2.tally) :
    SafeOutcome net (checkTally out) out :=
  ⟨hwf, hgrows, fun _ => rfl⟩

/-- What is safe after a safe operation is safe as a whole: if the first one stops, its tally is out
of range, and so is every tally that it grows to. -/
theorem bind {next : α × Net → Option (β × Net)} {last : β × Net} (h : SafeOutcome net guarded out)
    (hnext : SafeOutcome out.2 (next out) last) : SafeOutcome net (guarded.bind next) last where
  wellFormed := hnext.wellFormed
  grows := h.grows.trans hnext.grows
  eq_checkTally := by
    intro hrange
    rw [h.eq_checkTally hrange, checkTally]
    by_cases hout : out.2.tally.inRange
    · rw [if_pos hout, Option.bind_some, hnext.eq_checkTally hout]
    · have hlast : ¬ last.2.tally.inRange := fun hlast => hout (hnext.grows.inRange hlast)
      rw [if_neg hout, Option.bind_none, checkTally, if_neg hlast]

/-- What is made of the result of a safe operation does not matter. -/
theorem map (h : SafeOutcome net guarded out) (f : α → β) :
    SafeOutcome net (guarded.map (Prod.map f id)) (Prod.map f id out) := by
  rw [Option.map_eq_bind]
  exact h.bind (.of_tally_eq h.wellFormed rfl)

/-- A safe operation that follows one that counted nothing is safe as a whole. -/
theorem of_same_tally {mid : Net} (h : SafeOutcome mid guarded out)
    (htally : mid.tally = net.tally) : SafeOutcome net guarded out where
  wellFormed := h.wellFormed
  grows := htally ▸ h.grows
  eq_checkTally hrange := h.eq_checkTally (htally ▸ hrange)

/-- The net that a safe operation leaves, if its tally is in range. -/
theorem map_snd_eq (h : SafeOutcome net guarded out) (hrange : net.tally.inRange) :
    guarded.map Prod.snd = if out.2.tally.inRange then some out.2 else none := by
  rw [h.eq_checkTally hrange, checkTally]
  split <;> rfl

end SafeOutcome

/-! ### Guarded edits -/

/-- An edit that may stop for good. -/
def GuardedEdit (α : Type) : Type :=
  Net → Option (Except Fault α × Net)

namespace GuardedEdit

/-- Carry out a guarded edit on a net. -/
def run (edit : GuardedEdit α) (net : Net) : Option (Except Fault α × Net) :=
  edit net

/-- Go on with another edit, unless there was a fault. -/
def andThen (next : α → GuardedEdit β) : Except Fault α × Net → Option (Except Fault β × Net)
  | (.ok a, net) => next a net
  | (.error fault, net) => some (.error fault, net)

instance : Monad GuardedEdit where
  pure a := fun net => some (.ok a, net)
  bind edit next := fun net => (edit net).bind (andThen next)

/-- An edit that counts on nothing. -/
def of (edit : Edit α) : GuardedEdit α :=
  fun net => some (edit net)

/-- Change the net by an operation that may stop for good and is never refused. -/
def update (f : Net → Option (α × Net)) : GuardedEdit α :=
  fun net => (f net).map fun (a, net) => (.ok a, net)

/-- On well-formed nets, a guarded edit comes to what the edit comes to, and leaves a well-formed
net, unless it counts beyond the range. -/
def Safe (guarded : GuardedEdit α) (edit : Edit α) : Prop :=
  ∀ net, net.WellFormed → SafeOutcome net (guarded.run net) (edit.run net)

theorem safe_pure (a : α) : Safe (pure a) (pure a) :=
  fun _ h => .of_tally_eq h rfl

theorem safe_fail (fault : Fault) : Safe (of (.fail fault)) (.fail fault : Edit α) :=
  fun _ h => .of_tally_eq h rfl

theorem safe_look (f : Net → Except Fault α) : Safe (of (.look f)) (.look f) :=
  fun _ h => .of_tally_eq h rfl

theorem safe_guard (check : Net → Option Fault) : Safe (of (.guard check)) (.guard check) := by
  intro net h
  have hkept : ((Edit.guard check).run net).2 = net := by
    rw [Edit.run_guard]
    split <;> rfl
  refine .of_tally_eq ?_ (congrArg Net.tally hkept)
  exact hkept.symm ▸ h

end GuardedEdit

open GuardedEdit

/-- A guarded edit is safe on a net when its first part is, and the rest is where the first part
ends. -/
theorem SafeOutcome.andThen {guarded : GuardedEdit α} {edit : Edit α} {next : α → GuardedEdit β}
    {next' : α → Edit β} (h : SafeOutcome net (guarded.run net) (edit.run net))
    (hnext : ∀ a after, edit.run net = (.ok a, after) →
      SafeOutcome after ((next a).run after) ((next' a).run after)) :
    SafeOutcome net ((guarded >>= next).run net) ((edit >>= next').run net) := by
  have hrest : SafeOutcome (edit.run net).2 (GuardedEdit.andThen next (edit.run net))
      ((edit >>= next').run net) := by
    rw [Edit.run_bind]
    have hwf := h.wellFormed
    rcases hrun : edit.run net with ⟨fault | a, after⟩
    · rw [hrun] at hwf
      exact .of_tally_eq hwf rfl
    · exact hnext a after hrun
  exact h.bind hrest

theorem GuardedEdit.Safe.bind {guarded : GuardedEdit α} {edit : Edit α} {next : α → GuardedEdit β}
    {next' : α → Edit β} (h : guarded.Safe edit) (hnext : ∀ a, (next a).Safe (next' a)) :
    (guarded >>= next).Safe (edit >>= next') := by
  intro net hnet
  have hfirst := h net hnet
  refine hfirst.andThen fun a after hafter => hnext a after ?_
  have hwf := hfirst.wellFormed
  rwa [hafter] at hwf

end InteractionNets
