import InteractionNets.Net.Basic

/-!
# Edits

An edit is a computation that changes a net, and that may be refused along the way. What was done
before a refusal stays done: an edit gives back the net in either case. An edit whose checks all
come first leaves the net alone when it is refused.
-/

namespace InteractionNets

/-- A computation on a net: it gives a result or the fault it ended with, and the net it
leaves. -/
def Edit (α : Type) : Type :=
  Net → Except Fault α × Net

namespace Edit

variable {α β : Type}

/-- Carry out an edit on a net. -/
def run (edit : Edit α) (net : Net) : Except Fault α × Net :=
  edit net

instance : Monad Edit where
  pure a := fun net => (.ok a, net)
  bind edit next := fun net =>
    match edit net with
    | (.ok a, net) => next a net
    | (.error fault, net) => (.error fault, net)

/-- Give up with a fault. -/
def fail (fault : Fault) : Edit α :=
  fun net => (.error fault, net)

/-- The net as it is now. -/
def net : Edit Net :=
  fun net => (.ok net, net)

/-- Look something up in the net as it is now. -/
def look (f : Net → Except Fault α) : Edit α :=
  fun net => (f net, net)

/-- Change the net by an operation that is never refused. -/
def update (f : Net → α × Net) : Edit α :=
  fun net =>
    let (a, net) := f net
    (.ok a, net)

/-- Change the net by an operation that is never refused and has no result. -/
def change (f : Net → Net) : Edit Unit :=
  fun net => (.ok (), f net)

/-- Give up with the fault that a check finds, if it finds one. -/
def guard (check : Net → Option Fault) : Edit Unit :=
  fun net =>
    match check net with
    | some fault => (.error fault, net)
    | none => (.ok (), net)

/-- The result of an edit and the net it leaves, when it is not refused. -/
def result (edit : Edit α) (net : Net) : Except Fault (α × Net) :=
  match edit net with
  | (.ok a, net) => .ok (a, net)
  | (.error fault, _) => .error fault

/-! ### Running edits -/

@[simp] theorem run_pure (a : α) (net : Net) : (pure a : Edit α).run net = (.ok a, net) := rfl

theorem run_bind (edit : Edit α) (next : α → Edit β) (net : Net) :
    (edit >>= next).run net =
      match edit.run net with
      | (.ok a, net) => (next a).run net
      | (.error fault, net) => (.error fault, net) := rfl

@[simp] theorem run_fail (fault : Fault) (net : Net) :
    (fail fault : Edit α).run net = (.error fault, net) := rfl

@[simp] theorem run_look (f : Net → Except Fault α) (net : Net) :
    (look f).run net = (f net, net) := rfl

@[simp] theorem run_change (f : Net → Net) (net : Net) :
    (change f).run net = (.ok (), f net) := rfl

theorem run_update (f : Net → α × Net) (net : Net) :
    (update f).run net = (.ok (f net).1, (f net).2) := rfl

theorem run_guard (check : Net → Option Fault) (net : Net) :
    (guard check).run net =
      match check net with
      | some fault => (.error fault, net)
      | none => (.ok (), net) := rfl

private theorem id_map_edit (edit : Edit α) : id <$> edit = edit := by
  funext net
  show (match edit net with
    | (.ok a, net) => (.ok a, net)
    | (.error fault, net) => (.error fault, net)) = edit net
  rcases edit net with ⟨_ | _, _⟩ <;> rfl

private theorem bind_assoc_edit {γ : Type} (edit : Edit α) (f : α → Edit β) (g : β → Edit γ) :
    edit >>= f >>= g = edit >>= fun a => f a >>= g := by
  funext net
  show (match (match edit net with
      | (.ok a, net) => f a net
      | (.error fault, net) => (.error fault, net)) with
    | (.ok b, net) => g b net
    | (.error fault, net) => (.error fault, net)) = _
  simp only [bind]
  rcases edit net with ⟨_ | _, _⟩ <;> rfl

instance : LawfulMonad Edit :=
  LawfulMonad.mk' Edit id_map_edit (fun _ _ => rfl) bind_assoc_edit

end Edit

end InteractionNets
