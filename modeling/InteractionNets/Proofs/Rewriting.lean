import InteractionNets.Id

/-!
# Rewriting in any order

When two redexes of an object can always be fired in either order, with equivalent results, then
one way to a normal form says all there is to know about the others: no redex on the way ever
fails (`Rewriting.Commutes.exists_fires`), and all ways are equally long and come to equivalent
normal forms (`Rewriting.Commutes.leads_of_steps`).

A redex may fail to fire. So the condition for this (`Rewriting.Commutes`) is not only about redexes
that fire: a redex that fires after another one has also to fire before it.
-/

namespace InteractionNets

/-- Objects with redexes, and what they become when a redex is fired. -/
structure Rewriting (α ρ : Type) where
  IsRedex : α → ρ → Prop
  Fires : α → ρ → α → Prop

namespace Rewriting

variable {α ρ : Type}

/-- An object without redexes is **normal**. -/
def IsNormal (S : Rewriting α ρ) (x : α) : Prop :=
  ∀ r, ¬ S.IsRedex x r

/-- Firing a number of redexes one after another. -/
inductive Steps (S : Rewriting α ρ) : Nat → α → α → Prop
  | refl (x) : Steps S 0 x x
  | cons {n r x y z} : S.Fires x r y → Steps S n y z → Steps S (n + 1) x z

/-- A number of steps lead from an object to another one, up to an equivalence. -/
def Leads (S : Rewriting α ρ) (equiv : α → α → Prop) (n : Nat) (x z : α) : Prop :=
  ∃ z', S.Steps n x z' ∧ equiv z z'

/-- Two redexes can be fired in either order, up to an equivalence that keeps redexes. -/
structure Commutes (S : Rewriting α ρ) (equiv : α → α → Prop) : Prop where
  isEquivalence : Equivalence equiv
  isRedex : ∀ {x y r}, S.Fires x r y → S.IsRedex x r
  fires_unique : ∀ {x y z r}, S.Fires x r y → S.Fires x r z → equiv y z
  /-- Equivalent objects have redexes that do the same. -/
  exists_redex : ∀ {x y r}, equiv x y → S.IsRedex x r → ∃ s, S.IsRedex y s ∧
    (∀ x', S.Fires x r x' → ∃ y', S.Fires y s y' ∧ equiv x' y') ∧
    ∀ y', S.Fires y s y' → ∃ x', S.Fires x r x' ∧ equiv x' y'
  /-- A redex does the same as another, or it remains when the other is fired; if it fires then, it
  fires before the other, too. -/
  diamond : ∀ {x y r s}, S.Fires x r y → S.IsRedex x s →
    (∃ z, S.Fires x s z ∧ equiv y z) ∨
      ∃ s', S.IsRedex y s' ∧ ∀ w, S.Fires y s' w →
        ∃ z r' w', S.Fires x s z ∧ S.Fires z r' w' ∧ equiv w w'

namespace Commutes

variable {S : Rewriting α ρ} {equiv : α → α → Prop} (h : S.Commutes equiv)

include h

theorem isNormal {x y : α} (hxy : equiv x y) (hx : S.IsNormal x) : S.IsNormal y := by
  intro s hs
  obtain ⟨r, hr, -⟩ := h.exists_redex (h.isEquivalence.symm hxy) hs
  exact hx r hr

/-- Steps can be taken from an equivalent object. -/
theorem leads_of_equiv {n : Nat} {x y z : α} (hx : S.Leads equiv n x z) (hxy : equiv x y) :
    S.Leads equiv n y z := by
  obtain ⟨z₀, hsteps, hz⟩ := hx
  induction hsteps generalizing y with
  | refl x => exact ⟨y, .refl y, h.isEquivalence.trans hz hxy⟩
  | cons hfires _ ih =>
    obtain ⟨s, -, hforward, -⟩ := h.exists_redex hxy (h.isRedex hfires)
    obtain ⟨y', hy', hequiv⟩ := hforward _ hfires
    obtain ⟨z', hz', hzz'⟩ := ih hequiv hz
    exact ⟨z', .cons hy' hz', hzz'⟩

/-- On the way to a normal form, every redex fires and comes one step closer. -/
theorem exists_fires {n : Nat} {x z : α} (hx : S.Leads equiv n x z) (hz : S.IsNormal z) {s : ρ}
    (hs : S.IsRedex x s) : ∃ m y, n = m + 1 ∧ S.Fires x s y ∧ S.Leads equiv m y z := by
  obtain ⟨z₀, hsteps, hequiv⟩ := hx
  induction hsteps generalizing s with
  | refl x => exact absurd hs (h.isNormal hequiv hz s)
  | @cons n r x x₁ z₀ hfires hrest ih =>
    rcases h.diamond hfires hs with ⟨y, hy, hx₁⟩ | ⟨s', hs', hjoin⟩
    · exact ⟨n, y, rfl, hy, h.leads_of_equiv ⟨z₀, hrest, hequiv⟩ hx₁⟩
    · -- `s` remains after the first step of the way, so it fires there and hence also here
      obtain ⟨m, w, rfl, hw, hwz⟩ := ih hs' hequiv
      obtain ⟨y, r', w', hy, hw', hww'⟩ := hjoin w hw
      obtain ⟨z', hz', hzz'⟩ := h.leads_of_equiv hwz hww'
      exact ⟨m + 1, y, rfl, hy, z', .cons hw' hz', hzz'⟩

/-- **All ways to a normal form are equally long.** Whatever redexes are fired, what is left of a
way to the normal form has the length that is missing. -/
theorem leads_of_steps {n k : Nat} {x z u : α} (hx : S.Leads equiv n x z) (hz : S.IsNormal z)
    (hway : S.Steps k x u) : ∃ m, k + m = n ∧ S.Leads equiv m u z := by
  induction hway generalizing n with
  | refl x => exact ⟨n, Nat.zero_add n, hx⟩
  | @cons k r x y u hfires _ ih =>
    obtain ⟨n, y', rfl, hy', hlead⟩ := h.exists_fires hx hz (h.isRedex hfires)
    -- what the redex becomes is determined up to equivalence
    obtain ⟨m, rfl, hlead'⟩ := ih (h.leads_of_equiv hlead (h.fires_unique hy' hfires))
    exact ⟨m, Nat.add_right_comm k 1 m, hlead'⟩

/-- A normal form is reached when no steps are left. -/
theorem isNormal_iff_of_leads {n : Nat} {x z : α} (hx : S.Leads equiv n x z) (hz : S.IsNormal z) :
    S.IsNormal x ↔ n = 0 := by
  obtain ⟨z', hsteps, hequiv⟩ := hx
  constructor
  · intro hnormal
    obtain _ | ⟨hfires, -⟩ := hsteps
    · rfl
    · exact absurd (h.isRedex hfires) (hnormal _)
  · rintro rfl
    obtain _ | _ := hsteps
    exact h.isNormal hequiv hz

end Commutes

end Rewriting

end InteractionNets
