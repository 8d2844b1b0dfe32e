import InteractionNets.Duration
import InteractionNets.OrderedMap

/-!
# Tallies

A tally counts the interactions made on a net, in all and for each rule, with the time they took.
It also counts the rounds of simultaneous interactions and the plans that had to be made again.
Tallies are added: the sum of two tallies is the tally of the one history followed by the other.
-/

namespace InteractionNets

/-- The interactions by one rule: how many, how many plans were made again, and the total, least
and greatest time an interaction took. -/
structure RuleTally where
  interactions : Nat
  replanned : Nat
  totalTime : Duration
  minTime : Duration
  maxTime : Duration
deriving DecidableEq

namespace RuleTally

/-- The tally of a rule that was never used. -/
def empty : RuleTally :=
  ⟨0, 0, .zero, .zero, .zero⟩

instance : Inhabited RuleTally := ⟨empty⟩

/-- Count one more interaction, which took the given time. -/
def record (t : RuleTally) (took : Duration) : RuleTally where
  interactions := t.interactions + 1
  replanned := t.replanned
  totalTime := t.totalTime + took
  minTime := if t.interactions = 0 ∨ took < t.minTime then took else t.minTime
  maxTime := max t.maxTime took

/-- Count one more plan that was made again. -/
def recordReplan (t : RuleTally) : RuleTally :=
  { t with replanned := t.replanned + 1 }

/-- The average time of an interaction. -/
def average (t : RuleTally) : Duration :=
  t.totalTime.share t.interactions

/-- Whether the tally of a rule can be kept, its counts in 64 bits each and its total time as
well. -/
def inRange (t : RuleTally) : Bool :=
  t.interactions < Word.count64 && t.replanned < Word.count64 && t.totalTime.fits

/-- The tally of two histories in a row. The least time of a history without interactions does not
count. -/
instance : Add RuleTally where
  add a b := {
    interactions := a.interactions + b.interactions
    replanned := a.replanned + b.replanned
    totalTime := a.totalTime + b.totalTime
    minTime :=
      if a.interactions = 0 then b.minTime
      else if b.interactions = 0 then a.minTime
      else min a.minTime b.minTime
    maxTime := max a.maxTime b.maxTime }

end RuleTally

/-- The interactions made on a net: in all, by the name of the rule in order of first use, the
rounds they were made in, the plans made again, and the time spent on whole runs. -/
structure Tally where
  interactions : Nat
  byRule : OrderedMap String RuleTally
  rounds : Nat
  replanned : Nat
  busy : Duration
deriving DecidableEq

namespace Tally

/-- The tally of a net on which nothing was done. -/
def empty : Tally :=
  ⟨0, .empty, 0, 0, .zero⟩

instance : Inhabited Tally := ⟨empty⟩

/-- Count an interaction by the named rule. -/
def record (t : Tally) (rule : String) (took : Duration) : Tally :=
  { t with
    interactions := t.interactions + 1
    byRule := t.byRule.upsert rule fun old => (old.getD .empty).record took }

/-- Count a plan for the named rule that was made again. -/
def recordReplan (t : Tally) (rule : String) : Tally :=
  { t with
    replanned := t.replanned + 1
    byRule := t.byRule.upsert rule fun old => (old.getD .empty).recordReplan }

/-- Count a round. -/
def recordRound (t : Tally) : Tally :=
  { t with rounds := t.rounds + 1 }

/-- Add the time of a run. -/
def recordBusy (t : Tally) (took : Duration) : Tally :=
  { t with busy := t.busy + took }

/-- The tally of two histories in a row. -/
instance : Add Tally where
  add a b := {
    interactions := a.interactions + b.interactions
    byRule := b.byRule.entries.foldl
      (fun m entry => m.upsert entry.1 fun old => old.getD .empty + entry.2) a.byRule
    rounds := a.rounds + b.rounds
    replanned := a.replanned + b.replanned
    busy := a.busy + b.busy }

/-- Whether every duration of a tally can be kept in 64 bits of seconds. -/
def fits (t : Tally) : Bool :=
  t.busy.fits && t.byRule.values.all fun r => r.totalTime.fits

/-- Whether a tally can be kept, its counts in 64 bits each and its durations as well. A duration
that cannot be kept always ends a program; a count does where arithmetic is checked. -/
def inRange (t : Tally) : Bool :=
  t.interactions < Word.count64 && t.rounds < Word.count64 && t.replanned < Word.count64 &&
    t.busy.fits && t.byRule.values.all RuleTally.inRange

/-- The sum of two tallies, unless one of its durations cannot be kept. -/
def add? (a b : Tally) : Option Tally :=
  if (a + b).fits then some (a + b) else none

/-- The sum of some tallies from left to right, unless one of its durations cannot be kept. -/
def sum? (l : List Tally) : Option Tally :=
  l.foldlM add? empty

/-- The interactions per second of busy time, computed in doubles and cut off to a whole number
below 2⁶⁴; 0 when there was no busy time. -/
def perSecond (t : Tally) : Nat :=
  if t.busy = .zero then 0
  else (t.interactions.toUInt64.toFloat / t.busy.toSeconds).toUInt64.toNat

end Tally

end InteractionNets
