import InteractionNets.Proofs.Reduction.Rounds
import InteractionNets.Reduction.Engine

/-!
# The strategies agree

How a run ends is decided by how far the net is away from a normal form and by the allowed number of
interactions (`Run.within`), whether pairs interact one at a time or in rounds. And a run that ends
with a normal form has gone all the way to it. So the strategies of an engine come to isomorphic
normal forms in the same number of interactions, or both stop at the limit.
-/

namespace InteractionNets

open Net RuleSet Combinators

/-- How a run ends on a net that is a number of interactions away from a normal form, when a limited
number of them may be made after some steps. -/
def Run.within (distance limit steps : Nat) : Run :=
  ⟨if distance ≤ limit then .normalForm else .diverging, steps + min distance limit⟩

/-- Interactions bring the normal form and the limit closer. -/
theorem Run.within_add {done distance limit steps : Nat} (h : done ≤ limit) :
    Run.within distance (limit - done) (steps + done) =
      Run.within (done + distance) limit steps := by
  have hle : distance ≤ limit - done ↔ done + distance ≤ limit := by omega
  have hsteps :
      steps + done + min distance (limit - done) = steps + min (done + distance) limit := by
    omega
  simp only [within, hle, hsteps]

namespace Reducer

variable {r : Reducer} {net normal after : Net} {n steps limit : Nat}

/-- What is said at the limit. -/
theorem runAtLimit_eq (hrules : r.rules.Lawful) (haway : r.rules.IsAway normal n net)
    (steps : Nat) : net.runAtLimit steps = .within n 0 steps := by
  have hzero : n ≤ 0 ↔ net.isNormal := by
    rw [Nat.le_zero, haway.isNormal_iff hrules]
  simp only [runAtLimit, Run.within, hzero, Nat.min_zero, Nat.add_zero]

/-- A run that says at the limit that there is a normal form has reached it. -/
theorem isAway_of_runAtLimit (h : net.WellFormed) {total : Nat}
    (hrun : net.runAtLimit steps = ⟨.normalForm, total⟩) :
    total = steps ∧ r.rules.IsAway net 0 net := by
  rw [runAtLimit] at hrun
  obtain ⟨houtcome, rfl⟩ := Run.mk.inj hrun
  split at houtcome
  · rename_i hnormal
    exact ⟨rfl, IsAway.self h hnormal⟩
  · cases houtcome

/-! ### One pair at a time -/

theorem step_of_isNormal (hnormal : net.isNormal) : r.step net = (.ok none, net) := by
  have hnone : net.activePairs = [] := List.isEmpty_iff.1 hnormal
  simp only [step, hnone, List.head?_nil]

/-- The first active pair interacts, if there is one. -/
theorem step_cases {entry : Option (ActivePair × RuleKey)}
    (hstep : r.step net = (.ok entry, after)) :
    (entry = none ∧ after = net ∧ net.isNormal) ∨
      ∃ pair rule, entry = some (pair, rule.key) ∧ pair ∈ net.activePairs ∧
        r.rules.ruleFor pair = some rule ∧
        net.interact r.watch rule pair = (.ok (), after) := by
  rw [step] at hstep
  split at hstep
  · rename_i hnone
    obtain ⟨hentry, rfl⟩ := Prod.mk.inj hstep
    have hdone : net.isNormal := List.isEmpty_iff.2 (List.head?_eq_none_iff.1 hnone)
    exact .inl ⟨(Except.ok.inj hentry).symm, rfl, hdone⟩
  · rename_i pair hpair
    split at hstep
    · cases hstep
    · rename_i rule hfor
      split at hstep
      · rename_i next hnext
        obtain ⟨hentry, rfl⟩ := Prod.mk.inj hstep
        exact .inr ⟨pair, rule, (Except.ok.inj hentry).symm, List.mem_of_head? hpair, hfor, hnext⟩
      · cases hstep

/-- Nothing is left to do when a round has no pairs. -/
theorem isNormal_of_batch (hbatch : (batch net (some (limit + 1))).length = 0) : net.isNormal := by
  have hlength : (net.activePairs.take (limit + 1)).length = 0 := hbatch
  rw [List.length_take] at hlength
  exact List.isEmpty_iff.2 (List.length_eq_zero_iff.1 (by omega))

section Lawful

variable (hrules : r.rules.Lawful)

include hrules

/-- On the way to a normal form, the first active pair interacts. -/
theorem exists_step (haway : r.rules.IsAway normal (n + 1) net) :
    ∃ entry next, r.step net = (.ok (some entry), next) ∧ r.rules.IsAway normal n next := by
  cases hpair : net.activePairs.head? with
  | none =>
    have hnormal : net.isNormal := List.isEmpty_iff.2 (List.head?_eq_none_iff.1 hpair)
    exact absurd ((haway.isNormal_iff hrules).1 hnormal) (Nat.succ_ne_zero n)
  | some pair =>
    have hmem := List.mem_of_head? hpair
    obtain ⟨rule, hfor, hok⟩ := haway.exists_interact hrules hmem
    obtain ⟨next, hnext⟩ := hok r.watch
    obtain ⟨m, hlength, hleft⟩ := haway.reduces hrules (.step hmem hfor hnext (.refl next))
    obtain rfl : m = n := by omega
    exact ⟨(pair, rule.key), next, by simp only [step, hpair, hfor, hnext], hleft⟩

/-- **One pair at a time**, a run goes as far as it may. -/
theorem exists_runFrom (haway : r.rules.IsAway normal n net) (steps limit : Nat) :
    ∃ next, r.runFrom steps limit net = (.ok (.within n limit steps), next) ∧
      r.rules.IsAway normal (n - limit) next := by
  induction limit generalizing n net steps with
  | zero =>
    refine ⟨net, ?_, haway⟩
    rw [← runAtLimit_eq hrules haway steps]
    rfl
  | succ limit ih =>
    cases n with
    | zero =>
      have hstep := step_of_isNormal (r := r) ((haway.isNormal_iff hrules).2 rfl)
      rw [Nat.zero_sub]
      refine ⟨net, ?_, haway⟩
      simp only [runFrom, hstep, Run.within, Nat.zero_le, if_true, Nat.zero_min, Nat.add_zero]
    | succ n =>
      obtain ⟨entry, next, hstep, hleft⟩ := exists_step hrules haway
      obtain ⟨last, hlast, hrest⟩ := ih hleft (steps + 1)
      refine ⟨last, ?_, ?_⟩
      · have hwithin : Run.within n limit (steps + 1) = .within (n + 1) (limit + 1) steps := by
          rw [Nat.add_comm n 1, ← Run.within_add (Nat.le_add_left 1 limit), Nat.add_sub_cancel]
        simp only [runFrom, hstep, hlast, hwithin]
      · rwa [Nat.add_sub_add_right]

/-- A run that comes to a normal form has gone all the way. -/
theorem isAway_of_runFrom (h : net.WellFormed) {total : Nat}
    (hrun : r.runFrom steps limit net = (.ok ⟨.normalForm, total⟩, after)) :
    ∃ n, total = steps + n ∧ n ≤ limit ∧ r.rules.IsAway after n net := by
  induction limit generalizing net steps with
  | zero =>
    obtain ⟨hresult, rfl⟩ := Prod.mk.inj hrun
    obtain ⟨rfl, haway⟩ := isAway_of_runAtLimit h (Except.ok.inj hresult)
    exact ⟨0, rfl, Nat.le_refl 0, haway⟩
  | succ limit ih =>
    simp only [runFrom] at hrun
    split at hrun
    · rename_i next hstep
      obtain ⟨hresult, rfl⟩ := Prod.mk.inj hrun
      obtain ⟨-, rfl, hnormal⟩ | ⟨_, _, hsome, -⟩ := step_cases hstep
      · have htotal : steps = total := congrArg Run.steps (Except.ok.inj hresult)
        exact ⟨0, htotal.symm, Nat.zero_le _, IsAway.self h hnormal⟩
      · cases hsome
    · rename_i entry next hstep
      obtain ⟨hnone, -⟩ | ⟨pair, rule, -, hpair, hfor, hnext⟩ := step_cases hstep
      · cases hnone
      · have hi := interacts_of_interact h hrules hpair hfor hnext
        obtain ⟨n, rfl, hle, haway⟩ := ih hi.wellFormed hrun
        refine ⟨n + 1, by omega, by omega, IsAway.of_interacts h hi haway⟩
    · cases hrun

/-! ### Rounds -/

/-- **In rounds**, a run goes as far as it may, if it may make as many rounds as interactions. -/
theorem exists_roundsFrom (haway : r.rules.IsAway normal n net) (steps : Nat) {rounds : Nat}
    (hrounds : limit ≤ rounds) :
    ∃ next, r.roundsFrom rounds steps limit net = (.ok (.within n limit steps), next) ∧
      r.rules.IsAway normal (n - limit) next := by
  have hatLimit : ∀ {n : Nat} {net : Net} (steps : Nat), r.rules.IsAway normal n net →
      (.ok (net.runAtLimit steps), net) =
        ((.ok (.within n 0 steps), net) : Except Fault Run × Net) :=
    fun steps haway => by rw [runAtLimit_eq hrules haway steps]
  induction rounds generalizing n net steps limit with
  | zero =>
    obtain rfl := Nat.le_zero.1 hrounds
    exact ⟨net, hatLimit steps haway, haway⟩
  | succ rounds ih =>
    cases limit with
    | zero => exact ⟨net, hatLimit steps haway, haway⟩
    | succ limit =>
      obtain ⟨next, m, hround, rfl, hleft⟩ := exists_runRound hrules haway (some (limit + 1))
      have hlimit : (batch net (some (limit + 1))).length ≤ limit + 1 := List.length_take_le _ _
      cases hdone : (batch net (some (limit + 1))).length with
      | zero =>
        rw [hdone, Nat.zero_add] at haway
        obtain rfl := (haway.isNormal_iff hrules).1 (isNormal_of_batch hdone)
        refine ⟨next, ?_, by rwa [Nat.add_zero, Nat.zero_sub]⟩
        simp only [roundsFrom, hround, hdone, Nat.add_one_ne_zero, if_false, Run.within,
          Nat.zero_le, if_true, Nat.zero_min, Nat.add_zero]
      | succ done =>
        rw [hdone] at hlimit
        have hleftLimit : limit + 1 - (done + 1) ≤ rounds := by omega
        obtain ⟨last, hlast, hrest⟩ := ih hleft (steps + (done + 1)) hleftLimit
        refine ⟨last, ?_, ?_⟩
        · simp only [roundsFrom, hround, hdone, Nat.add_one_ne_zero, if_false, hlast,
            Run.within_add hlimit]
        · have hdistance : done + 1 + m - (limit + 1) = m - (limit + 1 - (done + 1)) := by omega
          rwa [hdistance]

/-- A round without interactions says that there is nothing left to do. -/
private theorem isAway_of_idle (h : net.WellFormed) (hlimit : limit ≠ 0)
    (hround : r.runRound (some limit) net = ((0, none), after)) : r.rules.IsAway after 0 net := by
  obtain ⟨limit, rfl⟩ := Nat.exists_eq_succ_of_ne_zero hlimit
  obtain ⟨hdone, hafter, hback⟩ := runRound_spec hrules h hround
  have hself : r.rules.IsAway net 0 net := IsAway.self h (isNormal_of_batch hdone.symm)
  obtain ⟨next, m, hround', hlength, hleft⟩ :=
    exists_runRound hrules hself (some (limit + 1))
  obtain rfl : next = after := congrArg Prod.snd (hround'.symm.trans hround)
  obtain rfl : m = 0 := by omega
  exact hback (IsAway.self hafter ((hleft.isNormal_iff hrules).2 rfl))

/-- A run in rounds that comes to a normal form has gone all the way. -/
theorem isAway_of_roundsFrom (h : net.WellFormed) {rounds total : Nat}
    (hrun : r.roundsFrom rounds steps limit net = (.ok ⟨.normalForm, total⟩, after)) :
    ∃ n, total = steps + n ∧ n ≤ limit ∧ r.rules.IsAway after n net := by
  have hatLimit : ∀ {net : Net} {steps limit : Nat}, net.WellFormed →
      (.ok (net.runAtLimit steps), net) =
        ((.ok ⟨.normalForm, total⟩, after) : Except Fault Run × Net) →
      ∃ n, total = steps + n ∧ n ≤ limit ∧ r.rules.IsAway after n net := by
    intro net steps limit h hrun
    obtain ⟨hresult, rfl⟩ := Prod.mk.inj hrun
    obtain ⟨rfl, haway⟩ := isAway_of_runAtLimit h (Except.ok.inj hresult)
    exact ⟨0, rfl, Nat.zero_le _, haway⟩
  induction rounds generalizing net steps limit with
  | zero => exact hatLimit h hrun
  | succ rounds ih =>
    simp only [roundsFrom] at hrun
    split at hrun
    · exact hatLimit h hrun
    · rename_i hpositive
      split at hrun
      · cases hrun
      · rename_i next hround
        obtain ⟨hresult, rfl⟩ := Prod.mk.inj hrun
        have htotal : steps = total := congrArg Run.steps (Except.ok.inj hresult)
        exact ⟨0, htotal.symm, Nat.zero_le _, isAway_of_idle hrules h hpositive hround⟩
      · rename_i done next hround
        obtain ⟨hdone, hwell, hback⟩ := runRound_spec hrules h hround
        obtain ⟨n, rfl, hle, haway⟩ := ih hwell hrun
        have hlimit : done + 1 ≤ limit :=
          Nat.le_trans (Nat.le_of_eq hdone) (List.length_take_le _ _)
        exact ⟨n + (done + 1), by omega, by omega, hback haway⟩

end Lawful

/-- Counting the time of a run changes nothing but the tally. -/
theorem exists_timed_eq {run : Edit Run} {result : Except Fault Run}
    (hrun : run net = (result, after)) :
    ∃ tally, r.timed run net = (result, { after with tally := tally }) :=
  ⟨after.tally.recordBusy (r.watch.run net after), by simp only [timed, hrun]⟩

end Reducer

namespace Engine

variable {e : Engine} {net normal after : Net} {n limit total : Nat}

/-- The run that an engine makes with a limit. -/
def drive (e : Engine) : Nat → Edit Run :=
  match e.settings.strategy with
  | .sequential => e.reducer.normalize
  | .parallel => e.reducer.normalizeInRounds

/-- An engine with a limit keeps to it. -/
theorem run_of_maxSteps (hlimit : e.settings.maxSteps = some limit) (fuel : Nat) :
    e.run fuel = some <$> e.drive limit := by
  rw [run, drive, hlimit]
  cases e.settings.strategy <;> rfl

/-- An engine without a limit has the fuel for one. -/
theorem run_of_none (hnone : e.settings.maxSteps = none) (fuel : Nat) :
    e.run fuel = Reducer.unlimited (e.drive fuel) := by
  rw [run, drive, hnone]
  cases e.settings.strategy <;> rfl

/-- An engine reports how a run ends with its limit, or with the fuel for a limit; but a run that
the fuel was not enough for is not reported. -/
theorem run_eq_map_some_iff {fuel : Nat} {report : Except Fault Run} :
    (e.run fuel).run net = (report.map some, after) ↔
      (e.drive (e.settings.maxSteps.getD fuel)).run net = (report, after) ∧
        (e.settings.maxSteps = none → ∀ run, report = .ok run → run.outcome ≠ .diverging) := by
  cases hlimit : e.settings.maxSteps with
  | none =>
    rw [run_of_none hlimit, Option.getD_none, Reducer.unlimited, Edit.run_bind]
    rcases (e.drive fuel).run net with ⟨fault | ⟨outcome, steps⟩, last⟩
    · cases report <;> simp [Except.map]
    · cases report with
      | error fault => cases outcome <;> simp [Except.map]
      | ok run => cases outcome <;> simp +contextual [Except.map, eq_comm]
  | some limit =>
    rw [run_of_maxSteps hlimit, Option.getD_some, map_eq_pure_bind, Edit.run_bind]
    rcases (e.drive limit).run net with ⟨fault | result, last⟩ <;>
      cases report <;> simp [Except.map]

/-- A normal form is reported when it is reached within the limit or the fuel. -/
theorem run_eq_normalForm_iff {fuel : Nat} :
    (e.run fuel).run net = (.ok (some ⟨.normalForm, total⟩), after) ↔
      (e.drive (e.settings.maxSteps.getD fuel)).run net = (.ok ⟨.normalForm, total⟩, after) := by
  have hiff : (e.run fuel).run net = (Except.map some (.ok ⟨.normalForm, total⟩), after) ↔ _ :=
    run_eq_map_some_iff
  refine hiff.trans (and_iff_left fun _ run hrun => ?_)
  obtain rfl := Except.ok.inj hrun
  exact Outcome.noConfusion

section Lawful

variable (hrules : e.reducer.rules.Lawful)

include hrules

/-- **Both strategies** go as far as they may. -/
theorem exists_drive (haway : e.reducer.rules.IsAway normal n net) (limit : Nat) :
    ∃ next, (e.drive limit).run net = (.ok (.within n limit 0), next) ∧
      e.reducer.rules.IsAway normal (n - limit) next := by
  have htimed : ∀ {run : Edit Run}, (∃ next, run net = (.ok (.within n limit 0), next) ∧
        e.reducer.rules.IsAway normal (n - limit) next) →
      ∃ next, e.reducer.timed run net = (.ok (.within n limit 0), next) ∧
        e.reducer.rules.IsAway normal (n - limit) next := by
    rintro run ⟨next, hrun, hleft⟩
    obtain ⟨tally, htally⟩ := Reducer.exists_timed_eq hrun
    exact ⟨_, htally, (IsAway.withTally_iff hrules hleft.wellFormed tally).2 hleft⟩
  rw [drive]
  cases e.settings.strategy with
  | sequential => exact htimed (Reducer.exists_runFrom hrules haway 0 limit)
  | parallel => exact htimed (Reducer.exists_roundsFrom hrules haway 0 (Nat.le_refl limit))

/-- **Both strategies** come to a normal form by going all the way. -/
theorem isAway_of_drive (h : net.WellFormed)
    (hrun : (e.drive limit).run net = (.ok ⟨.normalForm, total⟩, after)) :
    total ≤ limit ∧ e.reducer.rules.IsAway after total net := by
  have htimed : ∀ {run : Edit Run}, (∀ {last}, run net = (.ok ⟨.normalForm, total⟩, last) →
        ∃ n, total = 0 + n ∧ n ≤ limit ∧ e.reducer.rules.IsAway last n net) →
      e.reducer.timed run net = (.ok ⟨.normalForm, total⟩, after) →
        total ≤ limit ∧ e.reducer.rules.IsAway after total net := by
    intro run hall hrun
    rcases hresult : run net with ⟨result, last⟩
    obtain ⟨tally, htally⟩ := Reducer.exists_timed_eq (r := e.reducer) hresult
    obtain ⟨rfl, rfl⟩ := Prod.mk.inj (htally.symm.trans hrun)
    obtain ⟨n, rfl, hle, haway⟩ := hall hresult
    rw [Nat.zero_add]
    exact ⟨hle, haway.to_withTally tally⟩
  rw [drive] at hrun
  cases hstrategy : e.settings.strategy with
  | sequential =>
    rw [hstrategy] at hrun
    exact htimed (Reducer.isAway_of_runFrom hrules h) hrun
  | parallel =>
    rw [hstrategy] at hrun
    exact htimed (Reducer.isAway_of_roundsFrom hrules h) hrun

end Lawful

/-- **The strategies agree.** When a run ends with a normal form under one strategy, it does so
under the other, with as many interactions and an isomorphic net, whatever the limit is and, without
a limit, whatever fuel the first run ends with. When a normal form is further away than the limit,
every strategy stops at the limit. -/
theorem strategies_agree {rules : RuleSet} (haccepted : ∀ rule ∈ rules.rules, rule.Accepted)
    (hconfluent : rules.isConfluent) (h : net.WellFormed) (watch watch' : Stopwatch)
    (maxSteps : Option Nat) (strategy strategy' : Strategy) (fuel : Nat) :
    (∀ steps after,
      ((Engine.mk ⟨maxSteps, strategy⟩ ⟨rules, watch⟩).run fuel).run net =
        (.ok (some ⟨.normalForm, steps⟩), after) →
      ∃ after',
        ((Engine.mk ⟨maxSteps, strategy'⟩ ⟨rules, watch'⟩).run fuel).run net =
          (.ok (some ⟨.normalForm, steps⟩), after') ∧ after.Isomorphic after') ∧
    ∀ n normal limit, rules.Reduces n net normal → normal.isNormal → maxSteps = some limit →
      limit < n → ∃ after,
        ((Engine.mk ⟨maxSteps, strategy⟩ ⟨rules, watch⟩).run fuel).run net =
          (.ok (some ⟨.diverging, limit⟩), after) := by
  have hrules := lawful_of_isConfluent haccepted hconfluent
  constructor
  · intro steps after hrun
    obtain ⟨hle, haway⟩ := isAway_of_drive hrules h (run_eq_normalForm_iff.1 hrun)
    obtain ⟨after', hrun', hleft⟩ :=
      exists_drive (e := ⟨⟨maxSteps, strategy'⟩, ⟨rules, watch'⟩⟩) hrules haway (maxSteps.getD fuel)
    rw [Nat.sub_eq_zero_of_le hle] at hleft
    refine ⟨after', run_eq_normalForm_iff.2 ?_, hleft.isomorphic⟩
    rw [hrun', Run.within, if_pos hle, Nat.min_eq_left hle, Nat.zero_add]
  · rintro n normal limit hreduces hnormal rfl hlt
    have haway := IsAway.of_reduces hrules h hreduces hnormal
    obtain ⟨after, hrun, -⟩ :=
      exists_drive (e := ⟨⟨some limit, strategy⟩, ⟨rules, watch⟩⟩) hrules haway limit
    refine ⟨after, ?_⟩
    have hfar : ¬ n ≤ limit := Nat.not_le_of_lt hlt
    rw [run_of_maxSteps rfl, map_eq_pure_bind, Edit.run_bind, hrun, Run.within, if_neg hfar,
      Nat.min_eq_right (Nat.le_of_lt hlt), Nat.zero_add]
    rfl

/-- Two pairs that are tied to each other are both reduced, one after the other or in rounds; with
one interaction allowed, either strategy stops after one. -/
theorem strategies_woven :
    (∃ after',
      ((Engine.mk ⟨none, .parallel⟩ ⟨annihilation, .stopped⟩).run 2).run woven =
          (.ok (some ⟨.normalForm, 2⟩), after') ∧
        (((Engine.mk ⟨none, .sequential⟩ ⟨annihilation, .stopped⟩).run 2).run
          woven).2.Isomorphic after') ∧
    ∀ strategy, ∃ after,
      ((Engine.mk ⟨some 1, strategy⟩ ⟨annihilation, .stopped⟩).run 0).run woven =
        (.ok (some ⟨.diverging, 1⟩), after) := by
  have hconfluent : annihilation.isConfluent := by decide +kernel
  have hagree := fun maxSteps strategy => strategies_agree accepted_annihilation hconfluent
    wellFormed_woven .stopped .stopped maxSteps strategy .parallel
  have hnormal : (crossed wovenInner (crossed wovenOuter woven)).isNormal := by decide +kernel
  exact ⟨(hagree none .sequential 2).1 2 _ (Prod.fst_eq_iff.1 (by decide +kernel)), fun strategy =>
    (hagree (some 1) strategy 0).2 2 _ 1 reduces_woven hnormal rfl Nat.one_lt_two⟩

end Engine

/-! ### Reducing without a limit -/

namespace Reducer

variable {r : Reducer} {net normal after : Net} {n fuel : Nat}

/-- **A reduction** ends with the normal form if there is fuel for the way to it, and does not end
otherwise; but it is never refused. -/
theorem exists_reduce (hrules : r.rules.Lawful) (haway : r.rules.IsAway normal n net) (fuel : Nat) :
    ∃ after, (r.reduce fuel).run net =
        (.ok (if n ≤ fuel then some ⟨.normalForm, n⟩ else none), after) ∧
      r.rules.IsAway normal (n - fuel) after := by
  obtain ⟨after, hrun, hleft⟩ :=
    Engine.exists_drive (e := ⟨⟨none, .sequential⟩, r⟩) hrules haway fuel
  have hnormalize : (r.normalize fuel).run net = (.ok (.within n fuel 0), after) := hrun
  refine ⟨after, ?_, hleft⟩
  rw [reduce, unlimited, Edit.run_bind, hnormalize]
  by_cases hle : n ≤ fuel
  · simp only [Run.within, if_pos hle, Nat.min_eq_left hle, Nat.zero_add]
    rfl
  · simp only [Run.within, if_neg hle]
    rfl

/-- A reduction that ends has gone all the way to the normal form. -/
theorem isAway_of_reduce (hrules : r.rules.Lawful) (h : net.WellFormed)
    (hrun : (r.reduce fuel).run net = (.ok (some ⟨.normalForm, n⟩), after)) :
    n ≤ fuel ∧ r.rules.IsAway after n net := by
  have hengine : ((Engine.mk ⟨none, .sequential⟩ r).run fuel).run net =
      (.ok (some ⟨.normalForm, n⟩), after) := hrun
  exact Engine.isAway_of_drive hrules h (Engine.run_eq_normalForm_iff.1 hengine)

end Reducer

end InteractionNets
