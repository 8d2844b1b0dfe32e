import InteractionNets.Proofs.Diagram.Redex
import InteractionNets.Proofs.Redex.Rewrite

/-!
# Exchanging interactions

A redex of a net is a redex of its diagram. So interactions are determined, up to isomorphism, by
the diagram of the net and the two agents (`Net.Interacts.exists_isIso`, `Net.exists_interacts`).
They can be carried over to isomorphic nets (`Net.Interacts.exists_of_isIso`) and exchanged with
each other (`Net.Interacts.exchange`).
-/

namespace InteractionNets

/-- The agents of an active pair, in the order in which the record names them. -/
def ActivePair.ends (pair : ActivePair) : Side → AgentId :=
  pair.agentOn (.left, .right)

theorem ActivePair.samePair_agentOn (pair : ActivePair) {sides : Side × Side}
    (hsides : sides.2 = sides.1.flip) : SamePair pair.ends (pair.agentOn sides) := by
  obtain ⟨side, other⟩ := sides
  obtain rfl : other = side.flip := hsides
  cases side with
  | left => exact .refl _
  | right =>
    refine .inr (funext fun side => ?_)
    cases side <;> rfl

namespace Net

variable {net after : Net} {rules : RuleSet} {rule : Rule} {agents agents' : Side → AgentId}
  {labels : List (PortId × Nat)}

/-- The principal ports of two agents are joined. -/
def Meets (net : Net) (agents : Side → AgentId) : Prop :=
  ∃ p q, (net.portsOf (agents .left))[0]? = some p ∧
    (net.portsOf (agents .right))[0]? = some q ∧ net.Joined p q

theorem diagram_meets_iff : (net.diagram labels).Meets agents ↔ net.Meets agents := by
  constructor
  · rintro ⟨hp, hq, hpq⟩
    exact ⟨_, _, hp, hq, hpq⟩
  · rintro ⟨p, q, hp, hq, hpq⟩
    exact .joined hp hq hpq

theorem diagram_isRedex_iff :
    (net.diagram labels).IsRedex rule agents ↔ net.IsRedex rule agents := by
  have hsymbol : ∀ side, (net.diagram labels).symbol (agents side) = some (rule.symbolOn side) ↔
      ∃ data, net.agent? (agents side) = some data ∧ data.symbol = rule.symbolOn side :=
    fun side => Option.map_eq_some_iff
  constructor
  · intro hr
    exact ⟨fun side => (hsymbol side).1 (hr.symbol side), diagram_meets_iff.1 hr.meets⟩
  · intro hr
    exact ⟨fun side => (hsymbol side).2 (hr.symbol side), diagram_meets_iff.2 hr.joined⟩

theorem Meets.samePair (hm : net.Meets agents) (hsame : SamePair agents agents') :
    net.Meets agents' := by
  rcases hsame with rfl | rfl
  · exact hm
  · obtain ⟨p, q, hp, hq, hpq⟩ := hm
    exact ⟨q, p, hq, hp, hpq.symm⟩

theorem Meets.ne (hm : net.Meets agents) (h : net.WellFormed) : agents .left ≠ agents .right := by
  obtain ⟨p, q, hp, hq, hpq⟩ := hm
  intro heq
  rw [heq, hq] at hp
  exact h.joined_ne hpq (Option.some.inj hp).symm

/-- An agent meets one agent at most. -/
theorem Meets.samePair_of_eq (hm : net.Meets agents) (h : net.WellFormed)
    (hm' : net.Meets agents') {side side' : Side} (heq : agents side = agents' side') :
    SamePair agents agents' := by
  -- it is enough to look at pairs with a common agent on the left
  have hleft : ∀ {r r' : Side → AgentId}, net.Meets r → net.Meets r' → r .left = r' .left →
      r' = r := by
    rintro r r' ⟨p, q, hp, hq, hpq⟩ ⟨p', q', hp', hq', hpq'⟩ heq
    rw [heq] at hp
    obtain rfl := Option.some.inj (hp.symm.trans hp')
    obtain rfl := h.joined_unique hpq hpq'
    funext side
    cases side with
    | left => exact heq.symm
    | right => exact (h.port_unique hq' hq).1
  have hflip := hm.samePair (.inr rfl)
  have hflip' := hm'.samePair (.inr rfl)
  cases side <;> cases side'
  · exact .inl (hleft hm hm' heq)
  · exact .symm (.inr (hleft hflip' hm heq.symm))
  · exact .inr (hleft hflip hm' heq)
  · refine .inl ?_
    rw [← SamePair.comp_flip_flip agents, ← SamePair.comp_flip_flip agents',
      hleft hflip hflip' heq]

/-- The ports that the record of an active pair names are the principal ports of its agents. -/
theorem principal_of_mem_activePairs (h : net.WellFormed) {pair : ActivePair}
    (hpair : pair ∈ net.activePairs) : (net.portsOf pair.agent₁)[0]? = some pair.port₁ ∧
      (net.portsOf pair.agent₂)[0]? = some pair.port₂ := by
  obtain ⟨-, agent₁, agent₂, -, -, -, h₁, h₂, hport₁, hport₂, -⟩ :=
    Surroundings.activePair_spec h hpair
  rw [Agent.principal?, List.head?_eq_getElem?] at hport₁ hport₂
  rw [portsOf_eq h₁, portsOf_eq h₂]
  exact ⟨hport₁, hport₂⟩

/-- The agents of an active pair meet. -/
theorem meets_of_mem_activePairs (h : net.WellFormed) {pair : ActivePair}
    (hpair : pair ∈ net.activePairs) : net.Meets pair.ends := by
  obtain ⟨data, -, -, hdata, hports, -⟩ := Surroundings.activePair_spec h hpair
  obtain ⟨hport₁, hport₂⟩ := principal_of_mem_activePairs h hpair
  exact ⟨pair.port₁, pair.port₂, hport₁, hport₂, pair.connection, data, hdata, .inl hports⟩

/-- Agents that meet make an active pair. -/
theorem exists_pair_of_meets (h : net.WellFormed) (hm : net.Meets agents) :
    ∃ pair ∈ net.activePairs, SamePair agents pair.ends := by
  -- the ends of the connection are recorded in one order or the other
  have hordered : ∀ (agents : Side → AgentId) {p q c data},
      (net.portsOf (agents .left))[0]? = some p → (net.portsOf (agents .right))[0]? = some q →
      net.connection? c = some data → data.ports = (p, q) →
      ∃ pair ∈ net.activePairs, pair.ends = agents := by
    intro agents p q c data hp hq hdata hports
    obtain ⟨agent₁, h₁⟩ := Option.isSome_iff_exists.1 (isSome_agent?_of_getElem? hp)
    obtain ⟨agent₂, h₂⟩ := Option.isSome_iff_exists.1 (isSome_agent?_of_getElem? hq)
    refine ⟨⟨c, agents .left, agents .right, p, q, agent₁.symbol, agent₂.symbol⟩,
      Surroundings.mem_activePairs_of_principal h hdata hports h₁ h₂ hp hq rfl rfl, ?_⟩
    funext side
    cases side <;> rfl
  obtain ⟨p, q, hp, hq, c, data, hdata, hports | hports⟩ := hm
  · obtain ⟨pair, hpair, hends⟩ := hordered agents hp hq hdata hports
    exact ⟨pair, hpair, .inl hends⟩
  · obtain ⟨pair, hpair, hends⟩ := hordered (agents ∘ Side.flip) hq hp hdata hports
    exact ⟨pair, hpair, .inr hends⟩

/-! ### Interactions of two agents -/

/-- A net becomes another when two agents interact by the rule that a set has for them. -/
inductive Interacts (net : Net) (rules : RuleSet) (agents : Side → AgentId) (after : Net) : Prop
  | intro {rule : Rule} {roles : Side → AgentId} {copy : AgentId → AgentId}
      {port : PortId → PortId} : rules.Contains rule → SamePair agents roles →
      net.IsRedex rule roles → ¬ net.HasFreeWire rule roles →
      net.IsRewrite rule roles after copy port → Interacts net rules agents after

theorem Interacts.wellFormed (hi : net.Interacts rules agents after) : after.WellFormed := by
  obtain ⟨-, -, -, -, hw⟩ := hi
  exact hw.wellFormed

theorem Interacts.exists_rule (hi : net.Interacts rules agents after) :
    ∃ rule roles, rules.Contains rule ∧ SamePair agents roles ∧ net.IsRedex rule roles := by
  obtain ⟨hrule, hsame, hr, -, -⟩ := hi
  exact ⟨_, _, hrule, hsame, hr⟩

theorem Interacts.samePair (hi : net.Interacts rules agents after)
    (hsame : SamePair agents agents') : net.Interacts rules agents' after := by
  obtain ⟨hrule, hroles, hr, hfree, hw⟩ := hi
  exact ⟨hrule, hsame.symm.trans hroles, hr, hfree, hw⟩

theorem Interacts.meets (hi : net.Interacts rules agents after) : net.Meets agents := by
  obtain ⟨-, hsame, hr, -, -⟩ := hi
  exact Meets.samePair hr.joined hsame.symm

/-! ### Interactions of active pairs -/

/-- The rule by which the agents of a pair can be rewritten is found. -/
theorem ruleFor_eq_some (h : net.WellFormed) {pair : ActivePair} (hpair : pair ∈ net.activePairs)
    (hrule : rules.Contains rule) (hsame : SamePair pair.ends agents)
    (hr : net.IsRedex rule agents) : rules.ruleFor pair = some rule := by
  obtain ⟨-, agent₁, agent₂, -, -, -, h₁, h₂, -, -, hsymbol₁, hsymbol₂⟩ :=
    Surroundings.activePair_spec h hpair
  rw [RuleSet.ruleFor, RuleSet.lookup_eq_some_iff, Rule.isSome_orient_iff, ← hsymbol₁, ← hsymbol₂]
  rcases hsame with rfl | rfl
  · have hleft : agent₁.symbol = rule.left := hr.symbol_eq .left h₁
    have hright : agent₂.symbol = rule.right := hr.symbol_eq .right h₂
    rw [hleft, hright]
    exact ⟨hrule, .inl ⟨rfl, rfl⟩⟩
  · have hleft : agent₂.symbol = rule.left := hr.symbol_eq .left h₂
    have hright : agent₁.symbol = rule.right := hr.symbol_eq .right h₁
    rw [hleft, hright, RuleKey.of_comm]
    exact ⟨hrule, .inr ⟨rfl, rfl⟩⟩

/-- An active pair with a rule interacts, unless a path joins two places on the interface. -/
theorem interact_of_ruleFor (h : net.WellFormed) (hrules : rules.Lawful) {pair : ActivePair}
    (hpair : pair ∈ net.activePairs) (hfor : rules.ruleFor pair = some rule) (watch : Stopwatch) :
    ∃ roles, SamePair pair.ends roles ∧ net.IsRedex rule roles ∧
      ((net.HasFreeWire rule roles ∧
        net.interact watch rule pair = (.error (.freeWire rule.key), net)) ∨
      ∃ after, net.interact watch rule pair = (.ok (), after) ∧
        net.Interacts rules pair.ends after) := by
  have hrule := RuleSet.contains_of_ruleFor hfor
  obtain ⟨sides, hsides⟩ := Option.isSome_iff_exists.1 (RuleSet.isFor_of_ruleFor hfor)
  obtain ⟨hredex, hcases⟩ :=
    interact_of_mem_activePairs h (hrules.valid hrule) hpair hsides watch
  have hsame := pair.samePair_agentOn hredex.sides_eq
  refine ⟨_, hsame, hredex.isRedex, hcases.imp id ?_⟩
  rintro ⟨hfree, after, copy, port, hok, hw⟩
  exact ⟨after, hok, hrule, hsame, hredex.isRedex, hfree, hw⟩

/-- What an active pair becomes is what its agents become. -/
theorem interacts_of_interact (h : net.WellFormed) (hrules : rules.Lawful) {pair : ActivePair}
    (hpair : pair ∈ net.activePairs) (hfor : rules.ruleFor pair = some rule) {watch : Stopwatch}
    (hok : net.interact watch rule pair = (.ok (), after)) :
    net.Interacts rules pair.ends after := by
  obtain ⟨roles, -, -, ⟨-, herror⟩ | ⟨after', hok', hi⟩⟩ :=
    interact_of_ruleFor h hrules hpair hfor watch
  · rw [hok] at herror
    cases herror
  · obtain rfl := congrArg Prod.snd (hok.symm.trans hok')
    exact hi

section Lawful

variable (h : net.WellFormed) (hrules : rules.Lawful) (hrule : rules.Contains rule)
  {roles : Side → AgentId} (hsame : SamePair agents roles) (hr : net.IsRedex rule roles)
  (hl : net.IsLabelling labels)

include h hrules hrule hsame hr hl

/-- **What interacting comes to.** Whichever way the agents play the sides, the rewritten diagram
has no clash and is that of the net afterwards; the agents that stay keep their ids. -/
theorem Interacts.exists_isIso (hi : net.Interacts rules agents after) :
    ¬ (net.rewritten rule roles labels).HasClash ∧
      ∃ labels' f g, after.IsLabelling labels' ∧
        (net.rewritten rule roles labels).IsIso (after.diagram labels') f g ∧
        ∀ a, f (.inl a) = a := by
  obtain @⟨rule', roles', copy, port, hrule', hsame', hr', hfree, hw⟩ := hi
  have hroles : SamePair roles roles' := hsame.symm.trans hsame'
  have hd : (net.diagram labels).IsRedex rule roles := diagram_isRedex_iff.2 hr
  have hd' : (net.diagram labels).IsRedex rule' roles' := diagram_isRedex_iff.2 hr'
  obtain rfl := hd.rule_unique hrule hrule' hd' hroles
  have hv := hrules.valid hrule
  obtain ⟨p, q, hpq⟩ := hd.exists_isIso_of_samePair hrules hrule hd' hroles
  obtain ⟨labels', g, hl', hg⟩ := hw.exists_isIso hr' h hv hl hfree
  refine ⟨?_, labels', _, _, hl', hpq.trans hg, fun _ => rfl⟩
  rw [(Diagram.Isomorphic.hasClash_iff ⟨_, _, hpq⟩ :), hr'.hasClash_rewrite_iff h hl hv]
  exact hfree

/-- Agents interact when the rewritten diagram has no clash. -/
theorem exists_interacts (hclash : ¬ (net.rewritten rule roles labels).HasClash) :
    ∃ after, net.Interacts rules agents after := by
  obtain ⟨pair, hpair, hends⟩ := exists_pair_of_meets h hr.joined
  have hfor := ruleFor_eq_some h hpair hrule hends.symm hr
  obtain ⟨roles', hroles, hr', ⟨hfree, -⟩ | ⟨after, -, hi⟩⟩ :=
    interact_of_ruleFor h hrules hpair hfor .stopped
  · obtain ⟨p, q, hpq⟩ := (diagram_isRedex_iff.2 hr).exists_isIso_of_samePair hrules hrule
      (diagram_isRedex_iff.2 hr') (hends.trans hroles)
    rw [(Diagram.Isomorphic.hasClash_iff ⟨_, _, hpq⟩ :),
      hr'.hasClash_rewrite_iff h hl (hrules.valid hrule)] at hclash
    exact absurd hfree hclash
  · exact ⟨after, hi.samePair (hends.symm.trans hsame.symm)⟩

end Lawful

/-- A pair whose agents interact has a rule, and interacts on every stopwatch. -/
theorem exists_interact (h : net.WellFormed) (hrules : rules.Lawful) {pair : ActivePair}
    (hpair : pair ∈ net.activePairs) (hi : net.Interacts rules pair.ends after) :
    ∃ rule, rules.ruleFor pair = some rule ∧
      ∀ watch, ∃ after, net.interact watch rule pair = (.ok (), after) := by
  obtain ⟨rule, agents, hrule, hsame, hr⟩ := hi.exists_rule
  have hfor := ruleFor_eq_some h hpair hrule hsame hr
  refine ⟨rule, hfor, fun watch => ?_⟩
  obtain ⟨roles, hroles, hr', ⟨hfree, -⟩ | ⟨after', hok, -⟩⟩ :=
    interact_of_ruleFor h hrules hpair hfor watch
  · have hl := net.isLabelling_zipIdx
    have hclash := (hi.exists_isIso h hrules hrule hroles hr' hl).1
    rw [hr'.hasClash_rewrite_iff h hl (hrules.valid hrule)] at hclash
    exact absurd hfree hclash
  · exact ⟨after', hok⟩

/-! ### The same interaction in another net -/

/-- **Interactions are the same in isomorphic nets.** -/
theorem Interacts.exists_of_isIso (h : net.WellFormed) (hrules : rules.Lawful) {other : Net}
    (hother : other.WellFormed) {labels' : List (PortId × Nat)} (hl : net.IsLabelling labels)
    (hl' : other.IsLabelling labels') {f g : AgentId → AgentId}
    (hfg : (net.diagram labels).IsIso (other.diagram labels') f g)
    (hi : net.Interacts rules agents after) :
    ∃ after', other.Interacts rules (f ∘ agents) after' ∧ after.Isomorphic after' := by
  obtain ⟨rule, roles, hrule, hsame, hr⟩ := hi.exists_rule
  have hd : (net.diagram labels).IsRedex rule roles := diagram_isRedex_iff.2 hr
  have hr' : other.IsRedex rule (f ∘ roles) := diagram_isRedex_iff.1 (hfg.forward.isRedex hd)
  have hsame' : SamePair (f ∘ agents) (f ∘ roles) := hsame.comp f
  have hiso : (net.rewritten rule roles labels).Isomorphic
      (other.rewritten rule (f ∘ roles) labels') :=
    ⟨_, _, hfg.rewrite ⟨.refl _, .refl _⟩ hd.meets.isSome_symbol fun _ => rfl⟩
  obtain ⟨hclash, ls, p, q, hls, hpq, -⟩ := hi.exists_isIso h hrules hrule hsame hr hl
  rw [hiso.hasClash_iff] at hclash
  obtain ⟨after', hi'⟩ := exists_interacts hother hrules hrule hsame' hr' hl' hclash
  obtain ⟨-, ls', p', q', hls', hpq', -⟩ := hi'.exists_isIso hother hrules hrule hsame' hr' hl'
  have hafter : (after.diagram ls).Isomorphic (after'.diagram ls') :=
    (Diagram.Isomorphic.symm ⟨p, q, hpq⟩).trans (hiso.trans ⟨p', q', hpq'⟩)
  exact ⟨after', hi', hi.wellFormed.isomorphic_of_diagram hi'.wellFormed hls hls' hafter⟩

section Exchange

variable (h : net.WellFormed) (hrules : rules.Lawful)

include h hrules

/-- The diagram after an interaction can be rewritten at another pair as the diagram of the net
afterwards. -/
private theorem Interacts.exists_rewrite_isomorphic (hi : net.Interacts rules agents after)
    {roles roles' : Side → AgentId} (hrule : rules.Contains rule) (hsame : SamePair agents roles)
    (hr : net.IsRedex rule roles) (hl : net.IsLabelling labels) (hm : net.Meets roles')
    (hapart : ∀ side side', roles side ≠ roles' side') (T : Diagram Slot AgentId) :
    ∃ labels', after.IsLabelling labels' ∧
      ((net.rewritten rule roles labels).rewrite (.inl ∘ roles') T).Isomorphic
        ((after.diagram labels').rewrite roles' T) := by
  obtain ⟨-, labels', f, g, hl', hfg, hf⟩ := hi.exists_isIso h hrules hrule hsame hr hl
  have hd : (net.diagram labels).Meets roles' := diagram_meets_iff.2 hm
  have hmeets := hd.rewrite hapart (hm.ne h) rule.template
  exact ⟨labels', hl', _, _, hfg.rewrite ⟨.refl _, .refl _⟩ hmeets.isSome_symbol
    fun side => hf (roles' side)⟩

variable (hapart : ∀ side side', agents side ≠ agents' side')

include hapart

/-- Other agents that meet still meet after an interaction, and the same rules are for them. -/
theorem Interacts.meets_and_isRedex_iff (hi : net.Interacts rules agents after)
    (hm : net.Meets agents') :
    after.Meets agents' ∧ ∀ rule, after.IsRedex rule agents' ↔ net.IsRedex rule agents' := by
  obtain ⟨rule, roles, hrule, hsame, hr⟩ := hi.exists_rule
  have hl := net.isLabelling_zipIdx
  obtain ⟨-, labels', f, g, hl', hfg, hf⟩ := hi.exists_isIso h hrules hrule hsame hr hl
  have hroles := hsame.apart (.refl agents') hapart
  have hd : (net.diagram net.interface.zipIdx).Meets agents' := diagram_meets_iff.2 hm
  have hrewritten := hd.rewrite hroles (hm.ne h) rule.template
  have hagents : f ∘ (.inl ∘ agents' : Side → AgentId ⊕ AgentId) = agents' :=
    funext fun side => hf (agents' side)
  constructor
  · rw [← diagram_meets_iff, ← hagents]
    exact hfg.forward.meets hrewritten
  · intro rule'
    have hafter : (after.diagram labels').IsRedex rule' agents' ↔
        (net.diagram net.interface.zipIdx).IsRedex rule' agents' := by
      rw [← Diagram.isRedex_rewrite_iff hroles hd (hm.ne h), hfg.isRedex_iff hrewritten, hagents]
    exact diagram_isRedex_iff.symm.trans (hafter.trans diagram_isRedex_iff)

/-- **Interactions of different pairs can be exchanged.** Agents that interact after others, but met
before, could have interacted first. -/
theorem Interacts.exchange {last : Net} (hfirst : net.Interacts rules agents after)
    (hm : net.Meets agents') (hsecond : after.Interacts rules agents' last) :
    ∃ after' last', net.Interacts rules agents' after' ∧ after'.Interacts rules agents last' ∧
      last.Isomorphic last' := by
  obtain ⟨rule, roles, hrule, hsame, hr⟩ := hfirst.exists_rule
  obtain ⟨rule', roles', hrule', hsame', hr'⟩ := hsecond.exists_rule
  have hroles := hsame.apart hsame' hapart
  have hagents : ∀ side side', agents side ≠ roles' side' := (SamePair.refl _).apart hsame' hapart
  have hm' : net.Meets roles' := hm.samePair hsame'
  have hnet' : net.IsRedex rule' roles' :=
    ((hfirst.meets_and_isRedex_iff h hrules hagents hm').2 rule').1 hr'
  -- after both interactions, the diagram is that of the net rewritten at both redexes
  have hl := net.isLabelling_zipIdx
  obtain ⟨l₁, hl₁, htwice⟩ := hfirst.exists_rewrite_isomorphic h hrules hrule hsame hr hl hm' hroles
    rule'.template
  obtain ⟨hclash, l₂, p, q, hl₂, hpq, -⟩ :=
    hsecond.exists_isIso hfirst.wellFormed hrules hrule' hsame' hr' hl₁
  have hexchange := htwice.symm.trans (Diagram.rewrite_rewrite hroles)
  rw [hexchange.hasClash_iff] at hclash
  -- so the second redex can be rewritten first, and then the first one
  obtain ⟨after', hi'⟩ := exists_interacts h hrules hrule' hsame' hnet' hl
    fun hfree => hclash (hfree.rewrite _ _)
  have hback : ∀ side side', roles' side ≠ roles side' := fun side side' => (hroles side' side).symm
  have hagents' : ∀ side side', agents' side ≠ roles side' := hsame'.symm.apart (.refl roles) hback
  obtain ⟨l₃, hl₃, htwice'⟩ :=
    hi'.exists_rewrite_isomorphic h hrules hrule' hsame' hnet' hl hr.joined hback rule.template
  rw [htwice'.hasClash_iff] at hclash
  have hafter' : after'.IsRedex rule roles :=
    ((hi'.meets_and_isRedex_iff h hrules hagents' hr.joined).2 rule).2 hr
  obtain ⟨last', hlast'⟩ := exists_interacts hi'.wellFormed hrules hrule hsame hafter' hl₃ hclash
  obtain ⟨-, l₄, p', q', hl₄, hpq', -⟩ :=
    hlast'.exists_isIso hi'.wellFormed hrules hrule hsame hafter' hl₃
  have hlast : (last.diagram l₂).Isomorphic (last'.diagram l₄) :=
    (Diagram.Isomorphic.symm ⟨p, q, hpq⟩).trans
      (hexchange.trans (htwice'.trans ⟨p', q', hpq'⟩))
  exact ⟨after', last', hi', hlast',
    hsecond.wellFormed.isomorphic_of_diagram hlast'.wellFormed hl₂ hl₄ hlast⟩

end Exchange

end Net

end InteractionNets
