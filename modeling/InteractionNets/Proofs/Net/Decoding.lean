import Mathlib.Data.List.ProdSigma
import Mathlib.Data.List.Zip
import InteractionNets.Proofs.Net.Isomorphic
import InteractionNets.Proofs.Net.Shape

/-!
# Nets with one shape

A code tells where each agent in it begins and how many ports it has. So blocks with one code have
agents that correspond one by one, with the same symbols and the same neighbours. Hence nets with
one shape are equal up to the choice of ids, and so are their boundaries
(`Net.WellFormed.exists_renames_of_withBoundary`).
-/

namespace InteractionNets

/-! ### Entries of codes -/

/-- What is written for one agent: the first token tells how many follow. -/
def Code.IsEntry (code : Code) : Prop :=
  ∃ (name : String) (ports : Code), code = .agent name ports.length :: ports

/-- A token that is written for a port of the boundary. -/
def Token.IsBoundary (token : Token) : Prop :=
  ∃ agent position, token = .boundary agent position

namespace Code

theorem IsEntry.append_inj {c d r s : Code} (hc : c.IsEntry) (hd : d.IsEntry)
    (heq : c ++ r = d ++ s) : c = d ∧ r = s := by
  obtain ⟨name, ports, rfl⟩ := hc
  obtain ⟨name', ports', rfl⟩ := hd
  rw [List.cons_append, List.cons_append] at heq
  obtain ⟨htoken, htail⟩ := List.cons.inj heq
  obtain ⟨rfl, hlength⟩ := Token.agent.inj htoken
  obtain ⟨rfl, rfl⟩ := List.append_inj htail hlength
  exact ⟨rfl, rfl⟩

/-- Equal codes are made of equal entries. -/
theorem forall₂_of_flatMap_eq {f g : AgentId → Code} {l l' : List AgentId}
    (hf : ∀ a ∈ l, (f a).IsEntry) (hg : ∀ b ∈ l', (g b).IsEntry)
    (heq : l.flatMap f = l'.flatMap g) : List.Forall₂ (fun a b => f a = g b) l l' := by
  have hne : ∀ {c r : Code}, c.IsEntry → [] ≠ c ++ r := by
    rintro _ _ ⟨name, ports, rfl⟩
    exact (List.cons_ne_nil _ _).symm
  induction l generalizing l' with
  | nil =>
    cases l' with
    | nil => exact .nil
    | cons b l' => exact absurd heq (hne (hg b List.mem_cons_self))
  | cons a l ih =>
    cases l' with
    | nil => exact absurd heq.symm (hne (hf a List.mem_cons_self))
    | cons b l' =>
      rw [List.flatMap_cons, List.flatMap_cons] at heq
      obtain ⟨hhead, htail⟩ :=
        (hf a List.mem_cons_self).append_inj (hg b List.mem_cons_self) heq
      exact .cons hhead (ih (fun a ha => hf a (List.mem_cons_of_mem _ ha))
        (fun b hb => hg b (List.mem_cons_of_mem _ hb)) htail)

end Code

/-- The agents of corresponding blocks, in pairs. -/
def pairUp (blocks blocks' : List (List AgentId)) : List (AgentId × AgentId) :=
  (blocks.zip blocks').flatMap fun pair => pair.1.zip pair.2

theorem map_fst_pairUp {blocks blocks' : List (List AgentId)}
    (h : List.Forall₂ (fun l l' => l.length = l'.length) blocks blocks') :
    (pairUp blocks blocks').map Prod.fst = blocks.flatten := by
  induction h with
  | nil => rfl
  | @cons l l' rest rest' hlength _ ih =>
    have hhead : (l.zip l').map Prod.fst = l := List.map_fst_zip (Nat.le_of_eq hlength)
    show (l.zip l' ++ pairUp rest rest').map Prod.fst = (l :: rest).flatten
    rw [List.map_append, hhead, ih, List.flatten_cons]

/-- The other way around, the pairs are swapped. -/
theorem map_swap_pairUp (blocks blocks' : List (List AgentId)) :
    (pairUp blocks blocks').map Prod.swap = pairUp blocks' blocks := by
  rw [pairUp, pairUp, List.map_flatMap, ← List.zip_swap blocks blocks', List.flatMap_map]
  simp only [List.zip_swap, Prod.fst_swap, Prod.snd_swap]

theorem map_snd_pairUp {blocks blocks' : List (List AgentId)}
    (h : List.Forall₂ (fun l l' => l.length = l'.length) blocks blocks') :
    (pairUp blocks blocks').map Prod.snd = blocks'.flatten := by
  rw [← map_fst_pairUp (h.flip.imp fun _ _ => Eq.symm), ← map_swap_pairUp, List.map_map]
  rfl

theorem mem_zip_iff {l l' : List AgentId} {a b : AgentId} :
    (a, b) ∈ l.zip l' ↔ ∃ i : Nat, l[i]? = some a ∧ l'[i]? = some b := by
  simp only [List.mem_iff_getElem?, List.getElem?_zip_eq_some]

theorem mem_pairUp_iff {blocks blocks' : List (List AgentId)} {a a' : AgentId} :
    (a, a') ∈ pairUp blocks blocks' ↔
      ∃ l l', (l, l') ∈ blocks.zip blocks' ∧ (a, a') ∈ l.zip l' := by
  simp only [pairUp, List.mem_flatMap, Prod.exists]

theorem mem_pairUp_comm {blocks blocks' : List (List AgentId)} {a a' : AgentId} :
    (a, a') ∈ pairUp blocks blocks' ↔ (a', a) ∈ pairUp blocks' blocks := by
  rw [← map_swap_pairUp blocks blocks', List.mem_map_swap]

/-- Pairs in which no first and no second component is repeated are the graph of a bijection. -/
theorem exists_bijOn_of_nodup {pairs : List (AgentId × AgentId)}
    (hfst : (pairs.map Prod.fst).Nodup) (hsnd : (pairs.map Prod.snd).Nodup) :
    ∃ f : AgentId → AgentId, (∀ a a', (a, a') ∈ pairs ↔ a ∈ pairs.map Prod.fst ∧ f a = a') ∧
      Set.BijOn f {a | a ∈ pairs.map Prod.fst} {b | b ∈ pairs.map Prod.snd} := by
  have hf : ∀ a a', (a, a') ∈ pairs ↔
      a ∈ pairs.map Prod.fst ∧ (pairs.lookup a).getD 0 = a' := by
    intro a a'
    constructor
    · intro hmem
      rw [(lookup_eq_some_iff_mem hfst).2 hmem]
      exact ⟨List.mem_map_of_mem (f := Prod.fst) hmem, rfl⟩
    · rintro ⟨hfirst, rfl⟩
      obtain ⟨⟨_, a'⟩, hmem, rfl⟩ := List.mem_map.1 hfirst
      rwa [(lookup_eq_some_iff_mem hfst).2 hmem]
  refine ⟨fun a => (pairs.lookup a).getD 0, hf, fun a ha => ?_, fun a ha b hb heq => ?_,
    fun b hb => ?_⟩
  · exact List.mem_map_of_mem (f := Prod.snd) ((hf a _).2 ⟨ha, rfl⟩)
  · have hpair := (hf b _).2 ⟨hb, heq.symm⟩
    exact congrArg Prod.fst (List.inj_on_of_nodup_map hsnd ((hf a _).2 ⟨ha, rfl⟩) hpair rfl)
  · obtain ⟨⟨a, _⟩, hmem, rfl⟩ := List.mem_map.1 hb
    exact ⟨a, (hf _ _).1 hmem⟩

namespace Net

variable {net other : Net} {boundary boundary' : List PortId} {block block' : List AgentId}

theorem isEntry_agentCode {a : AgentId} (ha : (net.agent? a).isSome) :
    (net.agentCode boundary block a).IsEntry := by
  obtain ⟨data, hdata⟩ := Option.isSome_iff_exists.1 ha
  refine ⟨data.symbol.name, data.ports.map (net.portToken boundary block), ?_⟩
  simp only [agentCode, hdata, List.length_map]

section Corresponding

variable (h : net.WellFormed) (hother : other.WellFormed)

include h hother

/-- Agents with one code have one symbol, and the same is written for their ports. -/
private theorem symbol_eq_of_agentCode {a b : AgentId} {data data' : Agent}
    (ha : net.agent? a = some data) (hb : other.agent? b = some data')
    (hcode : net.agentCode boundary block a = other.agentCode boundary' block' b) :
    data'.symbol = data.symbol ∧ data.ports.map (net.portToken boundary block) =
      data'.ports.map (other.portToken boundary' block') := by
  simp only [agentCode, ha, hb, List.cons.injEq, Token.agent.injEq] at hcode
  obtain ⟨⟨hname, hlength⟩, hports⟩ := hcode
  have harity : data'.symbol.arity = data.symbol.arity := by
    rw [← h.arity ha, ← hother.arity hb, hlength]
  refine ⟨?_, hports⟩
  rcases hsymbol : data.symbol with ⟨name, arity⟩
  rcases hsymbol' : data'.symbol with ⟨name', arity'⟩
  rw [hsymbol, hsymbol'] at hname harity
  obtain rfl : name = name' := hname
  obtain rfl : arity' = arity := harity
  rfl

/-- What a port is joined to is written down, so corresponding ports are joined to corresponding
ports. -/
private theorem exists_joined_of_code
    (hcode : List.Forall₂ (fun a b =>
      net.agentCode boundary block a = other.agentCode boundary' block' b) block block')
    (hclosed : ∀ a ∈ block, ∀ b, net.Linked a b → b ∈ block)
    (hclosed' : ∀ a ∈ block', ∀ b, other.Linked a b → b ∈ block') {a a' : AgentId}
    (ha : (a, a') ∈ block.zip block') {j : Nat} {p p' q : PortId}
    (hp : (net.portsOf a)[j]? = some p) (hp' : (other.portsOf a')[j]? = some p')
    (hpq : net.Joined p q) {b : AgentId} {k : Nat} (hq : (net.portsOf b)[k]? = some q) :
    ∃ b' q', (b, b') ∈ block.zip block' ∧ (other.portsOf b')[k]? = some q' ∧
      other.Joined p' q' := by
  obtain ⟨data, hdata⟩ := Option.isSome_iff_exists.1 (isSome_agent?_of_getElem? hp)
  obtain ⟨data', hdata'⟩ := Option.isSome_iff_exists.1 (isSome_agent?_of_getElem? hp')
  have hports := (symbol_eq_of_agentCode h hother hdata hdata' (List.forall₂_zip hcode ha)).2
  have htoken : net.portToken boundary block p = other.portToken boundary' block' p' := by
    have hj := congrArg (fun tokens : Code => tokens[j]?) hports
    rw [portsOf_eq hdata] at hp
    rw [portsOf_eq hdata'] at hp'
    simpa only [List.getElem?_map, hp, hp', Option.map_some, Option.some.injEq] using hj
  -- the token names a peer, so there is one on the other side
  rw [portToken, h.peerPort?_eq hpq hq, portToken] at htoken
  cases hpeer : other.peerPort? p' with
  | none =>
    rw [hpeer] at htoken
    cases hindex : boundaryIndex? boundary' p' <;> simp [hindex] at htoken
  | some peer =>
    rw [hpeer] at htoken
    obtain ⟨hindex, hposition⟩ := Token.peer.inj htoken
    obtain ⟨q', hpq', hq'⟩ := hother.joined_of_peerPort? hpeer
    obtain ⟨hmem, hmem'⟩ := List.of_mem_zip ha
    have hb : b ∈ block := hclosed a hmem b
      ⟨p, List.mem_of_getElem? hp, q, List.mem_of_getElem? hq, hpq⟩
    have hb' : peer.agent ∈ block' := hclosed' a' hmem' peer.agent
      (hother.linked_of_peerPort? (List.mem_of_getElem? hp') hpeer)
    refine ⟨peer.agent, q', mem_zip_iff.2 ⟨block.idxOf b, List.getElem?_idxOf hb, ?_⟩, ?_, hpq'⟩
    · have hplace : block.idxOf b = block'.idxOf peer.agent := hindex
      rw [hplace]
      exact List.getElem?_idxOf hb'
    · have hplace : k = peer.position := hposition
      rwa [hplace]

section Divisions

variable {blocks blocks' : List (List AgentId)} (hblocks : net.IsDivision blocks)
  (hblocks' : other.IsDivision blocks')
  (hcodes : List.Forall₂ (fun l l' => net.blockCode boundary l = other.blockCode boundary' l')
    blocks blocks')

include hblocks hblocks' hcodes

omit h hother in
/-- In blocks with one code, corresponding agents have one code. -/
private theorem forall₂_agentCode {l l' : List AgentId} (hmem : (l, l') ∈ blocks.zip blocks') :
    List.Forall₂ (fun a b => net.agentCode boundary l a = other.agentCode boundary' l' b)
      l l' := by
  obtain ⟨hl, hl'⟩ := List.of_mem_zip hmem
  refine Code.forall₂_of_flatMap_eq (fun a ha => ?_) (fun a ha => ?_)
    (List.forall₂_zip hcodes hmem)
  · exact isEntry_agentCode ((hblocks.mem_iff a).1 (List.mem_flatten.2 ⟨l, hl, ha⟩))
  · exact isEntry_agentCode ((hblocks'.mem_iff a).1 (List.mem_flatten.2 ⟨l', hl', ha⟩))

omit h hother in
/-- The pairs of corresponding agents are the graph of a bijection between the agents of the
nets. -/
private theorem exists_bijOn_of_divisions :
    ∃ f : AgentId → AgentId,
      (∀ a a', (a, a') ∈ pairUp blocks blocks' ↔ (net.agent? a).isSome ∧ f a = a') ∧
      Set.BijOn f {a | (net.agent? a).isSome} {b | (other.agent? b).isSome} := by
  have hlengths : List.Forall₂ (fun l l' => l.length = l'.length) blocks blocks' :=
    List.forall₂_iff_zip.2 ⟨hcodes.length_eq,
      fun hmem => (forall₂_agentCode hblocks hblocks' hcodes hmem).length_eq⟩
  have hpairs := @exists_bijOn_of_nodup (pairUp blocks blocks')
  simp only [map_fst_pairUp hlengths, map_snd_pairUp hlengths, hblocks.mem_iff,
    hblocks'.mem_iff] at hpairs
  exact hpairs hblocks.nodup hblocks'.nodup

/-- Corresponding ports of corresponding agents are joined alike. -/
private theorem joined_of_mem_pairUp {a a' b b' : AgentId} {j k : Nat} {p p' q q' : PortId}
    (ha : (a, a') ∈ pairUp blocks blocks') (hb : (b, b') ∈ pairUp blocks blocks')
    (hp : (net.portsOf a)[j]? = some p) (hp' : (other.portsOf a')[j]? = some p')
    (hq : (net.portsOf b)[k]? = some q) (hq' : (other.portsOf b')[k]? = some q')
    (hpq : net.Joined p q) : other.Joined p' q' := by
  obtain ⟨l, l', hmem, hal⟩ := mem_pairUp_iff.1 ha
  obtain ⟨hl, hl'⟩ := List.of_mem_zip hmem
  obtain ⟨b₁, q₁, hb₁, hq₁, hjoined⟩ := exists_joined_of_code h hother
    (forall₂_agentCode hblocks hblocks' hcodes hmem) (hblocks.closed l hl)
    (hblocks'.closed l' hl') hal hp hp' hpq hq
  -- an agent corresponds to one agent only
  obtain ⟨f, hf, -⟩ := exists_bijOn_of_divisions hblocks hblocks' hcodes
  obtain ⟨-, rfl⟩ := (hf b b₁).1 (mem_pairUp_iff.2 ⟨l, l', hmem, hb₁⟩)
  obtain ⟨-, rfl⟩ := (hf b b').1 hb
  rwa [Option.some.inj (hq'.symm.trans hq₁)]

/-- **Blocks with one code correspond.** When the agents of two nets are divided into blocks with
the same codes, the nets are equal up to the choice of ids. -/
theorem exists_renames_of_divisions :
    ∃ f, net.Renames other f ∧ ∀ a a', (a, a') ∈ pairUp blocks blocks' → f a = a' := by
  obtain ⟨f, hf, hbij⟩ := exists_bijOn_of_divisions hblocks hblocks' hcodes
  have hpair : ∀ {a}, (net.agent? a).isSome → (a, f a) ∈ pairUp blocks blocks' :=
    fun ha => (hf _ _).2 ⟨ha, rfl⟩
  refine ⟨f, ⟨hbij, fun {a data} ha => ?_, ?_⟩, fun a a' hmem => ((hf a a').1 hmem).2⟩
  · have hlive : (net.agent? a).isSome := by rw [ha]; rfl
    obtain ⟨data', hdata'⟩ := Option.isSome_iff_exists.1 (hbij.mapsTo hlive)
    obtain ⟨l, l', hmem, hal⟩ := mem_pairUp_iff.1 (hpair hlive)
    have hcode := List.forall₂_zip (forall₂_agentCode hblocks hblocks' hcodes hmem) hal
    exact ⟨data', hdata', (symbol_eq_of_agentCode h hother ha hdata' hcode).1⟩
  · rintro p q p' q' ⟨a, j, hp, hp'⟩ ⟨b, k, hq, hq'⟩
    have ha := hpair (isSome_agent?_of_getElem? hp)
    have hb := hpair (isSome_agent?_of_getElem? hq)
    constructor
    · exact joined_of_mem_pairUp h hother hblocks hblocks' hcodes ha hb hp hp' hq hq'
    · exact joined_of_mem_pairUp hother h hblocks' hblocks (.flip (hcodes.imp fun _ _ => Eq.symm))
        (mem_pairUp_comm.1 ha) (mem_pairUp_comm.1 hb) hp' hp hq' hq

end Divisions

omit h hother in
/-- What is written for the boundary ends where the first agent is written down. -/
private theorem append_inj_of_boundary {l l' r r' : Code} (hl : ∀ t ∈ l, t.IsBoundary)
    (hl' : ∀ t ∈ l', t.IsBoundary) (hr : ∀ t ∈ r.head?, ¬ t.IsBoundary)
    (hr' : ∀ t ∈ r'.head?, ¬ t.IsBoundary) (heq : l ++ r = l' ++ r') : l = l' ∧ r = r' := by
  induction l generalizing l' with
  | nil =>
    cases l' with
    | nil => exact ⟨rfl, heq⟩
    | cons t l' =>
      obtain rfl : r = t :: (l' ++ r') := heq
      exact absurd (hl' t List.mem_cons_self) (hr t rfl)
  | cons t l ih =>
    cases l' with
    | nil =>
      obtain rfl : t :: (l ++ r) = r' := heq
      exact absurd (hl t List.mem_cons_self) (hr' t rfl)
    | cons t' l' =>
      obtain ⟨rfl, htail⟩ := List.cons.inj heq
      obtain ⟨rfl, rfl⟩ := ih (fun t ht => hl t (List.mem_cons_of_mem _ ht))
        (fun t ht => hl' t (List.mem_cons_of_mem _ ht)) htail
      exact ⟨rfl, rfl⟩

omit h hother in
private theorem isBoundary_boundaryToken (hboundary : ∀ p ∈ boundary, (net.port? p).isSome) :
    ∀ t ∈ boundary.map (net.boundaryToken block), t.IsBoundary := by
  intro t ht
  obtain ⟨p, hp, rfl⟩ := List.mem_map.1 ht
  obtain ⟨data, hdata⟩ := Option.isSome_iff_exists.1 (hboundary p hp)
  exact ⟨block.idxOf data.agent, data.position, by simp only [boundaryToken, hdata]⟩

omit h hother in
private theorem not_isBoundary_head (hlive : ∀ a ∈ block, (net.agent? a).isSome) :
    ∀ t ∈ (net.blockCode boundary block).head?, ¬ t.IsBoundary := by
  cases block with
  | nil => simp [blockCode]
  | cons a rest =>
    have hentry : (net.agentCode boundary (a :: rest) a).IsEntry :=
      isEntry_agentCode (hlive a List.mem_cons_self)
    obtain ⟨name, ports, hcode⟩ := hentry
    rw [blockCode, List.flatMap_cons, hcode]
    rintro _ ⟨⟩ ⟨n, k, hboundary⟩
    cases hboundary

/-- **Nets with one shape are isomorphic**, by a map between their agents that takes one boundary
to the other. -/
theorem WellFormed.exists_renames_of_withBoundary
    (hboundary : ∀ p ∈ boundary, (net.port? p).isSome)
    (hboundary' : ∀ p ∈ boundary', (other.port? p).isSome)
    (hshape : Shape.withBoundary net boundary = Shape.withBoundary other boundary') :
    ∃ f, net.Renames other f ∧ List.Forall₂ (net.SamePlace other f) boundary boundary' := by
  obtain ⟨anchored, blocks, hspec, hdivision, hanchored⟩ := h.withBoundary_spec hboundary
  obtain ⟨anchored', blocks', hspec', hdivision', hanchored'⟩ :=
    hother.withBoundary_spec hboundary'
  rw [hspec, hspec'] at hshape
  obtain ⟨htokens, hclosed⟩ := Shape.mk.inj hshape
  obtain ⟨hboundaryTokens, hcode⟩ := append_inj_of_boundary
    (isBoundary_boundaryToken hboundary) (isBoundary_boundaryToken hboundary')
    (not_isBoundary_head fun a ha => (hdivision.mem_iff a).1 (List.mem_append_left _ ha))
    (not_isBoundary_head fun a ha => (hdivision'.mem_iff a).1 (List.mem_append_left _ ha)) htokens
  -- the sorted codes are equal, so the blocks correspond in some order
  have hperm : (blocks.map (net.blockCode boundary)).Perm
      (blocks'.map (other.blockCode boundary')) := by
    have hsorted := List.mergeSort_perm (blocks.map (net.blockCode boundary)) Code.le
    rw [hclosed] at hsorted
    exact hsorted.symm.trans (List.mergeSort_perm _ _)
  have hself : List.Forall₂ (fun code l => code = other.blockCode boundary' l)
      (blocks'.map (other.blockCode boundary')) blocks' :=
    List.forall₂_map_left_iff.2 (List.forall₂_same.2 fun _ _ => rfl)
  obtain ⟨ordered, hcodes, hordered⟩ := List.perm_comp_forall₂ hperm hself
  rw [List.forall₂_map_left_iff] at hcodes
  obtain ⟨f, hf, hpairs⟩ := exists_renames_of_divisions h hother hdivision
    (hdivision'.perm (hordered.symm.cons anchored')) (.cons hcode hcodes)
  have hsame : List.Forall₂ (fun p p' =>
      net.boundaryToken anchored p = other.boundaryToken anchored' p') boundary boundary' := by
    rw [← List.forall₂_map_right_iff, ← List.forall₂_map_left_iff, hboundaryTokens]
    exact List.forall₂_same.2 fun _ _ => rfl
  refine ⟨f, hf, List.forall₂_iff_zip.2 ⟨hsame.length_eq, fun {p p'} hmem => ?_⟩⟩
  obtain ⟨hp, hp'⟩ := List.of_mem_zip hmem
  obtain ⟨data, hdata⟩ := Option.isSome_iff_exists.1 (hboundary p hp)
  obtain ⟨data', hdata'⟩ := Option.isSome_iff_exists.1 (hboundary' p' hp')
  have htoken := List.forall₂_zip hsame hmem
  simp only [boundaryToken, hdata, hdata', Token.boundary.injEq] at htoken
  obtain ⟨hindex, hposition⟩ := htoken
  have hagent : (data.agent, data'.agent) ∈ anchored.zip anchored' := by
    refine mem_zip_iff.2 ⟨anchored.idxOf data.agent,
      List.getElem?_idxOf (hanchored p hp data hdata), ?_⟩
    rw [hindex]
    exact List.getElem?_idxOf (hanchored' p' hp' data' hdata')
  have hf' : f data.agent = data'.agent := hpairs _ _ (List.mem_append_left _ hagent)
  refine ⟨data.agent, data.position, h.agent_of_port hdata, ?_⟩
  rw [hf', hposition]
  exact hother.agent_of_port hdata'

end Corresponding

end Net

end InteractionNets
