import Mathlib.Data.Finset.Card
import Mathlib.Data.Finset.Dedup
import NodeFormula.Proofs.Graph.Edited
/-!
# NodeFormula — the outcome of an output socket

`Graph.Yields` says what an output comes to for given inputs of the graph, without a
bound, a memo or an order of evaluation: an output of the entry hands in an input, and
any other output is what its node computes from the outcomes of its arguments. In a
well-formed graph every output has exactly one outcome (`exists_yields`,
`Yields.unique`): the links run in no cycle, so the nodes can be ranked
(`exists_rank`). An outcome depends on the nodes behind the output alone
(`Yields.congr`), and not on how the outputs are numbered (`Yields.renumbered`).
-/

namespace NodeFormula

open Relation

/-- What an evaluation comes to. -/
abbrev Outcome := Except GraphError Value

namespace Graph

/-- What the inputs of a node receive, given the outcomes of the sockets linked there. -/
def arguments (g : Graph) (n : NodeId) (sockets : List Socket) (sources : Nat → Outcome) :
    List Outcome :=
  sockets.mapIdx fun index s =>
    match g.incoming? ⟨n, index⟩ with
    | some _ => (sources index).map (·.convert s.type)
    | none => .ok s.default

/-- **The outcome of an output socket.** -/
inductive Yields (g : Graph) (inputs : String → Option Value) : OutputRef → Outcome → Prop
  /-- The entry hands in an input of the graph. -/
  | given {index : Nat} {s : Socket} {v : Value} :
      g.outputSocket ⟨entry, index⟩ = .ok s → inputs s.name = some v →
      Yields g inputs ⟨entry, index⟩ (.ok (v.convert s.type))
  /-- An input of the graph that has no value. -/
  | missing {index : Nat} {s : Socket} :
      g.outputSocket ⟨entry, index⟩ = .ok s → inputs s.name = none →
      Yields g inputs ⟨entry, index⟩ (.error (.missingInput s.name))
  /-- A node computes its outputs from its arguments; the first argument without a
  value decides what goes wrong. -/
  | computed {o : OutputRef} {node : Node} (sources : Nat → Outcome) :
      o.node ≠ entry → g.node? o.node = some node →
      (∀ index l, g.incoming? ⟨o.node, index⟩ = some l → Yields g inputs l.source (sources index)) →
      Yields g inputs o (((g.arguments o.node node.inputs sources).mapM id).map fun args =>
        (node.kind.evaluate args).getD o.index (.float 0))

/-- The outcome at an input socket. -/
def YieldsAt (g : Graph) (inputs : String → Option Value) (i : InputRef) (r : Outcome) : Prop :=
  ∃ s, g.inputSocket i = .ok s ∧
    match g.incoming? i with
    | some l => ∃ r', g.Yields inputs l.source r' ∧ r = r'.map (·.convert s.type)
    | none => r = .ok s.default

variable {g : Graph} {inputs : String → Option Value} {o : OutputRef} {r r' : Outcome}

theorem arguments_congr {n : NodeId} {sockets : List Socket} {a b : Nat → Outcome}
    (h : ∀ index l, g.incoming? ⟨n, index⟩ = some l → a index = b index) :
    g.arguments n sockets a = g.arguments n sockets b := by
  refine List.ext_getElem? fun index => ?_
  simp only [arguments, List.getElem?_mapIdx]
  cases hl : g.incoming? ⟨n, index⟩ with
  | none => rfl
  | some l => simp only [h index l hl]

/-- **An output has one outcome.** -/
theorem Yields.unique (h : g.Yields inputs o r) (h' : g.Yields inputs o r') : r = r' := by
  induction h generalizing r' with
  | given hs hv =>
    cases h' with
    | given hs' hv' =>
      rw [hs] at hs'; cases hs'
      rw [hv] at hv'; cases hv'
      rfl
    | missing hs' hv' =>
      rw [hs] at hs'; cases hs'
      rw [hv] at hv'; cases hv'
    | computed _ hne => exact absurd rfl hne
  | missing hs hv =>
    cases h' with
    | given hs' hv' =>
      rw [hs] at hs'; cases hs'
      rw [hv] at hv'; cases hv'
    | missing hs' hv' =>
      rw [hs] at hs'; cases hs'
      rfl
    | computed _ hne => exact absurd rfl hne
  | computed sources hne hnode _ ih =>
    cases h' with
    | given => exact absurd rfl hne
    | missing => exact absurd rfl hne
    | computed sources' _ hnode' hsources' =>
      rw [hnode] at hnode'; cases hnode'
      rw [arguments_congr fun index l hl => ih index l hl (hsources' index l hl)]

/-! ## No path is longer than the number of nodes -/

/-- The nodes with a path to a node. -/
noncomputable def upstream (g : Graph) (n : NodeId) : Finset NodeId :=
  open Classical in (g.nodes.map Node.id).toFinset.filter fun m => TransGen g.Linked m n

theorem mem_upstream {m n : NodeId} :
    m ∈ g.upstream n ↔ m ∈ g.nodes.map Node.id ∧ TransGen g.Linked m n := by
  simp [upstream]

theorem mem_ids_of_hasNode {n : NodeId} (h : g.hasNode n) : n ∈ g.nodes.map Node.id := by
  obtain ⟨node, hnode⟩ := hasNode_iff.1 h
  obtain ⟨hmem, rfl⟩ := mem_of_node? hnode
  exact List.mem_map_of_mem hmem

/-- **The nodes of a well-formed graph can be ranked**, below their number and upwards
along every link. -/
theorem WellFormed.exists_rank (hg : g.WellFormed) :
    ∃ rank : NodeId → Nat, (∀ m n, g.Linked m n → rank m < rank n) ∧
      ∀ n, g.hasNode n → rank n < g.nodes.length := by
  refine ⟨fun n => (g.upstream n).card, fun m n hmn => ?_, fun n hn => ?_⟩
  · refine Finset.card_lt_card (Finset.ssubset_iff_subset_ne.2 ⟨fun x hx => ?_, fun heq => ?_⟩)
    · obtain ⟨hid, hpath⟩ := mem_upstream.1 hx
      exact mem_upstream.2 ⟨hid, hpath.tail hmn⟩
    · obtain ⟨l, hl, rfl, rfl⟩ := hmn
      have hmem : l.source.node ∈ g.upstream l.target.node :=
        mem_upstream.2 ⟨mem_ids_of_hasNode (hg.hasNode_source hl), TransGen.single ⟨l, hl, rfl, rfl⟩⟩
      rw [← heq] at hmem
      exact hg.acyclic _ (mem_upstream.1 hmem).2
  · have hsub : g.upstream n ⊂ (g.nodes.map Node.id).toFinset := by
      refine Finset.ssubset_iff_subset_ne.2 ⟨fun x hx => ?_, fun heq => ?_⟩
      · exact List.mem_toFinset.2 (mem_upstream.1 hx).1
      · have hmem : n ∈ g.upstream n := by
          rw [heq]
          exact List.mem_toFinset.2 (mem_ids_of_hasNode hn)
        exact hg.acyclic n (mem_upstream.1 hmem).2
    calc (g.upstream n).card < (g.nodes.map Node.id).toFinset.card := Finset.card_lt_card hsub
      _ ≤ (g.nodes.map Node.id).length := List.toFinset_card_le _
      _ = g.nodes.length := List.length_map _

/-- **Every output of a well-formed graph has an outcome.** -/
theorem WellFormed.exists_yields (hg : g.WellFormed) (inputs : String → Option Value)
    (h : ∃ s, g.outputSocket o = .ok s) : ∃ r, g.Yields inputs o r := by
  obtain ⟨rank, hrank, -⟩ := hg.exists_rank
  induction hk : rank o.node using Nat.strong_induction_on generalizing o with
  | h k ih =>
    obtain ⟨s, hs⟩ := h
    obtain ⟨node, hnode, -⟩ := outputSocket_eq_ok.1 hs
    by_cases hentry : o.node = entry
    · obtain ⟨n, index⟩ := o
      subst hentry
      cases hv : inputs s.name with
      | none => exact ⟨_, Yields.missing hs hv⟩
      | some v => exact ⟨_, Yields.given hs hv⟩
    · have hsource : ∀ index, ∃ r, ∀ l, g.incoming? ⟨o.node, index⟩ = some l →
          g.Yields inputs l.source r := by
        intro index
        cases hl : g.incoming? ⟨o.node, index⟩ with
        | none => exact ⟨.ok (.float 0), fun l h => by cases h⟩
        | some l =>
          obtain ⟨hmem, htarget⟩ := hg.incoming?_eq_some.1 hl
          have hlt : rank l.source.node < k := by
            rw [← hk]
            exact hrank _ _ ⟨l, hmem, rfl, by rw [htarget]⟩
          obtain ⟨r, hr⟩ := ih _ hlt (hg.sources l hmem) rfl
          exact ⟨r, fun l' h => by cases h; exact hr⟩
      choose sources hsources using hsource
      exact ⟨_, Yields.computed sources hentry hnode hsources⟩

/-- **Every input of a well-formed graph has an outcome.** -/
theorem WellFormed.exists_yieldsAt (hg : g.WellFormed) (inputs : String → Option Value)
    {i : InputRef} {s : Socket} (hs : g.inputSocket i = .ok s) :
    ∃ r, g.YieldsAt inputs i r := by
  cases hl : g.incoming? i with
  | none => exact ⟨.ok s.default, s, hs, by rw [hl]⟩
  | some l =>
    obtain ⟨r, hr⟩ := hg.exists_yields inputs (hg.sources l (hg.incoming?_eq_some.1 hl).1)
    refine ⟨r.map (·.convert s.type), s, hs, ?_⟩
    rw [hl]
    exact ⟨r, hr, rfl⟩

/-! ## Outputs in another place -/

theorem outputSocket_entry {index : Nat} {s : Socket} (hentry : g.hasNode entry) :
    g.outputSocket ⟨entry, index⟩ = .ok s ↔ g.inputSockets[index]? = some s := by
  obtain ⟨node, hnode⟩ := hasNode_iff.1 hentry
  rw [outputSocket_eq_ok, inputSockets, hnode]
  simp

/-- Another graph has the outputs of a set, each at a place of its own: those of the entry are the
same sockets, and the other nodes are the same in kind, constants and what is linked into
them. The set holds what is linked into its nodes. -/
structure Renumbers (g g' : Graph) (place : OutputRef → OutputRef) (S : OutputRef → Prop) :
    Prop where
  closed : ∀ o index l, S o → o.node ≠ entry → g.incoming? ⟨o.node, index⟩ = some l → S l.source
  given : ∀ index s, S ⟨entry, index⟩ → g.outputSocket ⟨entry, index⟩ = .ok s →
    ∃ index', place ⟨entry, index⟩ = ⟨entry, index'⟩ ∧ g'.outputSocket ⟨entry, index'⟩ = .ok s
  nodes : ∀ o node, S o → o.node ≠ entry → g.node? o.node = some node → place o = o ∧
    ∃ node', g'.node? o.node = some node' ∧ node'.kind = node.kind ∧ node'.inputs = node.inputs
  links : ∀ o index, S o → o.node ≠ entry → (g'.incoming? ⟨o.node, index⟩).map Link.source =
    (g.incoming? ⟨o.node, index⟩).map fun l => place l.source

/-- **An outcome stays what it is** when outputs are numbered anew. -/
theorem Yields.renumbered {g' : Graph} {place : OutputRef → OutputRef} {S : OutputRef → Prop}
    (hplace : g.Renumbers g' place S) (hS : S o) (h : g.Yields inputs o r) :
    g'.Yields inputs (place o) r := by
  induction h with
  | given hs hv =>
    obtain ⟨index', hindex, hs'⟩ := hplace.given _ _ hS hs
    exact hindex ▸ Yields.given hs' hv
  | missing hs hv =>
    obtain ⟨index', hindex, hs'⟩ := hplace.given _ _ hS hs
    exact hindex ▸ Yields.missing hs' hv
  | @computed o node sources hne hnode _ ih =>
    obtain ⟨hsame, node', hnode', hkind, hinputs⟩ := hplace.nodes o node hS hne hnode
    have hlinks := fun index => hplace.links o index hS hne
    have hargs : g.arguments o.node node.inputs sources
        = g'.arguments o.node node'.inputs sources := by
      rw [hinputs]
      refine List.ext_getElem? fun index => ?_
      simp only [arguments, List.getElem?_mapIdx]
      have hlink := hlinks index
      cases hl : g.incoming? ⟨o.node, index⟩ <;> cases hl' : g'.incoming? ⟨o.node, index⟩ <;>
        simp [hl, hl'] at hlink ⊢
    rw [hargs, ← hkind, hsame]
    refine Yields.computed sources hne hnode' fun index l' hl' => ?_
    have hlink := hlinks index
    rw [hl', Option.map_some] at hlink
    obtain ⟨l, hl, hsource⟩ := Option.map_eq_some_iff.1 hlink.symm
    rw [← hsource]
    exact ih index l hl (hplace.closed o index l hS hne hl)

/-- What arrives at an input, which may be in another place, too. -/
theorem YieldsAt.renumbered {g' : Graph} {place : OutputRef → OutputRef} {S : OutputRef → Prop}
    {i i' : InputRef} (hplace : g.Renumbers g' place S)
    (hsocket : ∀ s, g.inputSocket i = .ok s → g'.inputSocket i' = .ok s)
    (hlink : (g'.incoming? i').map Link.source = (g.incoming? i).map fun l => place l.source)
    (hS : ∀ l, g.incoming? i = some l → S l.source) (h : g.YieldsAt inputs i r) :
    g'.YieldsAt inputs i' r := by
  obtain ⟨s, hs, hvalue⟩ := h
  refine ⟨s, hsocket s hs, ?_⟩
  cases hl : g.incoming? i with
  | none =>
    rw [hl, Option.map_none, Option.map_eq_none_iff] at hlink
    rw [hl] at hvalue
    rw [hlink]
    exact hvalue
  | some l =>
    rw [hl, Option.map_some] at hlink
    rw [hl] at hvalue
    obtain ⟨l', hl', hsource⟩ := Option.map_eq_some_iff.1 hlink
    obtain ⟨r', hr', rfl⟩ := hvalue
    rw [hl']
    refine ⟨r', ?_, rfl⟩
    rw [hsource]
    exact hr'.renumbered hplace (hS l hl)

/-! ## Graphs that agree on what an output depends on -/

/-- Two graphs have the same interface, and agree on the nodes of a set: their kind, the
constants they hold and what is linked into them. The set holds what is linked into
its nodes. -/
structure AgreeOn (g g' : Graph) (S : NodeId → Prop) : Prop where
  closed : ∀ n index l, S n → g.incoming? ⟨n, index⟩ = some l → S l.source.node
  given : g'.inputSockets = g.inputSockets
  nodes : ∀ n node, S n → n ≠ entry → g.node? n = some node →
    ∃ node', g'.node? n = some node' ∧ node'.kind = node.kind ∧ node'.inputs = node.inputs
  links : ∀ n index, S n →
    (g'.incoming? ⟨n, index⟩).map Link.source = (g.incoming? ⟨n, index⟩).map Link.source

/-- A path to a node of the set is a path in both. -/
theorem AgreeOn.path {g' : Graph} {S : NodeId → Prop} (h : g.AgreeOn g' S) (hg : g.WellFormed)
    {m n : NodeId} (hn : S n) (hpath : ReflTransGen g.Linked m n) :
    ReflTransGen g'.Linked m n := by
  induction hpath with
  | refl => exact .refl
  | tail _ hlink ih =>
    obtain ⟨l, hl, rfl, rfl⟩ := hlink
    have hin : g.incoming? ⟨l.target.node, l.target.index⟩ = some l :=
      hg.incoming?_eq_some.2 ⟨hl, rfl⟩
    have hsame := h.links l.target.node l.target.index hn
    rw [hin, Option.map_some] at hsame
    obtain ⟨l', hl', hsource⟩ := Option.map_eq_some_iff.1 hsame
    have htarget := List.find?_some hl'
    simp only [beq_iff_eq] at htarget
    exact (ih (h.closed _ _ l hn hin)).tail
      ⟨l', List.mem_of_find?_eq_some hl', by rw [hsource], by rw [htarget]⟩

/-- **An outcome depends on the nodes behind the output alone.** -/
theorem Yields.congr {g' : Graph} {S : NodeId → Prop} (hagree : g.AgreeOn g' S)
    (hentry : g.hasNode entry) (hentry' : g'.hasNode entry) (hS : S o.node)
    (h : g.Yields inputs o r) : g'.Yields inputs o r := by
  have hplace : g.Renumbers g' id fun o => S o.node := by
    refine ⟨?_, ?_, ?_, ?_⟩
    · exact fun o index l ho _ hl => hagree.closed o.node index l ho hl
    · intro index s _ hs
      refine ⟨index, rfl, ?_⟩
      rw [outputSocket_entry hentry', hagree.given]
      exact (outputSocket_entry hentry).1 hs
    · exact fun o node ho hne hnode => ⟨rfl, hagree.nodes o.node node ho hne hnode⟩
    · exact fun o index ho _ => hagree.links o.node index ho
  exact h.renumbered hplace hS

end Graph

end NodeFormula
