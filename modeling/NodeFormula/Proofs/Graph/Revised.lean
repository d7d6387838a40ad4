import NodeFormula.Proofs.Graph.Evaluation
import NodeFormula.Proofs.Pass.Frame
/-!
# NodeFormula — a graph with the constants of a later one

What a pass can do to an output it does not link is to give other constants to nodes
behind it, or to remove nodes behind it. `Graph.revisedBy` is the graph before the pass
with just that done to it, and `Follows.evaluate_eq` says that the output has the value
it has there. An output whose nodes are all as they were keeps its value
(`Follows.evaluate_of_kept`).
-/

namespace NodeFormula

open Relation

namespace Graph

variable {g g' : Graph} {free : InputRef → Prop} {n : NodeId}

/-- The nodes of a graph that a later one still has, with the constants they hold there,
and the links between them. -/
def revisedBy (g g' : Graph) : Graph :=
  { g with
    nodes := (g.nodes.filter fun node => g'.hasNode node.id).map fun node =>
      { node with inputs := ((g'.node? node.id).map Node.inputs).getD [] }
    links := g.links.filter fun l => g'.hasNode l.source.node && g'.hasNode l.target.node
    active := none }

theorem node?_revisedBy : (g.revisedBy g').node? n = (g'.node? n).bind fun node' =>
    (g.node? n).map fun node => { node with inputs := node'.inputs } := by
  rw [revisedBy, node?, node?.eq_def g]
  induction g.nodes with
  | nil => cases g'.node? n <;> rfl
  | cons node nodes ih =>
    by_cases hid : node.id = n
    · subst hid
      cases hnode' : g'.node? node.id with
      | none =>
        have hnot : g'.hasNode node.id = false := by rw [hasNode, hnode']; rfl
        simpa [List.filter_cons, hnot, hnode'] using ih
      | some node' =>
        have hhas : g'.hasNode node.id = true := by rw [hasNode, hnode']; rfl
        simp [hhas, hnode']
    · cases hhas : g'.hasNode node.id with
      | false => simpa [List.filter_cons, hhas, hid] using ih
      | true => simpa [List.filter_cons, hhas, hid] using ih

theorem mem_links_revisedBy {l : Link} : l ∈ (g.revisedBy g').links ↔
    l ∈ g.links ∧ g'.hasNode l.source.node ∧ g'.hasNode l.target.node := by
  simp [revisedBy]

/-- A node of the revised graph is the old node with its later constants. -/
theorem node?_revisedBy_eq_some {node : Node} (h : (g.revisedBy g').node? n = some node) :
    ∃ old node', g.node? n = some old ∧ g'.node? n = some node' ∧
      node = { old with inputs := node'.inputs } := by
  rw [node?_revisedBy] at h
  obtain ⟨node', hnode', h⟩ := Option.bind_eq_some_iff.1 h
  obtain ⟨old, hold, rfl⟩ := Option.map_eq_some_iff.1 h
  exact ⟨old, node', hold, hnode', rfl⟩

theorem node?_revisedBy_of_node? {old node' : Node} (hold : g.node? n = some old)
    (hnode' : g'.node? n = some node') :
    (g.revisedBy g').node? n = some { old with inputs := node'.inputs } := by
  rw [node?_revisedBy, hold, hnode']
  rfl

/-- The nodes behind an output are still there in a later graph, with the constants they
held. -/
def KeptBehind (g g' : Graph) (name : String) : Prop :=
  ∀ i type, g.output? name = some (i, type) → ∀ n node, g.Behind i n → g.node? n = some node →
    ∃ node', g'.node? n = some node' ∧ node'.inputs = node.inputs

/-- A well-formed graph after edits of a pass over another one, of the same interface. -/
structure Follows (g : Graph) (free : InputRef → Prop) (g' : Graph) : Prop
    extends g.Revises free g' where
  base : g.WellFormed
  wf : g'.WellFormed
  faces : ∀ n, n = entry ∨ n = exit → g'.node? n = g.node? n

theorem WellFormed.follows_self (hg : g.WellFormed) : g.Follows free g :=
  ⟨hg.revises_self, hg, hg, fun _ _ => rfl⟩

namespace Follows

/-- The interface of the revised graph is that of both. -/
theorem node?_revisedBy_face (h : g.Follows free g') (hn : n = entry ∨ n = exit) :
    (g.revisedBy g').node? n = g.node? n := by
  rw [Graph.node?_revisedBy, h.faces n hn]
  cases g.node? n <;> rfl

/-- A node of the revised graph is an old one with the constants of the new one. -/
theorem mem_nodes_revisedBy (h : g.Follows free g') {node : Node}
    (hnode : node ∈ (g.revisedBy g').nodes) : ∃ old ∈ g.nodes, ∃ node' ∈ g'.nodes,
      node'.Revised old ∧ node = { old with inputs := node'.inputs } := by
  obtain ⟨old, hold, rfl⟩ := List.mem_map.1 hnode
  obtain ⟨hold, hhas⟩ := List.mem_filter.1 hold
  obtain ⟨node', hnode'⟩ := hasNode_iff.1 hhas
  obtain ⟨old', hold', hrev⟩ := h.nodes old.id node' (h.base.id_lt old hold) hnode'
  rw [h.base.node?_eq hold] at hold'
  cases hold'
  exact ⟨old, hold, node', (mem_of_node? hnode').1, hrev, by rw [hnode']; rfl⟩

/-- An old node that is still there has the same properties but for its constants. -/
theorem exists_revised (h : g.Follows free g') {old : Node} (hold : g.node? n = some old)
    (hhas : g'.hasNode n) : ∃ node', g'.node? n = some node' ∧ node'.Revised old := by
  obtain ⟨node', hnode'⟩ := hasNode_iff.1 hhas
  obtain ⟨old', hold', hrev⟩ :=
    h.nodes n node' (h.base.lt_nextNode (hasNode_iff.2 ⟨old, hold⟩)) hnode'
  rw [hold] at hold'
  cases hold'
  exact ⟨node', hnode', hrev⟩

/-- The sockets of a node that is still there are there. -/
theorem outputSocket_revisedBy (h : g.Follows free g') {o : OutputRef} (hhas : g'.hasNode o.node)
    {s : Socket} (hs : g.outputSocket o = .ok s) : (g.revisedBy g').outputSocket o = .ok s := by
  obtain ⟨old, hold, hsock⟩ := outputSocket_eq_ok.1 hs
  obtain ⟨node', hnode', -⟩ := h.exists_revised hold hhas
  exact outputSocket_eq_ok.2 ⟨_, node?_revisedBy_of_node? hold hnode', hsock⟩

theorem exists_inputSocket_revisedBy (h : g.Follows free g') {i : InputRef}
    (hhas : g'.hasNode i.node) {s : Socket} (hs : g.inputSocket i = .ok s) :
    ∃ s', (g.revisedBy g').inputSocket i = .ok s' := by
  obtain ⟨old, hold, hsock⟩ := inputSocket_eq_ok.1 hs
  obtain ⟨node', hnode', hrev⟩ := h.exists_revised hold hhas
  have hspec := hrev.inputs_spec i.index
  rw [hsock] at hspec
  obtain ⟨s', hs', -⟩ := Option.map_eq_some_iff.1 hspec
  exact ⟨s', inputSocket_eq_ok.2 ⟨_, node?_revisedBy_of_node? hold hnode', hs'⟩⟩

/-- **The revised graph is well formed.** -/
theorem wellFormed_revisedBy (h : g.Follows free g') : (g.revisedBy g').WellFormed := by
  have hg := h.base
  have hentry := h.node?_revisedBy_face (Or.inl rfl)
  have hexit := h.node?_revisedBy_face (Or.inr rfl)
  refine
    { ids_nodup := ?_
      id_lt := ?_
      fits := ?_
      hasEntry := by rw [Graph.hasNode, hentry]; exact hg.hasEntry
      hasExit := by rw [Graph.hasNode, hexit]; exact hg.hasExit
      input_names := by rw [inputSockets, hentry]; exact hg.input_names
      output_names := by rw [outputSockets, hexit]; exact hg.output_names
      link_ids := hg.link_ids.sublist (List.filter_sublist.map _)
      link_lt := fun l hl => hg.link_lt l (List.mem_of_mem_filter hl)
      sources := ?_
      targets := ?_
      targets_nodup := hg.targets_nodup.sublist (List.filter_sublist.map _)
      acyclic := fun m hm =>
        hg.acyclic m (transGen_linked_mono (fun l hl => (mem_links_revisedBy.1 hl).1) hm)
      active := fun m hm => by cases hm }
  · have hids : (g.revisedBy g').nodes.map Node.id
        = (g.nodes.filter fun node => g'.hasNode node.id).map Node.id := by
      rw [revisedBy, List.map_map]
      rfl
    rw [hids]
    exact hg.ids_nodup.sublist (List.filter_sublist.map _)
  · intro node hnode
    obtain ⟨old, hold, node', -, -, rfl⟩ := h.mem_nodes_revisedBy hnode
    exact hg.id_lt old hold
  · -- the sockets are those of the old node, and the constants fit as in the new one
    intro node hnode
    obtain ⟨old, hold, node', hnode', hrev, rfl⟩ := h.mem_nodes_revisedBy hnode
    have halike : Node.Alike { old with inputs := node'.inputs } old :=
      ⟨rfl, rfl, hrev.inputs, rfl⟩
    exact halike.fits (hg.fits old hold) (h.wf.fits node' hnode').defaults
  · intro l hl
    obtain ⟨hl, hsource, -⟩ := mem_links_revisedBy.1 hl
    obtain ⟨s, hs⟩ := hg.sources l hl
    exact ⟨s, h.outputSocket_revisedBy hsource hs⟩
  · intro l hl
    obtain ⟨hl, -, htarget⟩ := mem_links_revisedBy.1 hl
    obtain ⟨s, hs⟩ := hg.targets l hl
    exact h.exists_inputSocket_revisedBy htarget hs

/-- Links into a node that is still there, where it is not free, are links of the old
graph. -/
theorem incoming?_revisedBy (h : g.Follows free g') {i : InputRef} (hi : i.node < g.nextNode)
    (hfree : ¬ free i) : g'.incoming? i = (g.revisedBy g').incoming? i := by
  refine Option.ext fun l => ?_
  rw [h.wf.incoming?_eq_some, h.wellFormed_revisedBy.incoming?_eq_some, mem_links_revisedBy]
  constructor
  · rintro ⟨hl, rfl⟩
    exact ⟨(h.links l hi hfree).1 hl, rfl⟩
  · rintro ⟨hl, rfl⟩
    exact ⟨(h.links l hi hfree).2 hl, rfl⟩

/-- **An output that got no link has the value it has in the old graph with the constants
of the new one.** -/
theorem evaluate_eq (h : g.Follows free g') {name : String}
    (hfree : ∀ i type, g.output? name = some (i, type) → ∀ j, free j → j.node = exit ∧ j ≠ i)
    (inputs : String → Option Value) :
    g'.evaluate inputs name = (g.revisedBy g').evaluate inputs name := by
  have hg := h.base
  have hwf := h.wellFormed_revisedBy
  have hface : ∀ n, n = entry ∨ n = exit → (g.revisedBy g').node? n = g.node? n :=
    fun n hn => h.node?_revisedBy_face hn
  have hout : (g.revisedBy g').output? name = g.output? name := by
    simp only [output?, outputSockets, hface exit (Or.inr rfl)]
  refine hwf.evaluate_congr h.wf (fun n hn => (h.faces n hn).trans (hface n hn).symm) ?_ ?_
  · intro i type hname j hj
    rw [hout] at hname
    have hnot : ¬ free j := by
      intro hf
      obtain ⟨hexit, hne⟩ := hfree i type hname j hf
      rcases hj with rfl | hj
      · exact hne rfl
      · have hpath := hwf.path_of_behind hj
        rw [hexit, (output?_eq_some hname).1] at hpath
        exact hwf.acyclic exit hpath
    have hlt : j.node < g.nextNode := by
      rcases hj with rfl | hj
      · rw [(output?_eq_some hname).1]
        exact hg.exit_lt
      · obtain ⟨node, hnode⟩ := hasNode_iff.1 (hwf.hasNode_of_behind hj)
        obtain ⟨old, -, hold, -⟩ := node?_revisedBy_eq_some hnode
        exact hg.lt_nextNode (hasNode_iff.2 ⟨old, hold⟩)
    rw [h.incoming?_revisedBy hlt hnot]
  · intro i type _ n node _ hnode
    obtain ⟨old, node', hold, hnode', rfl⟩ := node?_revisedBy_eq_some hnode
    have hlt : n < g.nextNode := hg.lt_nextNode (hasNode_iff.2 ⟨old, hold⟩)
    obtain ⟨old', hold', hrev⟩ := h.nodes n node' hlt hnode'
    rw [hold] at hold'
    cases hold'
    exact ⟨node', hnode', hrev.kind, rfl⟩

/-- **An output keeps its value if every node behind it is still there with its
constants.** -/
theorem evaluate_of_kept (h : g.Follows free g') {name : String}
    (hfree : ∀ i type, g.output? name = some (i, type) → ∀ j, free j → j.node = exit ∧ j ≠ i)
    (hkept : g.KeptBehind g' name) (inputs : String → Option Value) :
    g'.evaluate inputs name = g.evaluate inputs name := by
  have hg := h.base
  have hg' := h.wf
  refine hg.evaluate_congr hg' h.faces ?_ ?_
  · intro i type hname j hj
    -- a free input is one of the exit, which leads nowhere
    have hnot : ¬ free j := by
      intro hf
      obtain ⟨hexit, hne⟩ := hfree i type hname j hf
      rcases hj with rfl | hj
      · exact hne rfl
      · have hpath := hg.path_of_behind hj
        rw [hexit, (output?_eq_some hname).1] at hpath
        exact hg.acyclic exit hpath
    have hhas : ∀ n, g.Behind i n → g'.hasNode n := by
      intro n hn
      obtain ⟨node, hnode⟩ := hasNode_iff.1 (hg.hasNode_of_behind hn)
      obtain ⟨node', hnode', -⟩ := hkept i type hname n node hn hnode
      exact hasNode_iff.2 ⟨node', hnode'⟩
    have hj' : j.node < g.nextNode ∧ g'.hasNode j.node := by
      rcases hj with rfl | hj
      · rw [(output?_eq_some hname).1]
        exact ⟨hg.exit_lt, hg'.hasExit⟩
      · exact ⟨hg.lt_nextNode (hg.hasNode_of_behind hj), hhas _ hj⟩
    -- an old link is still there, since the node that it leads from is behind the output as well
    have hincoming : g'.incoming? j = g.incoming? j := by
      refine Option.ext fun l => ?_
      rw [hg'.incoming?_eq_some, hg.incoming?_eq_some]
      constructor
      · rintro ⟨hl, rfl⟩
        exact ⟨((h.links l hj'.1 hnot).1 hl).1, rfl⟩
      · rintro ⟨hl, rfl⟩
        have hsource : g.Behind i l.source.node := by
          have hin := hg.incoming?_eq_some.2 ⟨hl, rfl⟩
          rcases hj with heq | hj
          · exact ⟨l, heq ▸ hin, ReflTransGen.refl⟩
          · exact hg.behind_source hj hin
        exact ⟨(h.links l hj'.1 hnot).2 ⟨hl, hhas _ hsource, hj'.2⟩, rfl⟩
    rw [hincoming]
  · intro i type hname n node hn hnode
    obtain ⟨node', hnode', hinputs⟩ := hkept i type hname n node hn hnode
    obtain ⟨node'', hnode'', hrev⟩ := h.exists_revised hnode (hasNode_iff.2 ⟨node', hnode'⟩)
    rw [hnode'] at hnode''
    cases hnode''
    exact ⟨node', hnode', hrev.kind, hinputs⟩

end Follows

end Graph

end NodeFormula
