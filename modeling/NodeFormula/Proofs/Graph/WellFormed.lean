import Mathlib.Data.List.Nodup
import Mathlib.Logic.Relation
import NodeFormula.Proofs.Graph.Atomic
/-!
# NodeFormula — well-formed graphs

`Graph.WellFormed` is what holds of every graph that was made by edits: the two
interface nodes are there, every node has the sockets of its kind, links join
sockets that exist, no input has two links, and the links run in no cycle. A graph is
read through `node?` and `incoming?`, and the first part of this file says what each
edit does to these two; the second part says that the edits of a pass keep a graph
well formed.
-/

namespace NodeFormula

open Relation

/-- What a socket is apart from the constant it holds. -/
def Socket.spec (s : Socket) : SocketSpec := ⟨s.name, s.type⟩

/-- A node has the sockets that its kind prescribes, and constants that fit them. The
interface nodes alone have sockets of their own, each on one side. -/
structure Node.Fits (n : Node) : Prop where
  entry_iff : n.kind = .groupInput ↔ n.id = Graph.entry
  exit_iff : n.kind = .groupOutput ↔ n.id = Graph.exit
  inputs : n.id ≠ Graph.exit → n.inputs.map Socket.spec = n.kind.inputs
  outputs : n.id ≠ Graph.entry → n.outputs.map Socket.spec = n.kind.outputs
  defaults : ∀ s ∈ n.inputs, s.default.type = s.type

namespace Graph

/-- A link leads from one node to another. -/
def Linked (g : Graph) (m n : NodeId) : Prop :=
  ∃ l ∈ g.links, l.source.node = m ∧ l.target.node = n

/-- **A well-formed graph.** -/
structure WellFormed (g : Graph) : Prop where
  ids_nodup : (g.nodes.map Node.id).Nodup
  id_lt : ∀ n ∈ g.nodes, n.id < g.nextNode
  fits : ∀ n ∈ g.nodes, n.Fits
  hasEntry : g.hasNode entry
  hasExit : g.hasNode exit
  input_names : (g.inputSockets.map Socket.name).Nodup
  output_names : (g.outputSockets.map Socket.name).Nodup
  link_ids : (g.links.map Link.id).Nodup
  link_lt : ∀ l ∈ g.links, l.id < g.nextLink
  sources : ∀ l ∈ g.links, ∃ s, g.outputSocket l.source = .ok s
  targets : ∀ l ∈ g.links, ∃ s, g.inputSocket l.target = .ok s
  targets_nodup : (g.links.map Link.target).Nodup
  acyclic : ∀ n, ¬ TransGen g.Linked n n
  active : ∀ n, g.active = some n → g.hasNode n

variable {g : Graph} {n m : NodeId} {node : Node}

/-! ## Looking up nodes and links -/

theorem mem_of_node? (h : g.node? n = some node) : node ∈ g.nodes ∧ node.id = n := by
  have hid := List.find?_some h
  simp only [beq_iff_eq] at hid
  exact ⟨List.mem_of_find?_eq_some h, hid⟩

theorem WellFormed.node?_eq (hg : g.WellFormed) (h : node ∈ g.nodes) :
    g.node? node.id = some node := by
  have hsome : (g.node? node.id).isSome := by
    rw [node?, List.find?_isSome]
    exact ⟨node, h, by simp⟩
  obtain ⟨other, hother⟩ := Option.isSome_iff_exists.1 hsome
  obtain ⟨hmem, hid⟩ := mem_of_node? hother
  rw [hother, List.inj_on_of_nodup_map hg.ids_nodup hmem h hid]

theorem WellFormed.lt_nextNode (hg : g.WellFormed) (h : g.hasNode n) : n < g.nextNode := by
  obtain ⟨node, hnode⟩ := hasNode_iff.1 h
  obtain ⟨hmem, rfl⟩ := mem_of_node? hnode
  exact hg.id_lt node hmem

theorem WellFormed.node?_nextNode (hg : g.WellFormed) : g.node? g.nextNode = none := by
  by_contra h
  exact Nat.lt_irrefl _ (hg.lt_nextNode (Option.isSome_iff_ne_none.2 h))

theorem inputSocket_eq_ok {i : InputRef} {s : Socket} :
    g.inputSocket i = .ok s ↔ ∃ node, g.node? i.node = some node ∧ node.inputs[i.index]? = some s := by
  rw [inputSocket]
  cases g.node? i.node with
  | none => simp
  | some node => cases h : node.inputs[i.index]? <;> simp [h]

theorem outputSocket_eq_ok {o : OutputRef} {s : Socket} :
    g.outputSocket o = .ok s ↔
      ∃ node, g.node? o.node = some node ∧ node.outputs[o.index]? = some s := by
  rw [outputSocket]
  cases g.node? o.node with
  | none => simp
  | some node => cases h : node.outputs[o.index]? <;> simp [h]

/-- Sockets are read off their nodes. -/
theorem outputSocket_congr {g' : Graph} {o : OutputRef} (h : g'.node? o.node = g.node? o.node) :
    g'.outputSocket o = g.outputSocket o := by
  rw [outputSocket, outputSocket, h]

theorem inputSocket_congr {g' : Graph} {i : InputRef} (h : g'.node? i.node = g.node? i.node) :
    g'.inputSocket i = g.inputSocket i := by
  rw [inputSocket, inputSocket, h]

theorem outputSockets_congr {g' : Graph} (h : g'.node? exit = g.node? exit) :
    g'.outputSockets = g.outputSockets := by
  rw [outputSockets, outputSockets, h]

theorem inputSockets_congr {g' : Graph} (h : g'.node? entry = g.node? entry) :
    g'.inputSockets = g.inputSockets := by
  rw [inputSockets, inputSockets, h]

theorem WellFormed.hasNode_source (hg : g.WellFormed) {l : Link} (hl : l ∈ g.links) :
    g.hasNode l.source.node := by
  obtain ⟨s, hs⟩ := hg.sources l hl
  obtain ⟨node, hnode, -⟩ := outputSocket_eq_ok.1 hs
  exact hasNode_iff.2 ⟨node, hnode⟩

theorem WellFormed.hasNode_target (hg : g.WellFormed) {l : Link} (hl : l ∈ g.links) :
    g.hasNode l.target.node := by
  obtain ⟨s, hs⟩ := hg.targets l hl
  obtain ⟨node, hnode, -⟩ := inputSocket_eq_ok.1 hs
  exact hasNode_iff.2 ⟨node, hnode⟩

/-- **Links in a graph of at most one link an input are found by their target.** -/
theorem WellFormed.incoming?_eq_some (hg : g.WellFormed) {i : InputRef} {l : Link} :
    g.incoming? i = some l ↔ l ∈ g.links ∧ l.target = i := by
  constructor
  · intro h
    have htarget := List.find?_some h
    simp only [beq_iff_eq] at htarget
    exact ⟨List.mem_of_find?_eq_some h, htarget⟩
  · rintro ⟨hmem, rfl⟩
    have hsome : (g.incoming? l.target).isSome := by
      rw [incoming?, List.find?_isSome]
      exact ⟨l, hmem, by simp⟩
    obtain ⟨other, hother⟩ := Option.isSome_iff_exists.1 hsome
    have htarget := List.find?_some hother
    simp only [beq_iff_eq] at htarget
    rw [hother, List.inj_on_of_nodup_map hg.targets_nodup (List.mem_of_find?_eq_some hother)
      hmem htarget]

theorem incoming?_eq_none {i : InputRef} : g.incoming? i = none ↔ ∀ l ∈ g.links, l.target ≠ i := by
  simp [incoming?]

/-! ## What an edit does to the look-ups -/

/-- A change that keeps identifiers. -/
def KeepsId (f : Node → Node) : Prop := ∀ node, (f node).id = node.id

theorem node?_updateNode {f : Node → Node} (hf : KeepsId f) (n m : NodeId) :
    (g.updateNode n f).node? m = (g.node? m).map fun node => if m = n then f node else node := by
  simp only [updateNode, node?, List.find?_map]
  have hpred : ((fun x : Node => x.id == m) ∘ fun node => if node.id = n then f node else node)
      = fun x => x.id == m := by
    funext node
    by_cases h : node.id = n
    · simp [h, hf node]
    · simp [h]
  rw [hpred]
  cases h : g.nodes.find? fun x => x.id == m with
  | none => rfl
  | some node =>
    have hid := List.find?_some h
    simp only [beq_iff_eq] at hid
    simp [hid]

@[simp] theorem links_updateNode (f : Node → Node) : (g.updateNode n f).links = g.links := rfl

@[simp] theorem incoming?_updateNode (f : Node → Node) (i : InputRef) :
    (g.updateNode n f).incoming? i = g.incoming? i := rfl

theorem hasNode_updateNode {f : Node → Node} (hf : KeepsId f) :
    (g.updateNode n f).hasNode m = g.hasNode m := by
  simp [hasNode, node?_updateNode hf]

/-- A graph in which every node is changed. -/
def mapNodes (g : Graph) (f : Node → Node) : Graph := { g with nodes := g.nodes.map f }

theorem node?_mapNodes {f : Node → Node} (hf : KeepsId f) (n : NodeId) :
    (g.mapNodes f).node? n = (g.node? n).map f := by
  rw [node?, node?, mapNodes, List.find?_map]
  have hpred : ((·.id == n) : Node → Bool) ∘ f = (·.id == n) :=
    funext fun node => congrArg (· == n) (hf node)
  rw [hpred]

theorem inputSocket_mapNodes {f : Node → Node} (hf : KeepsId f)
    (hin : ∀ node, (f node).inputs = node.inputs) (i : InputRef) :
    (g.mapNodes f).inputSocket i = g.inputSocket i := by
  rw [inputSocket, inputSocket, node?_mapNodes hf]
  cases g.node? i.node with
  | none => rfl
  | some node => simp only [Option.map_some, hin]

theorem outputSockets_mapNodes {f : Node → Node} (hf : KeepsId f)
    (hin : ∀ node, (f node).inputs = node.inputs) :
    (g.mapNodes f).outputSockets = g.outputSockets := by
  rw [outputSockets, outputSockets, node?_mapNodes hf]
  cases g.node? exit with
  | none => rfl
  | some node => exact hin node

/-- A change of one node, seen through a change of all nodes. -/
theorem mapNodes_updateNode {f f' all : Node → Node} (hid : KeepsId all)
    (hf : ∀ node, all (f node) = f' (all node)) :
    (g.updateNode n f).mapNodes all = (g.mapNodes all).updateNode n f' := by
  simp only [mapNodes, updateNode, List.map_map]
  congr 2
  funext node
  simp only [Function.comp, hid node]
  split
  · exact hf node
  · rfl

/-- The node that `insertNode` adds. -/
def madeNode (g : Graph) (kind : NodeKind) (place : Place) : Node where
  id := g.nextNode
  kind
  name := g.freshName kind.label
  label := kind.label
  tag := none
  place
  inputs := freshSockets kind.inputs
  outputs := freshSockets kind.outputs
  automated := false

theorem node?_insertNode (hg : g.WellFormed) (kind : NodeKind) (place : Place) :
    (g.insertNode kind place).2.node? m
      = if m = g.nextNode then some (g.madeNode kind place) else g.node? m := by
  have hnone := hg.node?_nextNode
  simp only [node?] at hnone
  simp only [insertNode, node?, List.find?_append]
  by_cases hm : m = g.nextNode
  · subst hm
    simp [hnone, madeNode]
  · have : (g.nextNode == m) = false := by simpa using fun h : g.nextNode = m => hm h.symm
    simp [hm, this]

theorem node?_filter (m : NodeId) :
    (g.nodes.filter (·.id != n)).find? (·.id == m) = if m = n then none else g.node? m := by
  rw [node?, List.find?_filter]
  by_cases hm : m = n
  · subst hm
    simp
  · rw [if_neg hm]
    congr 1
    funext node
    by_cases hid : node.id = m
    · simp [hid, hm]
    · simp [hid]

theorem node?_without (n m : NodeId) :
    (g.without n).node? m = if m = n then none else g.node? m := node?_filter m

theorem hasNode_without : (g.without n).hasNode m ↔ g.hasNode m ∧ m ≠ n := by
  rw [hasNode, node?_without]
  by_cases hm : m = n <;> simp [hm, hasNode]

theorem mem_links_without {l : Link} :
    l ∈ (g.without n).links ↔ l ∈ g.links ∧ l.source.node ≠ n ∧ l.target.node ≠ n := by
  simp [without]

theorem removeNode_eq_ok {g' : Graph} :
    g.removeNode n = .ok g' ↔ n ≠ entry ∧ n ≠ exit ∧ g.hasNode n ∧ g' = g.without n := by
  rw [removeNode_eq]
  by_cases hface : n = entry ∨ n = exit
  · rw [if_pos hface]
    simp only [reduceCtorEq, false_iff]
    rintro ⟨h0, h1, -, -⟩
    exact hface.elim h0 h1
  · rw [if_neg hface]
    push Not at hface
    cases hn : g.hasNode n with
    | false => simp
    | true =>
      simp only [if_true, Except.ok.injEq]
      exact ⟨fun h => ⟨hface.1, hface.2, trivial, h.symm⟩, fun h => h.2.2.2.symm⟩

theorem modifyNode_eq_ok {f : Node → Node} {g' : Graph} :
    g.modifyNode n f = .ok g' ↔ g.hasNode n ∧ g' = g.updateNode n f := by
  rw [modifyNode_eq]
  cases hn : g.hasNode n with
  | false => simp
  | true => simpa using eq_comm

theorem createNode_eq_ok {kind : NodeKind} {g' : Graph} :
    g.createNode kind = .ok (n, g') ↔
      kind.isInterface = false ∧ n = g.nextNode ∧ g' = (g.insertNode kind ⟨0, 0⟩).2 := by
  rw [createNode_eq]
  cases hk : kind.isInterface with
  | true => simp
  | false =>
    simp only [Bool.false_eq_true, if_false, Except.ok.injEq, true_and]
    constructor
    · intro h
      exact ⟨(congrArg Prod.fst h).symm, (congrArg Prod.snd h).symm⟩
    · rintro ⟨rfl, rfl⟩
      rfl

theorem newInput_eq_ok {name : String} {type : SocketType} {o : OutputRef} {g' : Graph} :
    g.newInput name type = .ok (o, g') ↔
      g.input? name = none ∧ g.hasNode entry ∧ o = ⟨entry, g.inputSockets.length⟩ ∧
        g' = g.updateNode entry fun n => { n with outputs := n.outputs ++ [.fresh name type] } := by
  rw [newInput_eq]
  cases hname : g.input? name with
  | some _ => simp
  | none => cases hentry : g.hasNode entry <;> simp [eq_comm]

theorem newOutput_eq_ok {name : String} {type : SocketType} {i : InputRef} {g' : Graph} :
    g.newOutput name type = .ok (i, g') ↔
      g.output? name = none ∧ g.hasNode exit ∧ i = ⟨exit, g.outputSockets.length⟩ ∧
        g' = g.updateNode exit fun n => { n with inputs := n.inputs ++ [.fresh name type] } := by
  rw [newOutput_eq]
  cases hname : g.output? name with
  | some _ => simp
  | none => cases hexit : g.hasNode exit <;> simp [eq_comm]

theorem setDefault_eq_ok {i : InputRef} {v : Value} {g' : Graph} :
    g.setDefault i v = .ok g' ↔ ∃ s, g.inputSocket i = .ok s ∧
      ¬ (s.type = .float ∧ v.type = .vector) ∧
      g' = g.updateNode i.node (putDefault i.index v) := by
  rw [setDefault_eq]
  cases hs : g.inputSocket i with
  | error e => simp
  | ok s =>
    simp only [Except.ok.injEq]
    by_cases hbad : s.type = .float ∧ v.type = .vector
    · simp [hbad]
    · rw [if_neg hbad]
      constructor
      · intro h
        exact ⟨s, rfl, hbad, (Except.ok.inj h).symm⟩
      · rintro ⟨_, -, -, rfl⟩
        rfl

/-- A link changes nothing but the links. -/
theorem exists_links_of_link {source : OutputRef} {target : InputRef} {id : LinkId} {g' : Graph}
    (h : g.link source target = .ok (id, g')) :
    ∃ links, g' = { g with links, nextLink := g.nextLink + 1 } := by
  rw [link_eq] at h
  split at h
  · cases h
  · split at h
    · cases h
    · split at h
      · cases h
      · cases h
        exact ⟨_, rfl⟩

/-- A graph with a link into an input, in place of the one that was there. -/
def relinked (g : Graph) (source : OutputRef) (target : InputRef) : Graph :=
  { g with
    links := g.links.filter (·.target != target) ++ [⟨g.nextLink, source, target⟩]
    nextLink := g.nextLink + 1 }

/-- In a well-formed graph the link that `link` replaces is the one that shares the
target. -/
theorem WellFormed.filter_incoming (hg : g.WellFormed) {target : InputRef} {old : Link}
    (h : g.incoming? target = some old) :
    g.links.filter (·.id != old.id) = g.links.filter (·.target != target) := by
  obtain ⟨hold, htarget⟩ := hg.incoming?_eq_some.1 h
  refine List.filter_congr fun l hl => ?_
  by_cases hid : l.id = old.id
  · rw [List.inj_on_of_nodup_map hg.link_ids hl hold hid]
    simp [htarget]
  · have hne : l.target ≠ target := by
      intro ht
      exact hid (by rw [List.inj_on_of_nodup_map hg.targets_nodup hl hold (ht.trans htarget.symm)])
    rw [bne_iff_ne.2 hid, bne_iff_ne.2 hne]

theorem filter_of_incoming?_none {target : InputRef} (h : g.incoming? target = none) :
    g.links.filter (·.target != target) = g.links := by
  refine List.filter_eq_self.2 fun l hl => ?_
  simpa using incoming?_eq_none.1 h l hl

theorem WellFormed.link_eq_ok (hg : g.WellFormed) {source : OutputRef} {target : InputRef}
    {id : LinkId} {g' : Graph} :
    g.link source target = .ok (id, g') ↔ (∃ s, g.outputSocket source = .ok s) ∧
      (∃ s, g.inputSocket target = .ok s) ∧ g.feeds target.node source.node = false ∧
      id = g.nextLink ∧ g' = g.relinked source target := by
  rw [link_eq]
  cases ho : g.outputSocket source with
  | error e => simp
  | ok so =>
    cases hi : g.inputSocket target with
    | error e => simp
    | ok si =>
      dsimp only
      cases hf : g.feeds target.node source.node with
      | true => simp
      | false =>
        cases hin : g.incoming? target with
        | none =>
          simp only [relinked, filter_of_incoming?_none hin]
          simp [eq_comm]
        | some old =>
          simp only [relinked, hg.filter_incoming hin]
          simp [eq_comm]

end Graph

end NodeFormula
