import NodeFormula.Proofs.Graph.Edited
import NodeFormula.Proofs.Pass.Ensures
import NodeFormula.Proofs.Pass.Lookup
/-!
# NodeFormula — what a pass leaves alone

A pass adds nodes and links them, gives constants to nodes it finds again, and removes a
node that has the tag but not the kind it asks for. `Frame` says so of every state a pass
can be in, failed ones included: the nodes that were there before differ in their
constants alone, a link between them is as it was as long as both its ends are there, and
the report names every node that is new, gone, or (outside an operation) holds another
constant.
-/

namespace NodeFormula

open Relation

/-- Two states of a node between which a pass may have changed its constants, its place
and its owner. -/
structure Node.Revised (a b : Node) : Prop extends a.Alike b where
  name : a.name = b.name
  tag : a.tag = b.tag

theorem Node.Revised.refl (a : Node) : a.Revised a := ⟨.refl a, rfl, rfl⟩

theorem Node.Revised.trans {a b c : Node} (h : a.Revised b) (h' : b.Revised c) : a.Revised c :=
  ⟨h.toAlike.trans h'.toAlike, h.name.trans h'.name, h.tag.trans h'.tag⟩

namespace Graph

/-- What became of the nodes of a graph. The inputs that are `free` may have got other
links. -/
structure Revises (g : Graph) (free : InputRef → Prop) (g' : Graph) : Prop where
  next_le : g.nextNode ≤ g'.nextNode
  nodes : ∀ n node', n < g.nextNode → g'.node? n = some node' →
    ∃ node, g.node? n = some node ∧ node'.Revised node
  links : ∀ l : Link, l.target.node < g.nextNode → ¬ free l.target →
    (l ∈ g'.links ↔ l ∈ g.links ∧ g'.hasNode l.source.node ∧ g'.hasNode l.target.node)

variable {g g' : Graph} {free : InputRef → Prop}

theorem WellFormed.revises_self (hg : g.WellFormed) : g.Revises free g where
  next_le := Nat.le_refl _
  nodes _ node' _ h := ⟨node', h, .refl node'⟩
  links _ _ _ := ⟨fun h => ⟨h, hg.hasNode_source h, hg.hasNode_target h⟩, fun h => h.1⟩

/-- A node that is old and still there was there before. -/
theorem Revises.hasNode (h : g.Revises free g') {n : NodeId} (hn : n < g.nextNode)
    (h' : g'.hasNode n) : g.hasNode n := by
  obtain ⟨node', hnode'⟩ := hasNode_iff.1 h'
  obtain ⟨node, hnode, -⟩ := h.nodes n node' hn hnode'
  exact hasNode_iff.2 ⟨node, hnode⟩

/-- An old node is changed in its constants, its place or its owner. -/
theorem Revises.updateNode (h : g.Revises free g') {n : NodeId} {f : Node → Node}
    (hkeeps : KeepsId f) (hf : n < g.nextNode → ∀ node, (f node).Revised node) :
    g.Revises free (g'.updateNode n f) where
  next_le := h.next_le
  nodes m node' hm hnode' := by
    simp only [node?_updateNode hkeeps, Option.map_eq_some_iff] at hnode'
    obtain ⟨old, hold, rfl⟩ := hnode'
    obtain ⟨node, hnode, hrev⟩ := h.nodes m old hm hold
    refine ⟨node, hnode, ?_⟩
    split
    · rename_i hmn
      exact (hf (hmn ▸ hm) old).trans hrev
    · exact hrev
  links l hl hfree := by
    simp only [links_updateNode, hasNode_updateNode hkeeps]
    exact h.links l hl hfree

/-- A node is added, which is none of the old ones. -/
theorem Revises.insertNode (hg : g.WellFormed) (h : g.Revises free g') (hg' : g'.WellFormed)
    (kind : NodeKind) (place : Place) : g.Revises free (g'.insertNode kind place).2 := by
  have hold : ∀ m, m < g.nextNode → (g'.insertNode kind place).2.node? m = g'.node? m := by
    intro m hm
    rw [node?_insertNode hg', if_neg (Nat.ne_of_lt (Nat.lt_of_lt_of_le hm h.next_le))]
  refine ⟨Nat.le_succ_of_le h.next_le, fun m node' hm hnode' => ?_, fun l hl hfree => ?_⟩
  · rw [hold m hm] at hnode'
    exact h.nodes m node' hm hnode'
  · change l ∈ g'.links ↔ _
    rw [h.links l hl hfree]
    have hhas : ∀ m, m < g.nextNode →
        (g'.insertNode kind place).2.hasNode m = g'.hasNode m := fun m hm => by
      rw [Graph.hasNode, Graph.hasNode, hold m hm]
    refine and_congr_right fun hmem => ?_
    rw [hhas _ hl, hhas _ (hg.lt_nextNode (hg.hasNode_source hmem))]

/-- A link is made into a new node, or into a free input. -/
theorem Revises.relinked (h : g.Revises free g') {source : OutputRef} {target : InputRef}
    (htarget : g.nextNode ≤ target.node ∨ free target) :
    g.Revises free (g'.relinked source target) where
  next_le := h.next_le
  nodes := h.nodes
  links l hl hfree := by
    have hne : l.target ≠ target := by
      rintro rfl
      exact htarget.elim (Nat.not_le.2 hl) hfree
    have hmem : l ∈ (g'.relinked source target).links ↔ l ∈ g'.links := by
      rw [mem_links_relinked]
      constructor
      · rintro (⟨hl, -⟩ | rfl)
        · exact hl
        · exact absurd rfl hne
      · exact fun hl => Or.inl ⟨hl, hne⟩
    exact hmem.trans (h.links l hl hfree)

/-- A node is removed with its links. -/
theorem Revises.without (h : g.Revises free g') (n : NodeId) : g.Revises free (g'.without n) where
  next_le := h.next_le
  nodes m node' hm hnode' := by
    rw [node?_without] at hnode'
    split at hnode'
    · cases hnode'
    · exact h.nodes m node' hm hnode'
  links l hl hfree := by
    rw [mem_links_without, h.links l hl hfree, hasNode_without, hasNode_without]
    tauto

/-- A new node is none of the interface. -/
theorem WellFormed.ne_faces_of_le (hg : g.WellFormed) {n : NodeId} (hle : g.nextNode ≤ n) :
    n ≠ entry ∧ n ≠ exit :=
  ⟨Nat.ne_of_gt (Nat.lt_of_lt_of_le hg.entry_lt hle),
    Nat.ne_of_gt (Nat.lt_of_lt_of_le hg.exit_lt hle)⟩

/-- Nor is a node of a kind that is none of the interface. -/
theorem WellFormed.ne_faces_of_kind? (hg : g.WellFormed) {n : NodeId} {kind : NodeKind}
    (hkind : g.kind? n = some kind) (hk : kind.isInterface = false) : n ≠ entry ∧ n ≠ exit := by
  obtain ⟨node, hnode, rfl⟩ := Option.map_eq_some_iff.1 hkind
  obtain ⟨hmem, rfl⟩ := mem_of_node? hnode
  refine ⟨fun hentry => ?_, fun hexit => ?_⟩
  · rw [(hg.fits node hmem).entry_iff.2 hentry] at hk
    cases hk
  · rw [(hg.fits node hmem).exit_iff.2 hexit] at hk
    cases hk

end Graph

namespace Pass

open Graph

variable {g : Graph} {free : InputRef → Prop} {loose : NodeId → Prop} {p : Pass} {n : NodeId}

/-- **What holds of a pass over `g` at any time.** The constants of the nodes that are
`loose` are being changed. -/
structure Frame (g : Graph) (free : InputRef → Prop) (loose : NodeId → Prop) (p : Pass) :
    Prop where
  base : g.WellFormed
  wf : p.graph.WellFormed
  untagged : ∀ n node, n = entry ∨ n = exit → g.node? n = some node → node.tag = none
  faces : ∀ n, n = entry ∨ n = exit → p.graph.node? n = g.node? n
  revises : g.Revises free p.graph
  created_ge : ∀ n ∈ p.report.created, g.nextNode ≤ n
  created : ∀ n, g.nextNode ≤ n → p.graph.hasNode n → n ∈ p.report.created
  removed : ∀ n, g.hasNode n → p.graph.hasNode n = false → n ∈ p.report.removed
  constants : ∀ n node node', g.node? n = some node → p.graph.node? n = some node' →
    node'.inputs = node.inputs ∨ n ∈ p.report.updated ∨ loose n
  cached : ∀ t n, (t, n) ∈ p.cache → n ≠ entry ∧ n ≠ exit

namespace Frame

/-- The frame says nothing of what else a pass keeps. -/
theorem congr {q : Pass} (h : Frame g free loose p) (hgraph : q.graph = p.graph)
    (hcache : q.cache = p.cache) (hcreated : q.report.created = p.report.created)
    (hupdated : q.report.updated = p.report.updated)
    (hremoved : q.report.removed = p.report.removed) : Frame g free loose q where
  base := h.base
  wf := hgraph ▸ h.wf
  untagged := h.untagged
  faces := hgraph ▸ h.faces
  revises := hgraph ▸ h.revises
  created_ge := hcreated ▸ h.created_ge
  created := hgraph ▸ hcreated ▸ h.created
  removed := hgraph ▸ hremoved ▸ h.removed
  constants := hgraph ▸ hupdated ▸ h.constants
  cached := hcache ▸ h.cached

theorem loosen {loose' : NodeId → Prop} (h : Frame g free loose p)
    (hl : ∀ n, loose n → loose' n) : Frame g free loose' p :=
  { h with
    constants := fun n node node' hnode hnode' => by
      rcases h.constants n node node' hnode hnode' with hc | hc | hc
      · exact Or.inl hc
      · exact Or.inr (Or.inl hc)
      · exact Or.inr (Or.inr (hl n hc)) }

theorem release {free' : InputRef → Prop} (h : Frame g free loose p)
    (hfree : ∀ i, free i → free' i) : Frame g free' loose p :=
  { h with
    revises :=
      { h.revises with
        links := fun l hl hnot => h.revises.links l hl fun hf => hnot (hfree _ hf) } }

/-- The frame of a pass that has failed, when constants may be half-way changed. -/
theorem failed (h : Frame g free loose p) : Frame g free (fun _ => True) p :=
  h.loosen fun _ _ => trivial

/-- The inputs of the graph stay. -/
theorem inputSockets (h : Frame g free loose p) : p.graph.inputSockets = g.inputSockets := by
  rw [Graph.inputSockets, Graph.inputSockets, h.faces entry (Or.inl rfl)]

/-- The inputs of the exit stay. -/
theorem inputSocket_exit (h : Frame g free loose p) {i : InputRef} (hi : i.node = exit) :
    p.graph.inputSocket i = g.inputSocket i :=
  inputSocket_congr (h.faces i.node (Or.inr hi))

theorem start (hg : g.WellFormed)
    (huntagged : ∀ n node, n = entry ∨ n = exit → g.node? n = some node → node.tag = none)
    (spacing : Float32) : Frame g free loose (Pass.start g spacing) where
  base := hg
  wf := hg
  untagged := huntagged
  faces _ _ := rfl
  revises := hg.revises_self
  created_ge n hn := absurd hn List.not_mem_nil
  created n hle hn := absurd (hg.lt_nextNode hn) (Nat.not_lt.2 hle)
  removed n hn hnot := absurd hn (by rw [show g.hasNode n = false from hnot]; exact Bool.false_ne_true)
  constants n node node' hnode hnode' := by
    rw [show g.node? n = some node' from hnode'] at hnode
    cases hnode
    exact Or.inl rfl
  cached t n h := absurd h List.not_mem_nil

/-! ## Single edits -/

/-- A node is changed without its sockets: a new one in any way, an old one in its
constants if these are loose. -/
theorem updateNode (h : Frame g free loose p) {f : Node → Node}
    (hwf : (p.graph.updateNode n f).WellFormed) (hf : ∀ node, (f node).Alike node)
    (hface : n ≠ entry ∧ n ≠ exit)
    (hname : n < g.nextNode → ∀ node, (f node).name = node.name ∧ (f node).tag = node.tag)
    (hin : n < g.nextNode → (∀ node, (f node).inputs = node.inputs) ∨ loose n) :
    Frame g free loose { p with graph := p.graph.updateNode n f } := by
  have hkeeps : KeepsId f := fun node => (hf node).id
  refine
    { h with
      wf := hwf
      faces := ?_
      revises := h.revises.updateNode hkeeps fun hn node => ⟨hf node, (hname hn node).1, (hname hn node).2⟩
      created := ?_
      removed := ?_
      constants := ?_ }
  · intro m hm
    have hne : m ≠ n := by
      rintro rfl
      exact hm.elim hface.1 hface.2
    rw [← h.faces m hm]
    simp [node?_updateNode hkeeps, hne]
  · intro m hle hm
    rw [hasNode_updateNode hkeeps] at hm
    exact h.created m hle hm
  · intro m hm hnot
    rw [hasNode_updateNode hkeeps] at hnot
    exact h.removed m hm hnot
  · intro m node node' hnode hnode'
    simp only [node?_updateNode hkeeps, Option.map_eq_some_iff] at hnode'
    obtain ⟨old, hold, rfl⟩ := hnode'
    by_cases hmn : m = n
    · subst hmn
      rw [if_pos rfl]
      have hm : m < g.nextNode := h.base.lt_nextNode (hasNode_iff.2 ⟨node, hnode⟩)
      rcases hin hm with hsame | hloose
      · rw [hsame old]
        exact h.constants m node old hnode hold
      · exact Or.inr (Or.inr hloose)
    · rw [if_neg hmn]
      exact h.constants m node old hnode hold

theorem setActive (h : Frame g free loose p) (m : Option NodeId) :
    Frame g free loose { p with graph := p.graph.setActive m } :=
  { h with
    wf := h.wf.setActive m
    revises := ⟨h.revises.next_le, h.revises.nodes, h.revises.links⟩ }

/-- A node is added, and recorded. -/
theorem insertNode (h : Frame g free loose p) {kind : NodeKind} (hk : kind.isInterface = false)
    (place : Place) :
    Frame g free loose { p with
      graph := (p.graph.insertNode kind place).2
      report := { p.report with created := p.report.created ++ [p.graph.nextNode] } } := by
  have hold : ∀ {m}, m ≠ p.graph.nextNode →
      (p.graph.insertNode kind place).2.node? m = p.graph.node? m := by
    intro m hm
    rw [node?_insertNode h.wf, if_neg hm]
  have hne : ∀ {m}, m < g.nextNode → m ≠ p.graph.nextNode := fun hm =>
    Nat.ne_of_lt (Nat.lt_of_lt_of_le hm h.revises.next_le)
  refine
    { h with
      wf := h.wf.insertNode hk place
      faces := ?_
      revises := h.revises.insertNode h.base h.wf kind place
      created_ge := ?_
      created := ?_
      removed := ?_
      constants := ?_ }
  · intro m hm
    have hlt : m < g.nextNode := by
      rcases hm with rfl | rfl
      · exact h.base.entry_lt
      · exact h.base.exit_lt
    exact (hold (hne hlt)).trans (h.faces m hm)
  · intro m hm
    rcases List.mem_append.1 hm with hm | hm
    · exact h.created_ge m hm
    · rw [List.mem_singleton.1 hm]
      exact h.revises.next_le
  · intro m hle hm
    by_cases hmn : m = p.graph.nextNode
    · exact List.mem_append_right _ (List.mem_singleton.2 hmn)
    · change (p.graph.insertNode kind place).2.hasNode m = true at hm
      rw [hasNode, hold hmn] at hm
      exact List.mem_append_left _ (h.created m hle hm)
  · intro m hm hnot
    change (p.graph.insertNode kind place).2.hasNode m = false at hnot
    rw [hasNode, hold (hne (h.base.lt_nextNode hm))] at hnot
    exact h.removed m hm hnot
  · intro m node node' hnode hnode'
    change (p.graph.insertNode kind place).2.node? m = some node' at hnode'
    rw [hold (hne (h.base.lt_nextNode (hasNode_iff.2 ⟨node, hnode⟩)))] at hnode'
    exact h.constants m node node' hnode hnode'

/-- A link is made into a new node, or into a free input. -/
theorem relinked (h : Frame g free loose p) {source : OutputRef} {target : InputRef}
    (hwf : (p.graph.relinked source target).WellFormed)
    (htarget : g.nextNode ≤ target.node ∨ free target) :
    Frame g free loose { p with graph := p.graph.relinked source target } :=
  { h with wf := hwf, revises := h.revises.relinked htarget }

/-- A node is removed with its links, and recorded. -/
theorem without (h : Frame g free loose p) (hface : n ≠ entry ∧ n ≠ exit) :
    Frame g free loose { p with
      graph := p.graph.without n
      report := { p.report with removed := p.report.removed ++ [n] } } := by
  refine
    { h with
      wf := h.wf.without hface.1 hface.2
      faces := ?_
      revises := h.revises.without n
      created := fun m hle hm => h.created m hle (hasNode_without.1 hm).1
      removed := ?_
      constants := ?_ }
  · intro m hm
    have hne : m ≠ n := by
      rintro rfl
      exact hm.elim hface.1 hface.2
    change (p.graph.without n).node? m = g.node? m
    rw [node?_without, if_neg hne, h.faces m hm]
  · intro m hm hnot
    by_cases hmn : m = n
    · exact List.mem_append_right _ (List.mem_singleton.2 hmn)
    · refine List.mem_append_left _ (h.removed m hm (Bool.eq_false_iff.2 fun hhas => ?_))
      exact Bool.false_ne_true (hnot.symm.trans (hasNode_without.2 ⟨hhas, hmn⟩))
  · intro m node node' hnode hnode'
    change (p.graph.without n).node? m = some node' at hnode'
    rw [node?_without] at hnode'
    split at hnode'
    · cases hnode'
    · exact h.constants m node node' hnode hnode'

/-- The constants of a node are settled once it is recorded as updated. -/
theorem record_updated (h : Frame g free (fun m => loose m ∨ m = n) p) :
    Frame g free loose
      { p with report := { p.report with updated := p.report.updated ++ [n] } } :=
  { h with
    constants := fun m node node' hnode hnode' => by
      rcases h.constants m node node' hnode hnode' with hc | hc | hc | hc
      · exact Or.inl hc
      · exact Or.inr (Or.inl (List.mem_append_left _ hc))
      · exact Or.inr (Or.inr hc)
      · exact Or.inr (Or.inl (List.mem_append_right _ (List.mem_singleton.2 hc))) }

/-- A node is remembered for a tag. -/
theorem remember (h : Frame g free loose p) (hface : n ≠ entry ∧ n ≠ exit) (t : Tag) :
    Frame g free loose { p with cache := (t, n) :: p.cache } :=
  { h with
    cached := fun t' m hm => by
      rcases List.mem_cons.1 hm with hm | hm
      · cases hm
        exact hface
      · exact h.cached t' m hm }

/-- The node that a pass finds for a tag is none of the interface. -/
theorem ne_faces_of_find? (h : Frame g free loose p) {t : Tag} (hfind : p.find? t = some n) :
    n ≠ entry ∧ n ≠ exit := by
  rcases cached_or_tagged hfind with ⟨hmem, -⟩ | htagged
  · exact h.cached t n hmem
  obtain ⟨node, hnode, htag⟩ := h.wf.node?_of_byTag? htagged
  refine not_or.1 fun hface => ?_
  rw [h.untagged n node hface ((h.faces n hface).symm.trans hnode)] at htag
  cases htag

end Frame

/-! ## Operations -/

/-- An operation keeps the frame. When it fails, constants may be half-way changed. -/
def Framed (g : Graph) (free : InputRef → Prop) (loose : NodeId → Prop) {ε α : Type}
    (x : PassM ε α) : Prop :=
  Ensures (Frame g free loose) x (fun _ => Frame g free loose)
    fun _ => Frame g free fun _ => True

variable {ε ε' α β : Type} {x : PassM ε α}

namespace Framed

theorem pure (a : α) : Framed g free loose (Pure.pure a : PassM ε α) := Ensures.pure fun _ h => h

theorem bind {f : α → PassM ε β} (hx : Framed g free loose x)
    (hf : ∀ a, Framed g free loose (f a)) : Framed g free loose (x >>= f) :=
  Ensures.bind hx hf

theorem get {f : Pass → PassM ε β} (hf : ∀ p, Framed g free loose (f p)) :
    Framed g free loose (MonadState.get >>= f) :=
  Ensures.get fun p hp q hq => by
    subst hq
    exact hf q q hp

theorem read {f : Graph → Except ε α} : Framed g free loose (Pass.read f) :=
  Ensures.read (fun _ _ h _ => h) fun _ _ h _ => h.failed

theorem adaptExcept (hx : Framed g free loose x) (f : ε → ε') :
    Framed g free loose (x.adaptExcept f) :=
  Ensures.adaptExcept hx

end Framed

/-- A node gets another name, place or owner. -/
theorem framed_modifyNode {f : Node → Node} (hf : ∀ node, (f node).Alike node)
    (hin : ∀ node, (f node).inputs = node.inputs) (hface : n ≠ entry ∧ n ≠ exit)
    (hname : n < g.nextNode → ∀ node, (f node).name = node.name ∧ (f node).tag = node.tag) :
    Framed g free loose (edit (GraphM.modifyNode n f)) := by
  refine Ensures.edit_ (fun p g' h hr => ?_) fun _ _ h _ => h.failed
  obtain ⟨-, rfl⟩ := modifyNode_eq_ok.1 hr
  exact h.updateNode (h.wf.updateNode_of_inputs hf hin) hf hface hname fun _ => Or.inl hin

theorem framed_markAutomated (hface : n ≠ entry ∧ n ≠ exit) :
    Framed g free loose (edit (GraphM.markAutomated n)) :=
  framed_modifyNode (fun _ => ⟨rfl, rfl, rfl, rfl⟩) (fun _ => rfl) hface fun _ _ => ⟨rfl, rfl⟩

/-- What `setDefault` does to the frame, where constants may change. -/
theorem Frame.setDefault {i : InputRef} {v : Value} {g' : Graph} (h : Frame g free loose p)
    (hface : i.node ≠ entry ∧ i.node ≠ exit) (hloose : i.node < g.nextNode → loose i.node)
    (hr : p.graph.setDefault i v = .ok g') : Frame g free loose { p with graph := g' } := by
  obtain ⟨s, -, -, rfl⟩ := setDefault_eq_ok.1 hr
  exact h.updateNode (h.wf.putDefault i v) (putDefault_alike i.index v) hface
    (fun _ _ => ⟨rfl, rfl⟩) fun hlt => Or.inr (hloose hlt)

/-- `hold` changes the constants of its node only if it says so. -/
theorem ensures_hold {i : InputRef} (hface : i.node ≠ entry ∧ i.node ≠ exit) (v : Value) :
    Ensures (Frame g free loose) (hold i v)
      (fun changed => Frame g free fun m => loose m ∨ (changed = true ∧ m = i.node))
      fun _ => Frame g free fun _ => True := by
  refine Ensures.bind (Q := fun _ => Frame g free loose) Framed.read fun v => ?_
  refine Ensures.get fun p hp => ?_
  by_cases hsame : p.graph.default? i == some v
  · rw [if_pos hsame]
    refine Ensures.pure fun q hq => ?_
    subst hq
    exact hp.loosen fun _ h => Or.inl h
  · rw [if_neg hsame]
    refine Ensures.bind (Q := fun _ => Frame g free fun m => loose m ∨ (true = true ∧ m = i.node))
      (Ensures.edit_ (fun q g' hq hr => ?_) fun q e hq _ => ?_) fun _ => Ensures.pure fun _ h => h
    · subst hq
      exact (hp.loosen fun _ h => Or.inl h).setDefault hface (fun _ => Or.inr ⟨rfl, rfl⟩) hr
    · subst hq
      exact hp.failed

/-- So does `refresh`. -/
theorem ensures_refresh (hface : n ≠ entry ∧ n ≠ exit) (operands : List Operand) :
    Ensures (Frame g free loose) (refresh n 0 operands)
      (fun changed => Frame g free fun m => loose m ∨ (changed = true ∧ m = n))
      fun _ => Frame g free fun _ => True := by
  refine (Ensures.refresh (P := fun _ c => Frame g free fun m => loose m ∨ (c = true ∧ m = n))
    (fun _ _ _ _ _ h => h) fun k v _ c => ?_).weaken (fun _ h => h.loosen fun _ h => Or.inl h)
    (fun _ _ h => h) fun _ _ h => h
  refine (ensures_hold hface v).weaken (fun _ h => h) (fun changed p h => h.loosen fun m hm => ?_)
    fun _ _ h => h
  rcases hm with (hm | ⟨hc, hm⟩) | ⟨hc, hm⟩
  · exact Or.inl hm
  · exact Or.inr ⟨by rw [hc, Bool.true_or], hm⟩
  · exact Or.inr ⟨by rw [hc, Bool.or_true], hm⟩

theorem framed_touch (n : NodeId) : Framed g free loose (touch n : PassM ε Unit) :=
  Ensures.modify fun _ h => h.congr rfl rfl rfl rfl rfl

/-- **A node is used again** with at most its constants changed, and that is recorded. -/
theorem framed_reuse (hface : n ≠ entry ∧ n ≠ exit) (operands : List Operand) :
    Framed g free loose (reuse n operands) := by
  refine Ensures.bind (ensures_refresh hface operands) fun changed => ?_
  refine Ensures.bind (framed_markAutomated hface) fun _ => ?_
  refine Ensures.bind (framed_touch n) fun _ => ?_
  refine Ensures.bind (Q := fun _ => Frame g free loose) (Ensures.record fun p h => ?_)
    fun _ => Ensures.pure fun _ h => h
  cases changed with
  | true => exact (h.loosen fun m hm => hm.imp_right And.right).record_updated
  | false =>
    have hkept : Frame g free loose p := h.loosen fun m hm => hm.resolve_right fun hc => by cases hc.1
    exact hkept.congr rfl rfl rfl rfl rfl

/-- A node is connected while it is new. -/
theorem framed_connect (hn : g.nextNode ≤ n) (operands : List Operand) :
    Framed g free loose (connect n 0 operands) := by
  refine Ensures.connect (fun k o _ => ?_) (fun _ _ h => h.congr rfl rfl rfl rfl rfl) fun k v _ =>
    ⟨fun _ => Frame g free loose, Framed.read, fun w => ?_⟩
  · refine Ensures.edit (fun p id g' h hr => ?_) fun _ _ h _ => h.failed
    obtain ⟨hsource, htarget, hfeeds, -, rfl⟩ := h.wf.link_eq_ok.1 hr
    exact h.relinked (h.wf.relinked hsource htarget hfeeds) (Or.inl hn)
  · refine Ensures.edit_ (fun p g' h hr => ?_) fun _ _ h _ => h.failed
    exact h.setDefault (h.base.ne_faces_of_le hn) (fun hlt => absurd hlt (Nat.not_lt.2 hn)) hr

theorem framed_setActive (m : Option NodeId) :
    Framed g free loose (edit (GraphM.setActive m)) := by
  refine Ensures.edit_ (fun p g' h hr => ?_) fun _ _ h _ => h.failed
  cases hr
  exact h.setActive _

theorem framed_remember (hface : n ≠ entry ∧ n ≠ exit) (t : Tag) :
    Framed g free loose (remember t n : PassM ε Unit) :=
  Ensures.modify fun _ h => h.remember hface t

/-- **A node is made**, recorded and connected. -/
theorem framed_create (hg : g.WellFormed) (t : Tag) (kind : NodeKind) (operands : List Operand) :
    Framed g free loose (create t kind operands) := by
  -- the node is in the frame once it is recorded
  refine Ensures.bind (Q := fun n p => g.nextNode ≤ n ∧ Frame g free loose
    { p with report := { p.report with created := p.report.created ++ [n] } })
    (Ensures.edit (fun p n g' h hr => ?_) fun _ _ h _ => h.failed) fun n => ?_
  · obtain ⟨hk, rfl, rfl⟩ := createNode_eq_ok.1 hr
    exact ⟨h.revises.next_le, h.insertNode hk _⟩
  by_cases hn : g.nextNode ≤ n
  · have hface := hg.ne_faces_of_le hn
    have hnew : ∀ {P : Prop}, n < g.nextNode → P := fun hlt => absurd hlt (Nat.not_lt.2 hn)
    refine Ensures.bind (Q := fun _ => Frame g free loose) (Ensures.record fun _ h => h.2) fun _ => ?_
    refine Framed.bind (framed_touch n) fun _ => Framed.get fun p => ?_
    refine Framed.bind (framed_modifyNode (fun _ => ⟨rfl, rfl, rfl, rfl⟩) (fun _ => rfl) hface
      hnew) fun _ => ?_
    refine Framed.bind (framed_modifyNode (fun _ => ⟨rfl, rfl, rfl, rfl⟩) (fun _ => rfl) hface
      hnew) fun _ => ?_
    refine Framed.bind (framed_connect hn operands) fun _ => ?_
    refine Framed.bind (framed_markAutomated hface) fun _ => ?_
    refine Framed.bind (framed_setActive (some n)) fun _ => ?_
    exact Framed.bind (framed_remember hface t) fun _ => Framed.pure n
  · exact fun p h => absurd h.1 hn

/-- **The node of a tag is found or made in the frame.** -/
theorem framed_findOrCreate (hg : g.WellFormed) (t : Tag) (kind : NodeKind)
    (operands : List Operand) : Framed g free loose (findOrCreate t kind operands) := by
  by_cases hlen : operands.length = kind.inputs.length
  swap
  · rw [findOrCreate, if_pos hlen]
    exact fun p h => h.failed
  intro p hp
  have hknown : ∀ n, p.find? t = some n → (n ≠ entry ∧ n ≠ exit) ∧
      Frame g free loose { p with cache := (t, n) :: p.cache } := by
    intro n hfind
    have hface := hp.ne_faces_of_find? hfind
    exact ⟨hface, hp.remember hface t⟩
  refine Ensures.findOrCreate hlen (fun _ => ?_) (fun n hfind _ => ?_)
    (fun n e hfind _ _ => (hknown n hfind).2.failed) (fun n g' hfind _ hremove => ?_) p rfl
  · exact (framed_create hg t kind operands).weaken (fun q hq => hq ▸ hp) (fun _ _ h => h)
      fun _ _ h => h
  · obtain ⟨hface, hknown⟩ := hknown n hfind
    exact (framed_reuse hface operands).weaken (fun q hq => hq ▸ hknown) (fun _ _ h => h)
      fun _ _ h => h
  · obtain ⟨-, -, -, rfl⟩ := removeNode_eq_ok.1 hremove
    refine (framed_create hg t kind operands).weaken (fun q hq => ?_) (fun _ _ h => h)
      fun _ _ h => h
    subst hq
    have h := hp.without (hknown n hfind).1
    exact { h with cached := fun t' m hm => h.cached t' m (List.mem_of_mem_filter hm) }

/-- An output is linked into an input, which is free from then on. A refused link
changes nothing. -/
theorem ensures_linkOutput {target : InputRef} (source : OutputRef) :
    Ensures (Frame g (fun _ => False) loose) (linkOutput source target)
      (fun _ => Frame g (· = target) loose) fun _ => Frame g (fun _ => False) fun _ => True := by
  have hwider : ∀ p, Frame g (fun _ => False) loose p → Frame g (· = target) loose p :=
    fun p h => h.release fun _ => False.elim
  refine Ensures.get fun p hp => ?_
  split
  · rintro q rfl
    exact hwider q hp
  · refine Ensures.bind (Q := fun _ => Frame g (· = target) loose)
      (Ensures.edit (fun q id g' hq hr => ?_) fun q e hq _ => ?_) fun _ => ?_
    · subst hq
      obtain ⟨hsource, htarget, hfeeds, -, rfl⟩ := hp.wf.link_eq_ok.1 hr
      exact (hwider q hp).relinked (hp.wf.relinked hsource htarget hfeeds) (Or.inr rfl)
    · subst hq
      exact hp.failed
    · exact Ensures.bind (Q := fun _ => Frame g (· = target) loose)
        (Ensures.record fun _ h => h.congr rfl rfl rfl rfl rfl) fun _ => Ensures.pure fun _ h => h

theorem framed_tagFor [TagDigest] (function : String) (operands : List Operand) :
    Framed g free loose (tagFor function operands : PassM ε Tag) :=
  Framed.get fun _ _ h => h.congr rfl rfl rfl rfl rfl

end Pass

end NodeFormula
