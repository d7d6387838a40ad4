import NodeFormula.Proofs.Graph.Trimmed
import NodeFormula.Proofs.Pass.Ensures
import NodeFormula.Proofs.Pass.Lookup
/-!
# NodeFormula — what a request does to the nodes of a graph

The outline of a node is all that there is to it but its constants and its owner. Most
operations of a pass leave every outline as it is (`Pass.Tuned`). A request for the node of a
tag adds one outline at most, after it has taken away at most one: that of the node that carries
the tag but is of another kind. `Pass.Comes` lists what can come of a request, failed ones
included, in any well-formed graph (`comes_findOrCreate`).
-/

namespace NodeFormula

open Relation

/-- A node apart from the constants it holds and from who owns it. -/
def Node.outline (node : Node) : Node :=
  { node with inputs := Graph.freshSockets (node.inputs.map Socket.spec), automated := false }

namespace Graph

variable {g g' : Graph} {n m : NodeId} {node o : Node} {kind : NodeKind} {t : Tag}

/-- The outlines of all nodes, in order of creation. -/
def outlines (g : Graph) : List Node := g.nodes.map Node.outline

/-! ## Reading outlines -/

theorem outline_mem (h : g.node? n = some node) : node.outline ∈ g.outlines ∧ node.outline.id = n :=
  ⟨List.mem_map_of_mem (mem_of_node? h).1, (mem_of_node? h).2⟩

theorem WellFormed.node?_of_mem_outlines (hg : g.WellFormed) (h : o ∈ g.outlines) :
    ∃ node, g.node? o.id = some node ∧ node.outline = o := by
  obtain ⟨node, hnode, rfl⟩ := List.mem_map.1 h
  exact ⟨node, hg.node?_eq hnode, rfl⟩

theorem hasNode_iff_outlines : g.hasNode n ↔ ∃ o ∈ g.outlines, o.id = n := by
  rw [hasNode, node?, List.find?_isSome]
  simp [outlines, Node.outline]

theorem WellFormed.outlines_inj (hg : g.WellFormed) {o' : Node} (h : o ∈ g.outlines)
    (h' : o' ∈ g.outlines) (hid : o.id = o'.id) : o = o' := by
  obtain ⟨node, hnode, rfl⟩ := List.mem_map.1 h
  obtain ⟨node', hnode', rfl⟩ := List.mem_map.1 h'
  rw [List.inj_on_of_nodup_map hg.ids_nodup hnode hnode' hid]

theorem WellFormed.outlines_lt (hg : g.WellFormed) (h : o ∈ g.outlines) : o.id < g.nextNode := by
  obtain ⟨node, hnode, rfl⟩ := List.mem_map.1 h
  exact hg.id_lt node hnode

theorem WellFormed.kind?_eq_some (hg : g.WellFormed) :
    g.kind? n = some kind ↔ ∃ o ∈ g.outlines, o.id = n ∧ o.kind = kind := by
  constructor
  · intro h
    obtain ⟨node, hnode, hkind⟩ := Option.map_eq_some_iff.1 h
    exact ⟨node.outline, (outline_mem hnode).1, (outline_mem hnode).2, hkind⟩
  · rintro ⟨o, ho, rfl, rfl⟩
    obtain ⟨node, hnode, rfl⟩ := hg.node?_of_mem_outlines ho
    rw [kind?, hnode, Option.map_some]
    rfl

/-- The node of a tag is there and carries it. -/
theorem mem_outlines_of_byTag? (h : g.byTag? t = some n) :
    ∃ o ∈ g.outlines, o.id = n ∧ o.tag = some t := by
  obtain ⟨a, ha, rfl, htag⟩ := mem_of_byTag? h
  exact ⟨a.outline, List.mem_map_of_mem ha, rfl, htag⟩

/-! ## What edits do to outlines -/

theorem outlines_updateNode {f : Node → Node} (hf : ∀ node, (f node).outline = node.outline) :
    (g.updateNode n f).outlines = g.outlines := by
  rw [outlines, updateNode, List.map_map]
  refine List.map_congr_left fun node _ => ?_
  rw [Function.comp_apply]
  split
  · exact hf node
  · rfl

theorem outline_putDefault (index : Nat) (v : Value) (node : Node) :
    (putDefault index v node).outline = node.outline := by
  rw [Node.outline, (putDefault_alike index v node).inputs]
  rfl

theorem outlines_without (g : Graph) (n : NodeId) :
    (g.without n).outlines = g.outlines.filter (·.id != n) := by
  rw [outlines, outlines, List.filter_map]
  rfl

theorem outlines_insertNode (g : Graph) (kind : NodeKind) (place : Place) :
    (g.insertNode kind place).2.outlines = g.outlines ++ [(g.madeNode kind place).outline] := by
  rw [outlines, outlines, ← List.map_singleton, ← List.map_append]
  rfl

/-- A change of the last node alone, if the others have other identifiers. -/
theorem outlines_updateNode_last {f : Node → Node} {os : List Node}
    (hf : ∀ node, (f node).outline = f node.outline) (ho : o.id = n)
    (hos : ∀ o ∈ os, o.id ≠ n) (h : g.outlines = os ++ [o]) :
    (g.updateNode n f).outlines = os ++ [f o] := by
  have hmap : (g.updateNode n f).outlines =
      g.outlines.map fun o => if o.id = n then f o else o := by
    rw [outlines, outlines, updateNode, List.map_map, List.map_map]
    refine List.map_congr_left fun node _ => ?_
    change (if node.id = n then f node else node).outline
      = if node.id = n then f node.outline else node.outline
    split
    · exact hf node
    · rfl
  have hothers : (os.map fun o => if o.id = n then f o else o) = os :=
    (List.map_congr_left fun o ho => if_neg (hos o ho)).trans (List.map_id' os)
  rw [hmap, h, List.map_append, List.map_singleton, if_pos ho, hothers]

end Graph

namespace Pass

open Graph

variable {ε α β : Type} {p q r : Pass} {t : Tag} {kind : NodeKind} {n : NodeId} {x : PassM ε α}

/-! ## Operations that leave outlines as they are -/

/-- **A later pass with the same outlines**, in which links and constants may differ. -/
structure Tuned (p q : Pass) : Prop where
  wf : p.graph.WellFormed → q.graph.WellFormed
  outlines : q.graph.outlines = p.graph.outlines
  nextNode : q.graph.nextNode = p.graph.nextNode
  same : q = { p with
    graph := q.graph
    report := { p.report with linksCreated := q.report.linksCreated } }

theorem Tuned.refl (p : Pass) : Tuned p p := ⟨id, rfl, rfl, rfl⟩

theorem Tuned.trans (h : Tuned p q) (h' : Tuned q r) : Tuned p r where
  wf := h'.wf ∘ h.wf
  outlines := h'.outlines.trans h.outlines
  nextNode := h'.nextNode.trans h.nextNode
  same := by
    have hq := h.same
    have hr := h'.same
    rw [hq] at hr
    exact hr

/-- An edit of the graph that leaves the outlines as they are. -/
theorem Tuned.of_graph {g' : Graph} (hwf : p.graph.WellFormed → g'.WellFormed)
    (houtlines : g'.outlines = p.graph.outlines) (hnext : g'.nextNode = p.graph.nextNode) :
    Tuned p { p with graph := g' } := ⟨hwf, houtlines, hnext, rfl⟩

/-- **An operation that leaves the outlines as they are**, also when it fails. -/
def Tuning (x : PassM ε α) : Prop :=
  ∀ p, Ensures (Tuned p) x (fun _ => Tuned p) fun _ => Tuned p

namespace Tuning

theorem pure (a : α) : Tuning (Pure.pure a : PassM ε α) := fun _ => Ensures.pure fun _ h => h

theorem bind {f : α → PassM ε β} (hx : Tuning x) (hf : ∀ a, Tuning (f a)) : Tuning (x >>= f) :=
  fun p => Ensures.bind (hx p) fun a => hf a p

theorem get {f : Pass → PassM ε β} (hf : ∀ p, Tuning (f p)) : Tuning (MonadState.get >>= f) :=
  fun p => Ensures.get fun q hq q' hq' => by
    subst hq'
    exact hf q' p q' hq

theorem read {f : Graph → Except ε α} : Tuning (Pass.read f) :=
  fun _ => Ensures.read (fun _ _ h _ => h) fun _ _ h _ => h

theorem countLink : Tuning
    (Pass.record fun r => { r with linksCreated := r.linksCreated + 1 } : PassM ε Unit) :=
  fun _ => Ensures.record fun _ h => h.trans ⟨id, rfl, rfl, rfl⟩

theorem edit {m : GraphM α} [m.Atomic]
    (hm : ∀ p : Pass, ∀ a g', m.outcome p.graph = .ok (a, g') → Tuned p { p with graph := g' }) :
    Tuning (Pass.edit m) :=
  fun _ => Ensures.edit (fun q a _ h hr => h.trans (hm q a _ hr)) fun _ _ h _ => h

theorem edit_ {m : GraphM Unit} [m.Atomic]
    (hm : ∀ p : Pass, ∀ g', m.after p.graph = .ok g' → Tuned p { p with graph := g' }) :
    Tuning (Pass.edit m) :=
  fun _ => Ensures.edit_ (fun q _ h hr => h.trans (hm q _ hr)) fun _ _ h _ => h

theorem adaptExcept (hx : Tuning x) {ε' : Type} (f : ε → ε') : Tuning (x.adaptExcept f) :=
  fun p => Ensures.adaptExcept (hx p)

/-- What links and constants do not matter to holds after the operation. -/
theorem keeps (hx : Tuning x) {P : Pass → Prop} (hP : ∀ q r, P q → Tuned q r → P r) :
    Ensures P x (fun _ => P) fun _ => P := by
  intro p hp
  have h := hx p p (.refl p)
  cases hr : x p with
  | ok a q => rw [hr] at h; exact hP p q hp h
  | error e q => rw [hr] at h; exact hP p q hp h

end Tuning

theorem tuning_link (source : OutputRef) (target : InputRef) :
    Tuning (edit (GraphM.link source target)) :=
  .edit fun p l g' h => by
    refine .of_graph (fun hp => ?_) ?_ ?_
    · obtain ⟨hsource, htarget, hfeeds, -, rfl⟩ := hp.link_eq_ok.1 h
      exact hp.relinked hsource htarget hfeeds
    all_goals
      obtain ⟨links, rfl⟩ := exists_links_of_link h
      rfl

theorem tuning_unlink (id : LinkId) : Tuning (edit (GraphM.unlink id)) :=
  .edit_ fun p g' h => by
    refine .of_graph (fun hp => hp.unlink h) ?_ ?_
    all_goals
      obtain ⟨-, rfl⟩ := unlink_eq_ok.1 h
      rfl

theorem tuning_setDefault (i : InputRef) (v : Value) : Tuning (edit (GraphM.setDefault i v)) :=
  .edit_ fun p g' h => by
    obtain ⟨s, -, -, rfl⟩ := setDefault_eq_ok.1 h
    exact .of_graph (fun hp => hp.putDefault i v)
      (outlines_updateNode (outline_putDefault i.index v)) rfl

theorem tuning_markAutomated (n : NodeId) : Tuning (edit (GraphM.markAutomated n)) :=
  .edit_ fun p g' h => by
    obtain ⟨-, rfl⟩ := modifyNode_eq_ok.1 h
    exact .of_graph (fun hp => hp.updateNode_of_inputs (fun _ => ⟨rfl, rfl, rfl, rfl⟩) fun _ => rfl)
      (outlines_updateNode fun _ => rfl) rfl

theorem tuning_setActive (n : Option NodeId) : Tuning (edit (GraphM.setActive n)) :=
  .edit_ fun p g' h => by
    cases h
    exact .of_graph (fun hp => hp.setActive n) rfl rfl

theorem tuning_hold (i : InputRef) (v : Value) : Tuning (hold i v) := by
  refine .bind .read fun w => .get fun p => ?_
  split
  · exact .pure false
  · exact .bind (tuning_setDefault i w) fun _ => .pure true

theorem tuning_refresh (n : NodeId) (args : List Operand) : Tuning (refresh n 0 args) :=
  fun p => Ensures.refresh (P := fun _ _ => Tuned p) (fun _ _ _ _ _ h => h)
    fun _ v _ _ => tuning_hold _ v p

theorem tuning_connect (n : NodeId) (args : List Operand) : Tuning (connect n 0 args) :=
  fun p => Ensures.connect (fun _ o _ => tuning_link o _ p)
    (fun _ _ h => h.trans ⟨id, rfl, rfl, rfl⟩) fun _ _ _ => ⟨fun _ => Tuned p, Tuning.read p,
      fun w => tuning_setDefault _ w p⟩

theorem tuning_linkOutput (source : OutputRef) (target : InputRef) :
    Tuning (linkOutput source target) := by
  refine .get fun p => ?_
  split
  · exact .pure false
  · exact .bind (tuning_link source target) fun _ => .bind .countLink fun _ => .pure true

theorem tuning_setConstant (i : InputRef) (v : Value) : Tuning (setConstant i v) := by
  refine .bind (.get fun p => ?_) fun _ => .bind (tuning_hold i v) fun _ => .pure _
  cases p.graph.incoming? i with
  | none => exact .pure false
  | some l => exact .bind (tuning_unlink l.id) fun _ => .pure true

/-! ## New nodes -/

/-- The nodes that a pass has used, with one more. -/
def touching (p : Pass) (n : NodeId) : List NodeId :=
  if p.touched.contains n then p.touched else n :: p.touched

theorem mem_touching {m : NodeId} : m ∈ p.touching n ↔ m = n ∨ m ∈ p.touched := by
  rw [touching]
  split
  · rename_i h
    exact ⟨Or.inr, fun hm => hm.elim (fun heq => heq ▸ List.contains_iff_mem.1 h) id⟩
  · exact List.mem_cons

/-- **A pass has made a node for a tag**, the last of all, and recorded it. It need not have
got as far as remembering it. -/
structure Made (t : Tag) (kind : NodeKind) (p q : Pass) : Prop where
  wf : q.graph.WellFormed
  outlines : ∃ o : Node, o.id = p.graph.nextNode ∧ o.kind = kind ∧ o.tag = some t ∧
    q.graph.outlines = p.graph.outlines ++ [o]
  nextNode : q.graph.nextNode = p.graph.nextNode + 1
  cache : q.cache ⊆ (t, p.graph.nextNode) :: p.cache
  same : q = { p with
    graph := q.graph
    cache := q.cache
    touched := p.touching p.graph.nextNode
    report := { p.report with
      created := p.report.created ++ [p.graph.nextNode]
      linksCreated := q.report.linksCreated } }

theorem Made.tuned (h : Made t kind p q) (h' : Tuned q r) : Made t kind p r where
  wf := h'.wf h.wf
  outlines := by
    obtain ⟨o, hid, hkind, htag, houtlines⟩ := h.outlines
    exact ⟨o, hid, hkind, htag, h'.outlines.trans houtlines⟩
  nextNode := h'.nextNode.trans h.nextNode
  cache := by
    rw [h'.same]
    exact h.cache
  same := by
    have hq := h.same
    have hr := h'.same
    rw [hq] at hr
    rw [hr]

theorem Made.remember (h : Made t kind p q) :
    Made t kind p { q with cache := (t, p.graph.nextNode) :: q.cache } where
  wf := h.wf
  outlines := h.outlines
  nextNode := h.nextNode
  cache := List.cons_subset.2 ⟨List.mem_cons_self, h.cache⟩
  same := by
    have hq := h.same
    rw [hq]

/-- **Making a node** adds it, or changes nothing where the kind is one of the interface. -/
theorem ensures_made (hp : p.graph.WellFormed) (args : List Operand) :
    Ensures (· = p) (create t kind args) (fun n q => n = p.graph.nextNode ∧ Made t kind p q)
      fun _ q => q = p ∨ Made t kind p q := by
  let n := p.graph.nextNode
  let g₁ := (p.graph.insertNode kind ⟨0, 0⟩).2
  let p₁ : Pass := { p with
    graph := g₁
    touched := p.touching n
    report := { p.report with created := p.report.created ++ [n] } }
  refine Ensures.bind (Q := fun m q => kind.isInterface = false ∧ m = n ∧ q = { p with graph := g₁ })
    (Ensures.edit (fun q m g' hq hr => ?_) fun q e hq _ => Or.inl hq) fun m => ?_
  · subst hq
    obtain ⟨hk, rfl, rfl⟩ := createNode_eq_ok.1 hr
    exact ⟨hk, rfl, rfl⟩
  rintro q ⟨hk, rfl, rfl⟩
  have hhas : g₁.hasNode n := by
    rw [hasNode, node?_insertNode hp, if_pos rfl]
    rfl
  have hold : ∀ o ∈ p.graph.outlines, o.id ≠ n := fun o ho => Nat.ne_of_lt (hp.outlines_lt ho)
  refine Ensures.bind (P := (· = { p with graph := g₁ })) (Q := fun _ q => q = { p with
      graph := g₁, report := { p.report with created := p.report.created ++ [n] } })
    (Ensures.record fun q hq => by rw [hq]) (fun _ => ?_) _ rfl
  refine Ensures.bind (Q := fun _ q => q = p₁) (Ensures.modify fun q hq => by rw [hq]; rfl)
    fun _ => Ensures.get fun q hq => ?_
  subst hq
  let moved := fun node : Node => { node with place := p₁.nextPlace }
  let tagged := fun node : Node => { node with tag := some t, name := t.text, label := t.text }
  refine Ensures.bind (Q := fun _ q => q = { p₁ with graph := g₁.updateNode n moved })
    (Ensures.edit_succeeds fun q hq => ⟨_, modifyNode_eq_ok.2 ⟨hq ▸ hhas, rfl⟩, by rw [hq]⟩)
    fun _ => ?_
  -- the node counts as made when it has got its tag
  refine Ensures.bind (Q := fun _ => Made t kind p) (Ensures.edit_succeeds fun q hq => ?_)
    fun _ => ?_
  · subst hq
    have hkeepsId : KeepsId moved := fun _ => rfl
    have hhas' : (g₁.updateNode n moved).hasNode n := by
      rw [hasNode_updateNode hkeepsId]
      exact hhas
    refine ⟨(g₁.updateNode n moved).updateNode n tagged, modifyNode_eq_ok.2 ⟨hhas', rfl⟩, ?_⟩
    have hwf : (g₁.updateNode n moved).WellFormed :=
      (hp.insertNode hk _).updateNode_of_inputs (fun _ => ⟨rfl, rfl, rfl, rfl⟩) fun _ => rfl
    have hmoved := outlines_updateNode_last (f := moved) (fun _ => rfl) rfl hold
      (outlines_insertNode p.graph kind ⟨0, 0⟩)
    have htagged := outlines_updateNode_last (f := tagged) (fun _ => rfl) rfl hold hmoved
    exact
      { wf := hwf.updateNode_of_inputs (fun _ => ⟨rfl, rfl, rfl, rfl⟩) fun _ => rfl
        outlines := ⟨_, rfl, rfl, rfl, htagged⟩
        nextNode := rfl
        cache := List.subset_cons_self _ _
        same := rfl }
  have hkeeps : ∀ {α : Type} {x : PassM GraphError α}, Tuning x →
      Ensures (Made t kind p) x (fun _ => Made t kind p) fun _ q => q = p ∨ Made t kind p q :=
    fun hx => (hx.keeps fun _ _ => Made.tuned).weaken (fun _ h => h) (fun _ _ h => h)
      fun _ _ => Or.inr
  refine Ensures.bind (hkeeps (tuning_connect n args)) fun _ => ?_
  refine Ensures.bind (hkeeps (tuning_markAutomated n)) fun _ => ?_
  refine Ensures.bind (hkeeps (tuning_setActive (some n))) fun _ => ?_
  exact Ensures.bind (Q := fun _ => Made t kind p) (Ensures.modify fun q hq => hq.remember)
    fun _ => Ensures.pure fun q hq => ⟨rfl, hq⟩

/-! ## Requests -/

/-- The pass that remembers a node. -/
def remembering (t : Tag) (n : NodeId) (p : Pass) : Pass := { p with cache := (t, n) :: p.cache }

/-- The pass that has given up the node of a tag. -/
def dropping (t : Tag) (n : NodeId) (p : Pass) : Pass :=
  { p with
    graph := p.graph.without n
    cache := p.cache.filter (·.1 != t)
    report := { p.report with removed := p.report.removed ++ [n] } }

/-- **A pass has used a node again**, with other constants or with the same. -/
def reusing (n : NodeId) (changed : Bool) (p : Pass) : Pass :=
  { p with
    touched := p.touching n
    report :=
      if changed then { p.report with updated := p.report.updated ++ [n] }
      else { p.report with reused := p.report.reused ++ [n] } }

theorem removed_reusing {changed : Bool} :
    (p.reusing n changed).report.removed = p.report.removed := by
  cases changed <;> rfl

/-- The node of a tag is to be made: there is none, or it was of another kind and is gone. -/
inductive Cleared (t : Tag) (kind : NodeKind) (p : Pass) : Pass → Prop where
  | none (hfind : p.find? t = none) : Cleared t kind p p
  | dropped {n : NodeId} (hfind : p.find? t = some n) (hkind : p.graph.kind? n ≠ some kind)
    (hface : n ≠ entry ∧ n ≠ exit) (hhas : p.graph.hasNode n) : Cleared t kind p (p.dropping t n)

/-- **What comes of a request for the node of a tag**: a node and the pass from then on, or the
pass that is left when it fails. -/
inductive Comes (t : Tag) (kind : NodeKind) (p : Pass) : Option NodeId → Pass → Prop where
  /-- There are not as many operands as inputs. -/
  | refused : Comes t kind p none p
  /-- A node is found that does not take the constants, or that the graph does not let go. -/
  | stuck {n : NodeId} {q : Pass} (hfind : p.find? t = some n)
    (h : Tuned (p.remembering t n) q) : Comes t kind p none q
  | used {n : NodeId} {q : Pass} (changed : Bool) (hfind : p.find? t = some n)
    (hkind : p.graph.kind? n = some kind) (h : Tuned (p.remembering t n) q) :
    Comes t kind p (some n) (q.reusing n changed)
  /-- No node of the kind can be made. -/
  | unmade {q : Pass} (hclear : Cleared t kind p q) : Comes t kind p none q
  /-- A node is made that may not take its operands. -/
  | made {q r : Pass} {n : Option NodeId} (hclear : Cleared t kind p q) (h : Made t kind q r)
    (hn : ∀ m ∈ n, m = p.graph.nextNode) : Comes t kind p n r

theorem Cleared.wf (h : Cleared t kind p q) (hp : p.graph.WellFormed) : q.graph.WellFormed := by
  cases h with
  | none _ => exact hp
  | dropped _ _ hface _ => exact hp.without hface.1 hface.2

theorem Comes.wf {n : Option NodeId} (h : Comes t kind p n q) (hp : p.graph.WellFormed) :
    q.graph.WellFormed := by
  cases h with
  | refused => exact hp
  | stuck _ h => exact h.wf hp
  | used _ _ _ h => exact h.wf hp
  | unmade hclear => exact hclear.wf hp
  | made _ h _ => exact h.wf

theorem Tuned.derived (h : Tuned p q) : q.derived = p.derived := by
  rw [h.same]

theorem Cleared.derived (h : Cleared t kind p q) : q.derived = p.derived := by
  cases h <;> rfl

theorem Made.derived (h : Made t kind p q) : q.derived = p.derived := by
  rw [h.same]

/-- A request derives no tag. -/
theorem Comes.derived {n : Option NodeId} (h : Comes t kind p n q) : q.derived = p.derived := by
  cases h with
  | refused => rfl
  | stuck _ h => exact h.derived
  | used _ _ _ h => exact h.derived
  | unmade hclear => exact hclear.derived
  | made hclear h _ => exact h.derived.trans hclear.derived

/-- **Using a node again** changes its constants at most. -/
theorem ensures_reuse (n : NodeId) (args : List Operand) :
    Ensures (· = p) (reuse n args)
      (fun m r => m = n ∧ ∃ q changed, Tuned p q ∧ r = q.reusing n changed) fun _ => Tuned p := by
  have hstart : Ensures (· = p) (refresh n 0 args) (fun _ => Tuned p) fun _ => Tuned p :=
    (tuning_refresh n args p).weaken (fun q hq => hq ▸ .refl q) (fun _ _ h => h) fun _ _ h => h
  refine Ensures.bind hstart fun changed => ?_
  refine Ensures.bind (tuning_markAutomated n p) fun _ => ?_
  refine Ensures.bind (Q := fun _ r => ∃ q, Tuned p q ∧ r = { q with touched := q.touching n })
    (Ensures.modify fun q hq => ⟨q, hq, rfl⟩) fun _ => ?_
  refine Ensures.bind (Q := fun _ r => ∃ q, Tuned p q ∧ r = q.reusing n changed)
    (Ensures.record fun r hr => ?_) fun _ => Ensures.pure fun r hr => ?_
  · obtain ⟨q, hq, rfl⟩ := hr
    exact ⟨q, hq, rfl⟩
  · obtain ⟨q, hq, rfl⟩ := hr
    exact ⟨rfl, q, changed, hq, rfl⟩

/-- **What comes of any request**, in a graph that is well formed. -/
theorem comes_findOrCreate (hp : p.graph.WellFormed) (args : List Operand) :
    Ensures (· = p) (findOrCreate t kind args) (fun n q => Comes t kind p (some n) q)
      fun _ q => Comes t kind p none q := by
  by_cases hlen : args.length = kind.inputs.length
  swap
  · rw [findOrCreate, if_pos hlen]
    exact Ensures.throw fun q hq => hq ▸ .refused
  -- a node is made in the pass as it is, or in one that has given up a node of another kind
  have hmake : ∀ q, Cleared t kind p q → q.graph.nextNode = p.graph.nextNode →
      Ensures (· = q) (create t kind args) (fun n r => Comes t kind p (some n) r)
        fun _ r => Comes t kind p none r := by
    intro q hclear hnext
    refine (ensures_made (hclear.wf hp) args).weaken (fun _ h => h) ?_ ?_
    · rintro n r ⟨rfl, hmade⟩
      exact .made hclear hmade fun m hm => (Option.some.inj hm).symm.trans hnext
    · rintro e r (rfl | hmade)
      · exact .unmade hclear
      · exact .made hclear hmade fun m hm => by cases hm
  refine Ensures.findOrCreate hlen (fun hfind => hmake p (.none hfind) rfl) (fun n hfind hkind => ?_)
    (fun n e hfind _ _ => .stuck hfind (.refl _)) fun n g hfind hkind hremove => ?_
  · refine (ensures_reuse n args).weaken (fun _ h => h) ?_ fun _ q hq => .stuck hfind hq
    rintro m r ⟨rfl, q, changed, hq, rfl⟩
    exact .used changed hfind hkind hq
  · obtain ⟨hentry, hexit, hhas, rfl⟩ := removeNode_eq_ok.1 hremove
    exact hmake (p.dropping t n) (.dropped hfind hkind ⟨hentry, hexit⟩ hhas) rfl

end Pass

end NodeFormula
