import NodeFormula.Proofs.Graph.Evaluation
import NodeFormula.Proofs.Pass.Frame
/-!
# NodeFormula — taking a pass back, and pruning

Both remove nodes one after another, so the graph they leave is the old one without these
(`withoutAll`). A pass that is taken back leaves no node that it made
(`rollBack_graph`). Pruning a graph that passes run over removes all it means to
(`prune_eq_ok`) and changes the value of no output, since no output depends on what it removes
(`evaluate_pruned`).
-/

namespace NodeFormula

open Relation

namespace Graph

variable {g g' : Graph} {n m : NodeId} {ns : List NodeId}

/-- A graph that passes run over: it is well formed, and its interface carries no tags. -/
structure Ready (g : Graph) : Prop where
  wf : g.WellFormed
  untagged : ∀ n node, n = entry ∨ n = exit → g.node? n = some node → node.tag = none

theorem Ready.of_faces (h : g.Ready) (hwf : g'.WellFormed)
    (hfaces : ∀ n, n = entry ∨ n = exit → g'.node? n = g.node? n) : g'.Ready :=
  ⟨hwf, fun n node hn hnode => h.untagged n node hn ((hfaces n hn).symm.trans hnode)⟩

/-- A graph without some nodes and their links. -/
def withoutAll (g : Graph) (ns : List NodeId) : Graph := ns.foldl without g

/-- What stays when some nodes go, in the order it had. -/
theorem nodes_withoutAll : (g.withoutAll ns).nodes = g.nodes.filter fun node => node.id ∉ ns := by
  induction ns generalizing g with
  | nil => simp [withoutAll]
  | cons n ns ih =>
    change ((g.without n).withoutAll ns).nodes = _
    rw [ih, without, List.filter_filter]
    refine List.filter_congr fun node _ => ?_
    by_cases hid : node.id = n <;> simp [hid]

theorem links_withoutAll : (g.withoutAll ns).links =
    g.links.filter fun l => l.source.node ∉ ns ∧ l.target.node ∉ ns := by
  induction ns generalizing g with
  | nil => simp [withoutAll]
  | cons n ns ih =>
    change ((g.without n).withoutAll ns).links = _
    rw [ih, without, List.filter_filter]
    refine List.filter_congr fun l _ => ?_
    by_cases hs : l.source.node = n <;> by_cases ht : l.target.node = n <;> simp [hs, ht]

theorem node?_withoutAll : (g.withoutAll ns).node? m = if m ∈ ns then none else g.node? m := by
  induction ns generalizing g with
  | nil => simp [withoutAll]
  | cons n ns ih =>
    change ((g.without n).withoutAll ns).node? m = _
    rw [ih, node?_without]
    by_cases hm : m = n <;> simp [hm]

theorem mem_links_withoutAll {l : Link} :
    l ∈ (g.withoutAll ns).links ↔ l ∈ g.links ∧ l.source.node ∉ ns ∧ l.target.node ∉ ns := by
  rw [links_withoutAll, List.mem_filter, decide_eq_true_iff]

theorem hasNode_withoutAll : (g.withoutAll ns).hasNode m ↔ g.hasNode m ∧ m ∉ ns := by
  rw [hasNode, node?_withoutAll]
  by_cases hm : m ∈ ns <;> simp [hm, hasNode]

/-- A graph that loses more nodes still revises the one it came from. -/
theorem Revises.withoutAll {free : InputRef → Prop} (h : g.Revises free g') :
    g.Revises free (g'.withoutAll ns) := by
  induction ns generalizing g' with
  | nil => exact h
  | cons n ns ih => exact ih (h.without n)

theorem WellFormed.withoutAll (hg : g.WellFormed) (hns : ∀ n ∈ ns, n ≠ entry ∧ n ≠ exit) :
    (g.withoutAll ns).WellFormed := by
  induction ns generalizing g with
  | nil => exact hg
  | cons n ns ih =>
    obtain ⟨hentry, hexit⟩ := hns n List.mem_cons_self
    exact ih (hg.without hentry hexit) fun m hm => hns m (List.mem_cons_of_mem _ hm)

/-- Removing a node that is not there changes nothing. -/
theorem WellFormed.without_of_not_hasNode (hg : g.WellFormed) (hn : g.hasNode n = false) :
    g.without n = g := by
  have hnot : ∀ m, g.hasNode m → m ≠ n := by
    rintro m hm rfl
    rw [hn] at hm
    cases hm
  have hnodes : g.nodes.filter (·.id != n) = g.nodes := by
    refine List.filter_eq_self.2 fun node hnode => bne_iff_ne.2 (hnot _ ?_)
    exact hasNode_iff.2 ⟨node, hg.node?_eq hnode⟩
  have hlinks : g.links.filter (fun l => l.source.node != n && l.target.node != n) = g.links := by
    refine List.filter_eq_self.2 fun l hl => ?_
    rw [bne_iff_ne.2 (hnot _ (hg.hasNode_source hl)), bne_iff_ne.2 (hnot _ (hg.hasNode_target hl))]
    rfl
  have hactive : (if g.active = some n then none else g.active) = g.active := by
    rw [if_neg fun h => hnot n (hg.active n h) rfl]
  rw [Graph.without, hnodes, hlinks, hactive]

/-- **No output depends on a node that is not live.** -/
theorem WellFormed.evaluate_withoutAll (hg : g.WellFormed) (hentry : entry ∉ ns)
    (hns : ∀ n ∈ ns, n ≠ exit ∧ n ∉ g.live) (inputs : String → Option Value) (name : String) :
    (g.withoutAll ns).evaluate inputs name = g.evaluate inputs name := by
  have hface : ∀ n ∈ ns, n ≠ entry ∧ n ≠ exit := fun n hn =>
    ⟨fun h => hentry (h ▸ hn), (hns n hn).1⟩
  have hwf := hg.withoutAll hface
  have hlive : ∀ i type, g.output? name = some (i, type) → ∀ n, g.Behind i n → n ∉ ns := by
    intro i type hname n hn hmem
    obtain ⟨hexit, -⟩ := output?_eq_some hname
    exact (hns n hmem).2 (mem_live.2 (hexit ▸ hg.path_of_behind hn))
  refine hg.evaluate_congr hwf ?_ ?_ ?_
  · intro n hn
    rw [node?_withoutAll, if_neg fun hmem => hn.elim (hface n hmem).1 (hface n hmem).2]
  · intro i type hname j hj
    have hincoming : (g.withoutAll ns).incoming? j = g.incoming? j := by
      refine Option.ext fun l => ?_
      rw [hwf.incoming?_eq_some, hg.incoming?_eq_some, mem_links_withoutAll]
      constructor
      · rintro ⟨⟨hl, -⟩, htarget⟩
        exact ⟨hl, htarget⟩
      · rintro ⟨hl, htarget⟩
        have hsource : g.Behind i l.source.node := by
          rcases hj with rfl | hj
          · exact ⟨l, hg.incoming?_eq_some.2 ⟨hl, htarget⟩, ReflTransGen.refl⟩
          · exact hg.behind_source hj (hg.incoming?_eq_some.2 ⟨hl, htarget⟩)
        refine ⟨⟨hl, hlive i type hname _ hsource, ?_⟩, htarget⟩
        rw [htarget]
        rcases hj with rfl | hj
        · obtain ⟨hexit, -⟩ := output?_eq_some hname
          exact fun hmem => (hface _ hmem).2 hexit
        · exact hlive i type hname _ hj
    rw [hincoming]
  · intro i type hname n node hn hnode
    refine ⟨node, ?_, rfl, rfl⟩
    rw [node?_withoutAll, if_neg (hlive i type hname n hn), hnode]

/-- What is live stays live when nodes go that are not. -/
theorem mem_live_withoutAll (hns : ∀ n ∈ ns, n ≠ exit ∧ n ∉ g.live) (h : n ∈ g.live) :
    n ∈ (g.withoutAll ns).live := by
  rw [mem_live] at h ⊢
  induction h using TransGen.head_induction_on with
  | @single m hstep =>
    obtain ⟨l, hl, rfl, htarget⟩ := hstep
    have hlive : l.source.node ∈ g.live := mem_live.2 (TransGen.single ⟨l, hl, rfl, htarget⟩)
    exact TransGen.single ⟨l, mem_links_withoutAll.2 ⟨hl, fun hmem => (hns _ hmem).2 hlive,
      fun hmem => (hns _ hmem).1 htarget⟩, rfl, htarget⟩
  | @head m k hstep hpath ih =>
    obtain ⟨l, hl, rfl, rfl⟩ := hstep
    have hlive : l.target.node ∈ g.live := mem_live.2 hpath
    have hlive' : l.source.node ∈ g.live := mem_live.2 (hpath.head ⟨l, hl, rfl, rfl⟩)
    exact ih.head ⟨l, mem_links_withoutAll.2 ⟨hl, fun hmem => (hns _ hmem).2 hlive',
      fun hmem => (hns _ hmem).2 hlive⟩, rfl, rfl⟩

end Graph

namespace Pass

open Graph

variable {g : Graph} {free : InputRef → Prop} {loose : NodeId → Prop} {p : Pass} {n : NodeId}

/-! ## Taking a pass back -/

theorem discard_graph (hp : p.graph.WellFormed) (hn : n ≠ entry ∧ n ≠ exit) :
    (p.discard n).graph = p.graph.without n := by
  rw [discard_eq]
  cases hhas : p.graph.hasNode n with
  | true => rw [removeNode_eq_ok.2 ⟨hn.1, hn.2, hhas, rfl⟩]
  | false =>
    cases hr : p.graph.removeNode n with
    | ok g' =>
      obtain ⟨-, -, hyes, -⟩ := removeNode_eq_ok.1 hr
      rw [hhas] at hyes
      cases hyes
    | error e => exact (hp.without_of_not_hasNode hhas).symm

theorem foldl_discard_graph {ns : List NodeId} (hp : p.graph.WellFormed)
    (hns : ∀ n ∈ ns, n ≠ entry ∧ n ≠ exit) :
    (ns.foldl discard p).graph = p.graph.withoutAll ns := by
  induction ns generalizing p with
  | nil => rfl
  | cons n ns ih =>
    have hn := hns n List.mem_cons_self
    have hgraph := discard_graph hp hn
    rw [List.foldl_cons, ih (hgraph ▸ hp.without hn.1 hn.2) fun m hm =>
      hns m (List.mem_cons_of_mem _ hm), hgraph]
    rfl

/-- **A pass that is taken back leaves no node that it made.** -/
theorem Frame.rollBack_graph (h : Frame g free loose p) :
    p.rollBack.graph = p.graph.withoutAll p.report.created.reverse := by
  refine foldl_discard_graph (p := { p with report := { p.report with created := [] } }) h.wf
    fun n hn => h.base.ne_faces_of_le (h.created_ge n (List.mem_reverse.1 hn))

/-- What is left then was there before. -/
theorem Frame.hasNode_rollBack (h : Frame g free loose p) :
    p.rollBack.graph.hasNode n ↔ p.graph.hasNode n ∧ n < g.nextNode := by
  rw [h.rollBack_graph, hasNode_withoutAll, List.mem_reverse]
  refine and_congr_right fun hn => ⟨fun hnot => ?_, fun hlt hmem => ?_⟩
  · exact Nat.lt_of_not_le fun hle => hnot (h.created n hle hn)
  · exact Nat.not_le_of_lt hlt (h.created_ge n hmem)

/-- If no input was free, so were the links, as long as both ends are there. -/
theorem Frame.mem_links_rollBack (h : Frame g (fun _ => False) loose p) {l : Link} :
    l ∈ p.rollBack.graph.links ↔ l ∈ g.links ∧ p.rollBack.graph.hasNode l.source.node ∧
      p.rollBack.graph.hasNode l.target.node := by
  have hrevises : g.Revises (fun _ => False) p.rollBack.graph :=
    h.rollBack_graph ▸ h.revises.withoutAll
  by_cases hlt : l.target.node < g.nextNode
  · exact hrevises.links l hlt id
  · -- a link into a new node is in neither graph
    refine iff_of_false (fun hl => ?_) fun hl => hlt (h.base.lt_nextNode (h.base.hasNode_target hl.1))
    rw [h.rollBack_graph, mem_links_withoutAll] at hl
    have htarget := h.wf.hasNode_target hl.1
    exact hl.2.2 (List.mem_reverse.2 (h.created _ (Nat.le_of_not_lt hlt) htarget))

/-! ## Pruning -/

/-- What goes is recorded, so the frame is kept. -/
theorem framed_removeAll {xs : List (Tag × NodeId)} (hxs : ∀ x ∈ xs, x.2 ≠ entry ∧ x.2 ≠ exit) :
    Framed g free loose (removeAll xs) := by
  induction xs with
  | nil => exact Framed.pure []
  | cons x xs ih =>
    refine Ensures.bind (Q := fun _ p => Frame g free loose
      { p with report := { p.report with removed := p.report.removed ++ [x.2] } })
      (Ensures.edit_ (fun p g' h hr => ?_) fun _ _ h _ => h.failed) fun _ => ?_
    · obtain ⟨-, -, -, rfl⟩ := removeNode_eq_ok.1 hr
      exact h.without (hxs x List.mem_cons_self)
    · refine Ensures.bind (Q := fun _ => Frame g free loose) (Ensures.record fun _ h => h) fun _ => ?_
      exact Framed.bind (ih fun y hy => hxs y (List.mem_cons_of_mem _ hy)) fun _ => Framed.pure _

/-- Nodes that are there are removed without fail, and recorded. -/
theorem removeAll_eq_ok {xs : List (Tag × NodeId)}
    (hxs : ∀ x ∈ xs, x.2 ≠ entry ∧ x.2 ≠ exit ∧ p.graph.hasNode x.2)
    (hnodup : (xs.map Prod.snd).Nodup) :
    removeAll xs p = .ok (xs.map Prod.fst)
      { p with
        graph := p.graph.withoutAll (xs.map Prod.snd)
        report := { p.report with removed := p.report.removed ++ xs.map Prod.snd } } := by
  induction xs generalizing p with
  | nil =>
    simp only [List.map_nil, List.append_nil]
    rfl
  | cons x xs ih =>
    obtain ⟨t, n⟩ := x
    obtain ⟨hentry, hexit, hhas⟩ := hxs _ List.mem_cons_self
    rw [List.map_cons, List.nodup_cons] at hnodup
    let q : Pass := { p with
      graph := p.graph.without n
      report := { p.report with removed := p.report.removed ++ [n] } }
    have hrest : ∀ y ∈ xs, y.2 ≠ entry ∧ y.2 ≠ exit ∧ q.graph.hasNode y.2 := by
      intro y hy
      obtain ⟨h0, h1, hy'⟩ := hxs y (List.mem_cons_of_mem _ hy)
      have hne : y.2 ≠ n := by
        intro heq
        exact hnodup.1 (List.mem_map.2 ⟨y, hy, heq⟩)
      refine ⟨h0, h1, ?_⟩
      change (p.graph.without n).hasNode y.2 = true
      rw [hasNode, node?_without, if_neg hne]
      exact hy'
    have hrun := ih hrest hnodup.2
    have hstep : removeAll ((t, n) :: xs) p =
        (do return t :: (← removeAll xs) : PassM GraphError (List Tag)) q := by
      have hedit : edit (GraphM.removeNode n) p = .ok () { p with graph := p.graph.without n } :=
        edit_of_after (removeNode_eq_ok.2 ⟨hentry, hexit, hhas, rfl⟩)
      change EStateM.bind (edit (GraphM.removeNode n)) _ p = _
      rw [EStateM.bind, hedit]
      rfl
    rw [hstep]
    change EStateM.bind (removeAll xs) _ q = _
    rw [EStateM.bind, hrun]
    simp only [q, List.map_cons, List.append_assoc, List.singleton_append]
    rfl

theorem mem_stale {t : Tag} : (t, n) ∈ p.stale ↔
    (∃ node ∈ p.graph.nodes, node.id = n ∧ node.tag = some t) ∧ n ∉ p.touched ∧
      n ∉ p.graph.live := by
  have htagged : (t, n) ∈ p.graph.tagged ↔
      ∃ node ∈ p.graph.nodes, node.id = n ∧ node.tag = some t := by
    rw [tagged, List.mem_filterMap]
    refine exists_congr fun node => and_congr_right fun _ => ?_
    cases node.tag <;> simp [and_comm]
  rw [stale, List.mem_filter, htagged]
  simp

/-- A tagged node is stale unless the pass has used it or an output depends on it. -/
theorem mem_stale_of_tagged {node : Node} {t : Tag} (hnode : p.graph.node? n = some node)
    (ht : node.tag = some t) (htouched : n ∉ p.touched) (hdead : n ∉ p.graph.live) :
    n ∈ p.stale.map Prod.snd := by
  obtain ⟨hmem, hid⟩ := mem_of_node? hnode
  exact List.mem_map.2 ⟨(t, n), mem_stale.2 ⟨⟨node, hmem, hid, ht⟩, htouched, hdead⟩, rfl⟩

theorem tagged_sublist (g : Graph) : (g.tagged.map Prod.snd).Sublist (g.nodes.map Node.id) := by
  rw [tagged]
  induction g.nodes with
  | nil => exact List.Sublist.refl _
  | cons node nodes ih =>
    cases ht : node.tag with
    | none =>
      simp only [List.filterMap_cons, ht, Option.map_none, List.map_cons]
      exact ih.cons _
    | some t =>
      simp only [List.filterMap_cons, ht, Option.map_some, List.map_cons]
      exact ih.cons_cons _

theorem stale_nodup (hp : p.graph.WellFormed) : (p.stale.map Prod.snd).Nodup :=
  (hp.ids_nodup.sublist (tagged_sublist p.graph)).sublist (List.filter_sublist.map _)

/-- A stale node is none of the interface, and no output depends on it. -/
theorem stale_removable (hp : p.graph.Ready) {t : Tag} (hn : (t, n) ∈ p.stale) :
    n ≠ entry ∧ n ≠ exit ∧ p.graph.hasNode n ∧ n ∉ p.graph.live := by
  obtain ⟨⟨node, hnode, rfl, htag⟩, -, hlive⟩ := mem_stale.1 hn
  have hlook := hp.wf.node?_eq hnode
  have hnot : ¬ (node.id = entry ∨ node.id = exit) := by
    intro hface
    rw [hp.untagged node.id node hface hlook] at htag
    cases htag
  exact ⟨fun h0 => hnot (Or.inl h0), fun h1 => hnot (Or.inr h1), hasNode_iff.2 ⟨node, hlook⟩, hlive⟩

/-- The pass without its stale nodes. -/
def pruned (p : Pass) : Pass :=
  forgetRemoved { p with
    graph := p.graph.withoutAll (p.stale.map Prod.snd)
    report := { p.report with removed := p.report.removed ++ p.stale.map Prod.snd } }

/-- **Pruning removes the stale nodes and never fails.** -/
theorem prune_eq_ok (hp : p.graph.Ready) : prune p = .ok (p.stale.map Prod.fst) p.pruned := by
  have hstale : ∀ x ∈ p.stale, x.2 ≠ entry ∧ x.2 ≠ exit ∧ p.graph.hasNode x.2 := fun x hx => by
    obtain ⟨h0, h1, hhas, -⟩ := stale_removable hp hx
    exact ⟨h0, h1, hhas⟩
  have hrun := removeAll_eq_ok hstale (stale_nodup hp.wf)
  change EStateM.bind (removeAll p.stale) _ p = _
  rw [EStateM.bind, hrun]
  rfl

/-- **Pruning shows in no output.** -/
theorem evaluate_pruned (hp : p.graph.Ready) (inputs : String → Option Value) (name : String) :
    p.pruned.graph.evaluate inputs name = p.graph.evaluate inputs name := by
  refine hp.wf.evaluate_withoutAll ?_ ?_ inputs name
  · intro hmem
    obtain ⟨⟨t, n⟩, hn, hentry⟩ := List.mem_map.1 hmem
    exact (stale_removable hp hn).1 hentry
  · intro n hmem
    obtain ⟨⟨t, n⟩, hn, rfl⟩ := List.mem_map.1 hmem
    obtain ⟨-, hexit, -, hlive⟩ := stale_removable hp hn
    exact ⟨hexit, hlive⟩

namespace Frame

theorem ready (h : Frame g free loose p) : p.graph.Ready :=
  ⟨h.wf, fun n node hface hnode => h.untagged n node hface ((h.faces n hface).symm.trans hnode)⟩

/-- Pruning keeps the frame. -/
theorem prune_eq_ok (h : Frame g free loose p) :
    ∃ p', prune p = .ok (p.stale.map Prod.fst) p' ∧ Frame g free loose p' ∧
      p'.graph = p.graph.withoutAll (p.stale.map Prod.snd) := by
  have hframe := framed_removeAll (fun x hx => by
    obtain ⟨h0, h1, -⟩ := stale_removable h.ready hx
    exact ⟨h0, h1⟩) p h
  rw [removeAll_eq_ok (fun x hx => by
    obtain ⟨h0, h1, hhas, -⟩ := stale_removable h.ready hx
    exact ⟨h0, h1, hhas⟩) (stale_nodup h.wf)] at hframe
  exact ⟨p.pruned, Pass.prune_eq_ok h.ready, { hframe with
    cached := fun t n hn => hframe.cached t n (List.mem_of_mem_filter hn) }, rfl⟩

end Frame

end Pass

end NodeFormula
