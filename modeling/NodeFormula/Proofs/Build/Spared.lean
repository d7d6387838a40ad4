import NodeFormula.Proofs.Build.Correct
import NodeFormula.Proofs.Build.Requested
/-!
# NodeFormula — what a build spares

A build takes away a node that was there before only where it carries a tag that the build asks
for with another kind; all others keep their outlines, at any time of the build, also when it
fails (`Pass.Spares`, `Spares.step`). With what frames say of links and of the report that
accounts for all of the graph after a build (`build_spares`).
-/

namespace NodeFormula

open Graph

namespace Pass

variable {g : Graph} {as bs : List Query} {p q : Pass} {t : Tag} {kind : NodeKind} {n : NodeId}

/-- **A pass spares the nodes of a graph**, but for those whose tags it has asked for with
another kind. -/
structure Spares (g : Graph) (as : List Query) (p : Pass) : Prop where
  base : g.WellFormed
  wf : p.graph.WellFormed
  next_le : g.nextNode ≤ p.graph.nextNode
  old : ∀ o ∈ p.graph.outlines, o.id < g.nextNode → o ∈ g.outlines
  cached : ∀ t n, (t, n) ∈ p.cache → n < p.graph.nextNode ∧
    ∀ o ∈ p.graph.outlines, o.id = n → o.tag = some t
  gone : ∀ o ∈ g.outlines, p.graph.hasNode o.id ∨ ∃ a ∈ as, o.tag = some a.tag ∧ o.kind ≠ a.kind

namespace Spares

theorem start (hg : g.WellFormed) (spacing : Float32) : Spares g [] (Pass.start g spacing) where
  base := hg
  wf := hg
  next_le := Nat.le_refl _
  old _ ho _ := ho
  cached _ _ hmem := absurd hmem List.not_mem_nil
  gone o ho := Or.inl (hasNode_iff_outlines.2 ⟨o, ho, rfl⟩)

theorem mono (h : Spares g as p) (has : ∀ a ∈ as, a ∈ bs) : Spares g bs p :=
  { h with
    gone := fun o ho => (h.gone o ho).imp_right fun ⟨a, ha, hrest⟩ => ⟨a, has a ha, hrest⟩ }

theorem tuned (h : Spares g as p) (hq : Tuned p q) : Spares g as q where
  base := h.base
  wf := hq.wf h.wf
  next_le := hq.nextNode ▸ h.next_le
  old := hq.outlines ▸ h.old
  cached := by
    rw [hq.outlines, hq.nextNode, hq.same]
    exact h.cached
  gone := by
    simp only [hasNode_iff_outlines, hq.outlines]
    simp only [← hasNode_iff_outlines]
    exact h.gone

/-- The node of a tag is there and carries it, whether the pass knows it or not. -/
theorem found (h : Spares g as p) (hfind : p.find? t = some n) :
    ∃ o ∈ p.graph.outlines, o.id = n ∧ o.tag = some t := by
  rcases cached_or_tagged hfind with ⟨hmem, hhas⟩ | htagged
  · obtain ⟨o, ho, hid⟩ := hasNode_iff_outlines.1 hhas
    exact ⟨o, ho, hid, (h.cached t n hmem).2 o ho hid⟩
  · exact mem_outlines_of_byTag? htagged

/-- It may be remembered. -/
theorem remembering (h : Spares g as p) (hfind : p.find? t = some n) :
    Spares g as (p.remembering t n) := by
  obtain ⟨o, ho, hid, htag⟩ := h.found hfind
  refine { h with cached := fun t' m hmem => ?_ }
  rcases List.mem_cons.1 hmem with heq | hmem
  · cases heq
    refine ⟨hid ▸ h.wf.outlines_lt ho, fun o' ho' hid' => ?_⟩
    rw [h.wf.outlines_inj ho' ho (hid'.trans hid.symm)]
    exact htag
  · exact h.cached t' m hmem

/-- **A node that goes carries a tag that is asked for with another kind.** -/
theorem cleared (h : Spares g as p) {a : Query} (hq : Cleared a.tag a.kind p q) :
    Spares g (as ++ [a]) q := by
  have hlast : a ∈ as ++ [a] := List.mem_append_right _ (List.mem_singleton_self a)
  have hmono : Spares g (as ++ [a]) p := h.mono fun _ => List.mem_append_left _
  cases hq with
  | none _ => exact hmono
  | @dropped n hfind hkind hface _ =>
    have hstay : ∀ o ∈ (p.dropping a.tag n).graph.outlines, o ∈ p.graph.outlines := fun o ho => by
      rw [dropping, outlines_without] at ho
      exact List.mem_of_mem_filter ho
    refine
      { hmono with
        wf := h.wf.without hface.1 hface.2
        old := fun o ho => h.old o (hstay o ho)
        cached := fun t' m hmem => ?_
        gone := fun o ho => ?_ }
    · obtain ⟨hlt, htags⟩ := h.cached t' m (List.mem_of_mem_filter hmem)
      exact ⟨hlt, fun o ho => htags o (hstay o ho)⟩
    · rcases hmono.gone o ho with hhas | hgone
      · by_cases hid : o.id = n
        · -- the node that goes is the one that was there before
          obtain ⟨o', ho', hid', htag⟩ := h.found hfind
          have hlt : o'.id < g.nextNode := by
            rw [hid', ← hid]
            exact h.base.outlines_lt ho
          obtain rfl := h.base.outlines_inj (h.old o' ho' hlt) ho (hid'.trans hid.symm)
          exact Or.inr ⟨a, hlast, htag, fun heq => hkind (h.wf.kind?_eq_some.2 ⟨o', ho', hid', heq⟩)⟩
        · refine Or.inl ?_
          rw [dropping, hasNode, node?_without, if_neg hid]
          exact hhas
      · exact Or.inr hgone

/-- A node that is made is none that was there before. -/
theorem made (h : Spares g as p) (hq : Made t kind p q) : Spares g as q := by
  obtain ⟨o, hid, -, htag, houtlines⟩ := hq.outlines
  have hmem : ∀ o' ∈ q.graph.outlines, o' ∈ p.graph.outlines ∨ o' = o := fun o' ho' => by
    rw [houtlines] at ho'
    exact (List.mem_append.1 ho').imp_right List.mem_singleton.1
  refine
    { base := h.base
      wf := hq.wf
      next_le := hq.nextNode ▸ Nat.le_succ_of_le h.next_le
      old := fun o' ho' hlt => ?_
      cached := fun t' m hm => ?_
      gone := fun o' ho' => (h.gone o' ho').imp_left fun hhas => ?_ }
  · rcases hmem o' ho' with hold | rfl
    · exact h.old o' hold hlt
    · rw [hid] at hlt
      exact absurd h.next_le (Nat.not_le_of_lt hlt)
  · rw [hq.nextNode]
    rcases List.mem_cons.1 (hq.cache hm) with heq | hm
    · cases heq
      refine ⟨Nat.lt_succ_self _, fun o' ho' hid' => ?_⟩
      rcases hmem o' ho' with hold | rfl
      · exact absurd (h.wf.outlines_lt hold) (hid' ▸ Nat.lt_irrefl _)
      · exact htag
    · obtain ⟨hlt, htags⟩ := h.cached t' m hm
      refine ⟨Nat.lt_succ_of_lt hlt, fun o' ho' hid' => ?_⟩
      rcases hmem o' ho' with hold | rfl
      · exact htags o' hold hid'
      · rw [← hid', hid] at hlt
        exact absurd hlt (Nat.lt_irrefl _)
  · rw [hasNode_iff_outlines] at hhas ⊢
    obtain ⟨o'', ho'', hid''⟩ := hhas
    exact ⟨o'', houtlines ▸ List.mem_append_left _ ho'', hid''⟩

/-- **A request spares all nodes but one of another kind**, whether it fails or not. -/
theorem step (h : Spares g as p) {a : Query} {m : Option NodeId} (hq : Comes a.tag a.kind p m q) :
    Spares g (as ++ [a]) q := by
  have hmono : Spares g (as ++ [a]) p := h.mono fun _ => List.mem_append_left _
  cases hq with
  | refused => exact hmono
  | stuck hfind htuned => exact (hmono.remembering hfind).tuned htuned
  | used changed hfind _ htuned => exact { (hmono.remembering hfind).tuned htuned with }
  | unmade hclear => exact h.cleared hclear
  | made hclear hmade _ => exact (h.cleared hclear).made hmade

end Spares

/-- What is left when a pass is taken back was there before, as it was. -/
theorem Spares.rollBack {free : InputRef → Prop} {loose : NodeId → Prop} (h : Spares g as p)
    (hframe : Frame g free loose p) {node : Node} (hnode : node ∈ p.rollBack.graph.nodes) :
    node.outline ∈ g.outlines := by
  rw [hframe.rollBack_graph, nodes_withoutAll] at hnode
  obtain ⟨hmem, hnot⟩ := List.mem_filter.1 hnode
  have hhas : p.graph.hasNode node.id := hasNode_iff.2 ⟨node, h.wf.node?_eq hmem⟩
  refine h.old _ (List.mem_map_of_mem hmem) (Nat.lt_of_not_le fun hle => ?_)
  exact of_decide_eq_true hnot (List.mem_reverse.2 (hframe.created _ hle hhas))

/-- Pruning spares what it does not report. -/
theorem Spares.withoutAll {ns : List NodeId} (h : Spares g as p) {node : Node}
    (hnode : node ∈ (p.graph.withoutAll ns).nodes) (hlt : node.id < g.nextNode) :
    node.outline ∈ g.outlines := by
  rw [nodes_withoutAll] at hnode
  exact h.old _ (List.mem_map_of_mem (List.mem_of_mem_filter hnode)) hlt

end Pass

/-! ## Builds -/

section

open Pass

variable [TagDigest] {g : Graph}

/-- **A build spares** all but the nodes whose tags it has asked for with another kind, up to its
link to the sink and with it. -/
theorem ensures_spares (hg : g.WellFormed) {o : BuildOptions} {b : Bindings} {e : Expr}
    (hcheck : Build.check b o e g = .ok ()) :
    Ensures (· = Pass.start g o.spacing) (Build.linked b e)
      (fun _ => Spares g ((Build.callsOf b o e g).flatMap Call.queries))
      fun _ => Spares g ((Build.callsOf b o e g).flatMap Call.queries) := by
  rw [Build.callsOf, hcheck]
  have hkeeps : ∀ {p}, Chain Call.Leads (Build.rootCalls b e (Pass.start g o.spacing))
      (Pass.start g o.spacing) p →
      Spares g ((Build.rootCalls b e (Pass.start g o.spacing)).flatMap Call.queries) p := fun h =>
    h.keeps (I := Spares g) (fun _ _ _ h => { h with })
      (fun _ a h => h.step (a.comes h.wf)) (.start hg o.spacing)
  have hroot := (requests_root b e (Pass.start g o.spacing)).weaken (fun _ h => h)
    (fun _ _ h => hkeeps h.1.chain) fun _ _ h => hkeeps h
  refine Ensures.bind hroot fun out => ?_
  exact Ensures.bind (((tuning_linkOutput out b.sink).adaptExcept _).keeps
    fun _ _ h hq => h.tuned hq) fun _ => Ensures.pure fun _ h => h

/-- A node with an old identifier that is left by a build that succeeds was there before. -/
theorem outline_mem_of_build (hg : g.Ready) {o : BuildOptions} {b : Bindings} {e : Expr}
    {r : BuildReport} {g' : Graph} (h : build o b e g = (.ok r, g')) {node : Node}
    (hnode : node ∈ g'.nodes) (hlt : node.id < g.nextNode) : node.outline ∈ g.outlines := by
  obtain ⟨hcheck, made, p, hlinked, hend⟩ := linked_of_build h
  have hspares := ensures_spares hg.wf hcheck _ rfl
  have hstart : Frame g (fun _ => False) (fun _ => False) (Pass.start g o.spacing) :=
    Frame.start hg.wf hg.untagged o.spacing
  have hframe := Build.ensures_linked b hg.wf e _ hstart
  rw [hlinked] at hspares hframe
  rcases hend with ⟨-, rfl, -⟩ | ⟨-, tags, p', hprune, rfl, -⟩
  · exact hspares.old _ (List.mem_map_of_mem hnode) hlt
  · rw [prune_eq_ok hframe.ready] at hprune
    cases hprune
    exact hspares.withoutAll hnode hlt

/-- **What a build leaves of a graph.** A build that fails leaves no node that was not there, and
all nodes have their outlines: they differ in constants and owners at most. The links are those
between the nodes that are left, and a node is missing only where the build asked for its tag with
another kind. A build that succeeds leaves every node with its outline that it does not report as
removed. Links go with removed nodes, and the one into the sink may be replaced. -/
theorem build_spares (hg : g.Ready) (o : BuildOptions) (b : Bindings) (e : Expr) :
    match build o b e g with
    | (.error _, g') =>
      (∀ node' ∈ g'.nodes, ∃ node ∈ g.nodes, node'.outline = node.outline) ∧
        (∀ l, l ∈ g'.links ↔ l ∈ g.links ∧ g'.hasNode l.source.node ∧ g'.hasNode l.target.node) ∧
        ∀ node ∈ g.nodes, ¬ g'.hasNode node.id →
          ∃ a ∈ (Build.callsOf b o e g).flatMap Call.queries,
            node.tag = some a.tag ∧ node.kind ≠ a.kind
    | (.ok r, g') =>
      (∀ node ∈ g.nodes, node.id ∉ r.nodes.removed →
          ∃ node' ∈ g'.nodes, node'.outline = node.outline) ∧
        ∀ l ∈ g.links, l ∉ g'.links →
          l.source.node ∈ r.nodes.removed ∨ l.target.node ∈ r.nodes.removed ∨ l.target = b.sink := by
  cases hbuild : build o b e g with
  | mk outcome g' =>
  cases outcome with
  | error err =>
    rcases build_eq_error hg hbuild with rfl | ⟨hcheck, p, hlinked, hframe, rfl⟩
    · refine ⟨fun node hnode => ⟨node, hnode, rfl⟩, fun l => ⟨fun hl => ?_, fun hl => hl.1⟩,
        fun node hnode hnot => ?_⟩
      · exact ⟨hl, hg.wf.hasNode_source hl, hg.wf.hasNode_target hl⟩
      · exact absurd (hasNode_iff.2 ⟨node, hg.wf.node?_eq hnode⟩) hnot
    · have hspares := ensures_spares hg.wf hcheck _ rfl
      rw [hlinked] at hspares
      refine ⟨fun node hnode => ?_, fun l => hframe.mem_links_rollBack, fun node hnode hnot => ?_⟩
      · obtain ⟨old, hold, heq⟩ := List.mem_map.1 (hspares.rollBack hframe hnode)
        exact ⟨old, hold, heq.symm⟩
      · refine (hspares.gone _ (List.mem_map_of_mem hnode)).resolve_left fun hhas => hnot ?_
        exact hframe.hasNode_rollBack.2 ⟨hhas, hg.wf.id_lt node hnode⟩
  | ok r =>
    obtain ⟨p, hframe, rfl, hreport⟩ := build_eq_ok hg hbuild
    have hgone : ∀ n, g.hasNode n → n ∉ r.nodes.removed → p.graph.hasNode n := by
      intro n hn hnot
      cases hhas : p.graph.hasNode n with
      | true => rfl
      | false => exact absurd (hreport ▸ hframe.removed n hn hhas) hnot
    refine ⟨fun node hnode hnot => ?_, fun l hl hnot => ?_⟩
    · have hlook := hg.wf.node?_eq hnode
      obtain ⟨node', hlook'⟩ := hasNode_iff.1 (hgone _ (hasNode_iff.2 ⟨node, hlook⟩) hnot)
      obtain ⟨hnode', hid⟩ := mem_of_node? hlook'
      have hlt : node'.id < g.nextNode := hid ▸ hg.wf.id_lt node hnode
      refine ⟨node', hnode', hg.wf.outlines_inj ?_ (List.mem_map_of_mem hnode) hid⟩
      exact outline_mem_of_build hg hbuild hnode' hlt
    · by_contra hnone
      obtain ⟨hsource, htarget, hsink⟩ : l.source.node ∉ r.nodes.removed ∧
          l.target.node ∉ r.nodes.removed ∧ l.target ≠ b.sink := by simpa only [not_or] using hnone
      refine hnot ((hframe.revises.links l ?_ hsink).2 ⟨hl, ?_, ?_⟩)
      · exact hg.wf.lt_nextNode (hg.wf.hasNode_target hl)
      · exact hgone _ (hg.wf.hasNode_source hl) hsource
      · exact hgone _ (hg.wf.hasNode_target hl) htarget

end

/-- A constant under the tag of a sine, between two nodes without tags. -/
def displaced : List Edit :=
  [.newInput "x" .float, .newOutput "a" .float,
    .createNode .value, .setTag 2 ⟨"sin.0000000000000000"⟩,
    .createNode (.math .absolute), .createNode (.math .sign),
    .link ⟨2, 0⟩ ⟨3, 0⟩, .link ⟨3, 0⟩ ⟨4, 0⟩, .link ⟨4, 0⟩ ⟨exit, 0⟩]

/-- A sine takes the place of the constant, and then there is no such output to link it to: the
constant is missing, and its link with it. -/
theorem build_spares_displaced :
    (history displaced).Ready ∧ ∃ e err g', callForm? "sin(x)" = some e ∧
      @build blankDigest .standard (.atInterface ⟨exit, 1⟩) e (history displaced) = (.error err, g') ∧
      ¬ g'.hasNode 2 ∧
      (∃ a ∈ (@Build.callsOf blankDigest (.atInterface ⟨exit, 1⟩) .standard e
          (history displaced)).flatMap (@Call.queries blankDigest),
        a.tag = ⟨"sin.0000000000000000"⟩ ∧ a.kind ≠ .value) ∧
      ∀ l, l ∈ g'.links ↔ l ∈ (history displaced).links ∧ g'.hasNode l.source.node ∧
        g'.hasNode l.target.node := by
  have hg : (history displaced).Ready :=
    (wellFormed_history displaced).ready_iff.2 (by decide +kernel)
  have hsome : (callForm? "sin(x)").isSome := by decide +kernel
  have hbuilds : ∀ e ∈ callForm? "sin(x)",
      (@build blankDigest .standard (.atInterface ⟨exit, 1⟩) e (history displaced)).1.isOk = false ∧
        ¬ (@build blankDigest .standard (.atInterface ⟨exit, 1⟩) e
          (history displaced)).2.hasNode 2 := by decide +kernel
  have hnode : ∃ node ∈ (history displaced).nodes, node.id = 2 ∧ node.kind = .value ∧
      node.tag = some ⟨"sin.0000000000000000"⟩ := by decide +kernel
  obtain ⟨e, he⟩ := Option.isSome_iff_exists.1 hsome
  obtain ⟨hok, hgone⟩ := hbuilds e he
  have hall := @build_spares blankDigest (history displaced) hg .standard
    (.atInterface ⟨exit, 1⟩) e
  cases hbuild : @build blankDigest .standard (.atInterface ⟨exit, 1⟩) e (history displaced) with
  | mk outcome g' =>
    rw [hbuild] at hok hgone hall
    cases outcome with
    | ok r => cases hok
    | error err =>
      obtain ⟨-, hlinks, hmissing⟩ := hall
      obtain ⟨node, hmem, hid, hkind, htag⟩ := hnode
      obtain ⟨a, ha, hatag, hne⟩ := hmissing node hmem (hid ▸ hgone)
      rw [htag, Option.some.injEq] at hatag
      exact ⟨hg, e, err, g', he, hbuild, hgone, ⟨a, ha, hatag.symm, hkind ▸ hne.symm⟩, hlinks⟩

end NodeFormula
