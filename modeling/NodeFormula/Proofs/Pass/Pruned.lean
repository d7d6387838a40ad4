import NodeFormula.Proofs.Pass.Operations
import NodeFormula.Proofs.Graph.Searches
/-!
# NodeFormula — pruning removes what is dead

A node is dead to a pass that has not used it if it carries a tag and no path of links leads
from it to an output of the graph (`Pass.Dead`). At any time of a pass over a graph whose
interface carries no tags, pruning succeeds and takes away the dead nodes and no others, and
every output keeps its value (`prune_removes_dead`).
-/

namespace NodeFormula

open Relation

namespace Graph

variable {g : Graph} {n : NodeId} {ns : List NodeId}

instance (g : Graph) (i : InputRef) (n : NodeId) : Decidable (g.Behind i n) :=
  match h : g.incoming? i with
  | none => isFalse fun ⟨_, hl, _⟩ => by
    rw [h] at hl
    cases hl
  | some l => decidable_of_iff (g.feeds n l.source.node = true) <| by
    rw [feeds_iff, Behind, h]
    simp

end Graph

namespace Pass

open Graph

variable {g : Graph} {p : Pass} {node : Node}

/-- **A node is dead to a pass**: it is tagged, the pass has not used it, and no path of links
leads from it to an output of the graph. -/
structure Dead (p : Pass) (node : Node) : Prop where
  tagged : node.tag.isSome
  untouched : node.id ∉ p.touched
  unlinked : ∀ o ∈ p.graph.outputs, ¬ p.graph.Behind o.2.1 node.id

instance (p : Pass) (node : Node) : Decidable (p.Dead node) :=
  decidable_of_iff (node.tag.isSome ∧ node.id ∉ p.touched ∧
    ∀ o ∈ p.graph.outputs, ¬ p.graph.Behind o.2.1 node.id)
    ⟨fun h => ⟨h.1, h.2.1, h.2.2⟩, fun h => ⟨h.tagged, h.untouched, h.unlinked⟩⟩

/-- The dead nodes, in order of creation. -/
def dead (p : Pass) : List Node := p.graph.nodes.filter (p.Dead ·)

/-- The tagged nodes of a list that pass a test, with their tags. -/
theorem filter_tagged (keep : NodeId → Bool) (nodes : List Node) :
    ((nodes.filterMap fun n => n.tag.map (·, n.id)).filter fun (_, n) => keep n).map
        (fun x => (some x.1, x.2))
      = (nodes.filter fun n => n.tag.isSome && keep n.id).map fun n => (n.tag, n.id) := by
  induction nodes with
  | nil => rfl
  | cons node nodes ih =>
    cases ht : node.tag with
    | none => simpa [ht] using ih
    | some t =>
      cases hkeep : keep node.id <;> simpa [ht, hkeep] using ih

/-- **The stale nodes are the dead ones**, in the same order. -/
theorem stale_eq_dead (hp : p.graph.WellFormed) :
    p.stale.map (fun x => (some x.1, x.2)) = p.dead.map fun node => (node.tag, node.id) := by
  rw [stale, tagged, filter_tagged fun n => !p.touched.contains n && !p.graph.live.contains n, dead]
  congr 1
  refine List.filter_congr fun node _ => ?_
  rw [Bool.eq_iff_iff, decide_eq_true_iff]
  simp only [Bool.and_eq_true, Bool.not_eq_true', ← Bool.not_eq_true, List.contains_iff_mem,
    hp.mem_live_iff]
  constructor
  · exact fun h => ⟨h.1, h.2.1, fun o ho hbehind => h.2.2 ⟨o, ho, hbehind⟩⟩
  · intro h
    refine ⟨h.tagged, h.untouched, ?_⟩
    rintro ⟨o, ho, hbehind⟩
    exact h.unlinked o ho hbehind

theorem tags_of_stale (hp : p.graph.WellFormed) :
    (p.stale.map Prod.fst).map some = p.dead.map Node.tag := by
  have h := congrArg (List.map Prod.fst) (stale_eq_dead hp)
  rw [List.map_map, List.map_map] at h
  rw [List.map_map]
  exact h

theorem ids_of_stale (hp : p.graph.WellFormed) : p.stale.map Prod.snd = p.dead.map Node.id := by
  have h := congrArg (List.map Prod.snd) (stale_eq_dead hp)
  rw [List.map_map, List.map_map] at h
  exact h

theorem mem_stale_iff_dead (hp : p.graph.WellFormed) (hnode : node ∈ p.graph.nodes) :
    node.id ∈ p.stale.map Prod.snd ↔ p.Dead node := by
  rw [ids_of_stale hp, List.mem_map]
  constructor
  · rintro ⟨other, hother, hid⟩
    obtain ⟨hmem, hdead⟩ := List.mem_filter.1 hother
    rw [← List.inj_on_of_nodup_map hp.ids_nodup hmem hnode hid]
    exact of_decide_eq_true hdead
  · exact fun hdead => ⟨node, List.mem_filter.2 ⟨hnode, decide_eq_true hdead⟩, rfl⟩

/-- **Pruning removes exactly the dead nodes**, at any time of a pass over a graph whose
interface carries no tags. It succeeds and gives the tags of the dead nodes in order of
creation; all other nodes stay as they are, with all links between them, and every output
evaluates as before. The search for what is live, from one input of a node to the next, ends and
finds the nodes from which a path of links leads to an output. -/
theorem prune_removes_dead [TagDigest] (hg : g.Ready) (spacing : Float32)
    (ops : List Operation) :
    let p := after ops (start g spacing)
    ∃ tags p', prune p = .ok tags p' ∧
      tags.map some = p.dead.map Node.tag ∧
      p'.report.removed = p.report.removed ++ p.dead.map Node.id ∧
      p'.graph.nodes = p.graph.nodes.filter (¬ p.Dead ·) ∧
      p'.graph.links = p.graph.links.filter
        (fun l => p'.graph.hasNode l.source.node ∧ p'.graph.hasNode l.target.node) ∧
      (∀ inputs name, p'.graph.evaluate inputs name = p.graph.evaluate inputs name) ∧
      ∀ k, (LiveSearch.start p.graph).left p.graph < k →
        ∃ found, rounds (LiveSearch.round p.graph) k (LiveSearch.start p.graph) = some found ∧
          (∀ n, n ∈ found ↔ n ∈ p.graph.live) ∧
          ∀ n, n ∈ found ↔ ∃ o ∈ p.graph.outputs, p.graph.Behind o.2.1 n := by
  intro p
  have hp : p.graph.Ready := ready_after (p := start g spacing) hg ops
  refine ⟨_, _, prune_eq_ok hp, tags_of_stale hp.wf, ?_, ?_, ?_,
    fun inputs name => evaluate_pruned hp inputs name, fun k hk => ?_⟩
  · exact congrArg (p.report.removed ++ ·) (ids_of_stale hp.wf)
  · refine nodes_withoutAll.trans (List.filter_congr fun node hnode => ?_)
    simp only [mem_stale_iff_dead hp.wf hnode]
  · refine links_withoutAll.trans (List.filter_congr fun l hl => ?_)
    have hkeeps : ∀ n, p.graph.hasNode n →
        (n ∉ p.stale.map Prod.snd ↔ p.pruned.graph.hasNode n) := fun n hn =>
      (hasNode_withoutAll.trans (and_iff_right hn)).symm
    simp only [hkeeps _ (hp.wf.hasNode_source hl), hkeeps _ (hp.wf.hasNode_target hl)]
  · obtain ⟨found, hfound, hlive⟩ := hp.wf.live_search_ends hk
    exact ⟨found, hfound, hlive, fun n => (hlive n).trans hp.wf.mem_live_iff⟩

/-- Three nodes with tags, of which one feeds the output and another feeds none. -/
def leftovers : List Edit :=
  [.newInput "x" .float, .newOutput "out" .float,
    .createNode (.math .sine), .setTag 2 ⟨"feeding"⟩,
    .createNode (.math .cosine), .setTag 3 ⟨"orphan"⟩,
    .createNode (.math .tangent), .setTag 4 ⟨"wanted"⟩, .createNode (.math .absolute),
    .link ⟨entry, 0⟩ ⟨2, 0⟩, .link ⟨2, 0⟩ ⟨exit, 0⟩, .link ⟨4, 0⟩ ⟨3, 0⟩]

/-- A pass that asks for the third node alone prunes the second. -/
theorem prune_removes_dead_leftovers :
    (history leftovers).Ready ∧
    ∃ p', prune (after [.findOrCreate ⟨"wanted"⟩ (.math .tangent) [.literal (.float 0)]]
        (start (history leftovers) defaultSpacing)) = .ok [⟨"orphan"⟩] p' ∧
      p'.graph.nodes.map Node.id = [entry, exit, 2, 4, 5] ∧ p'.graph.links.map Link.id = [0, 1] := by
  have hwf := wellFormed_history leftovers
  have hg : (history leftovers).Ready := hwf.ready_iff.2 (by decide +kernel)
  obtain ⟨tags, p', hrun, htags, -, hnodes, hlinks, -⟩ := prune_removes_dead hg defaultSpacing
    [.findOrCreate ⟨"wanted"⟩ (.math .tangent) [.literal (.float 0)]]
  have hnodes' : p'.graph.nodes.map Node.id = [entry, exit, 2, 4, 5] := by
    rw [hnodes]
    decide +kernel
  refine ⟨hg, p', ?_, hnodes', ?_⟩
  · have hdead : tags.map some = [some ⟨"orphan"⟩] := htags.trans (by decide +kernel)
    obtain ⟨t, rfl, ht⟩ := List.map_eq_singleton_iff.1 hdead
    rw [hrun, Option.some.inj ht]
  · rw [hlinks]
    have hhas : ∀ n, p'.graph.hasNode n ↔ n ∈ [entry, exit, 2, 4, 5] := by
      intro n
      rw [← hnodes', hasNode, node?, List.find?_isSome]
      simp
    simp only [hhas]
    decide +kernel

end Pass

end NodeFormula
