import NodeFormula.Proofs.Graph.Trimmed
import NodeFormula.Proofs.Pass.Found
import NodeFormula.Proofs.Result
/-!
# NodeFormula — constants in place of links

What `setConstant` does to a graph: the link into the input goes (`Graph.unlinked`), and the
input holds the constant unless it holds an equal one already (`Graph.holding`). The graph is
all that changes (`setConstant_eq`); a report says nothing of it.
-/

namespace NodeFormula

namespace Graph

variable {g : Graph} {i : InputRef} {v : Value} {s : Socket}

/-- A graph without the link into an input. -/
def unlinked (g : Graph) (i : InputRef) : Graph :=
  { g with links := g.links.filter (·.target != i) }

/-- A graph in which an input holds a constant, or one that equals it. -/
def holding (g : Graph) (i : InputRef) (v : Value) : Graph :=
  match g.inputType? i with
  | none => g
  | some type =>
    if g.default? i == some (v.convert type) then g
    else g.updateNode i.node (putDefault i.index (v.convert type))

theorem holding_eq (hs : g.inputSocket i = .ok s) (v : Value) :
    g.holding i v = if g.default? i == some (v.convert s.type) then g
      else g.updateNode i.node (putDefault i.index (v.convert s.type)) := by
  rw [holding, inputType?, hs]
  rfl

theorem WellFormed.unlinked (hg : g.WellFormed) (i : InputRef) : (g.unlinked i).WellFormed :=
  hg.filter_links _

theorem WellFormed.holding (hg : g.WellFormed) (i : InputRef) (v : Value) :
    (g.holding i v).WellFormed := by
  rw [Graph.holding]
  split
  · exact hg
  · split
    · exact hg
    · exact hg.putDefault i _

/-- Only the node of the input changes, and only in its constants. -/
theorem node?_holding (n : NodeId) : (g.holding i v).node? n = g.node? n ∨
    n = i.node ∧ ∃ w, (g.holding i v).node? n = (g.node? n).map (putDefault i.index w) := by
  rw [holding]
  split
  · exact Or.inl rfl
  · rename_i type _
    split
    · exact Or.inl rfl
    · have hnode := node?_updateNode (g := g) (f := putDefault i.index (v.convert type))
        (fun _ => rfl) i.node n
      by_cases hn : n = i.node
      · exact Or.inr ⟨hn, v.convert type, by rw [hnode]; simp only [hn, if_true]⟩
      · refine Or.inl (hnode.trans ?_)
        simp only [hn, if_false, Option.map_id']

end Graph

namespace Pass

open Graph

variable {p : Pass} {i : InputRef} {v : Value} {s : Socket}

/-- An input loses the link into it. -/
theorem disconnect_eq (hp : p.graph.WellFormed) (i : InputRef) :
    ∃ b, disconnect i p = .ok b { p with graph := p.graph.unlinked i } := by
  have hget : (MonadState.get : PassM GraphError Pass) p = .ok p p := rfl
  rw [disconnect, run_bind_of_ok hget]
  cases hl : p.graph.incoming? i with
  | none =>
    refine ⟨false, ?_⟩
    rw [unlinked, filter_of_incoming?_none hl]
    rfl
  | some l =>
    refine ⟨true, ?_⟩
    have hmem := (hp.incoming?_eq_some.1 hl).1
    have hunlink : p.graph.unlink l.id = .ok (p.graph.unlinked i) :=
      unlink_eq_ok.2 ⟨⟨l, hmem, rfl⟩, by rw [unlinked, hp.filter_incoming hl]⟩
    exact run_bind_of_ok (edit_of_after hunlink)

/-- An input holds a constant that fits it. -/
theorem hold_eq (hs : p.graph.inputSocket i = .ok s)
    (hfits : ¬ (v.type = .vector ∧ s.type = .float)) :
    ∃ b, hold i v p = .ok b { p with graph := p.graph.holding i v } := by
  have hread : read (fun g => coerce g i v) p = .ok (v.convert s.type) p := by
    rw [read, coerce_eq_ok hs hfits]
  have hget : (MonadState.get : PassM GraphError Pass) p = .ok p p := rfl
  rw [hold, run_bind_of_ok hread, run_bind_of_ok hget, holding_eq hs]
  split
  · exact ⟨false, rfl⟩
  · exact ⟨true, run_bind_of_ok (edit_of_after (setDefault_convert v hs))⟩

/-- **An input holds a constant in place of what was linked into it.** Nothing but the graph
changes. -/
theorem setConstant_eq (hp : p.graph.WellFormed) (hs : p.graph.inputSocket i = .ok s)
    (hfits : ¬ (v.type = .vector ∧ s.type = .float)) :
    ∃ b, setConstant i v p = .ok b { p with graph := (p.graph.unlinked i).holding i v } := by
  obtain ⟨unlinked, hdisconnect⟩ := disconnect_eq hp i
  obtain ⟨changed, hhold⟩ := hold_eq (p := { p with graph := p.graph.unlinked i }) hs hfits
  refine ⟨unlinked || changed, ?_⟩
  rw [setConstant, run_bind_of_ok hdisconnect]
  exact run_bind_of_ok hhold

/-- **An output that exists is linked into an input from which nothing leads back.** -/
theorem linkOutput_eq (hp : p.graph.WellFormed) {o : OutputRef}
    (ho : ∃ s, p.graph.outputSocket o = .ok s) (hi : ∃ s, p.graph.inputSocket i = .ok s)
    (hfeeds : p.graph.feeds i.node o.node = false) :
    linkOutput o i p
      = if (p.graph.incoming? i).map Link.source = some o then .ok false p
        else .ok true
          { p with
            graph := p.graph.relinked o i
            report := { p.report with linksCreated := p.report.linksCreated + 1 } } := by
  have hget : (MonadState.get : PassM GraphError Pass) p = .ok p p := rfl
  rw [linkOutput, run_bind_of_ok hget]
  split
  · rfl
  · have hlink : edit (GraphM.link o i) p
        = .ok p.graph.nextLink { p with graph := p.graph.relinked o i } :=
      edit_of_outcome (hp.link_eq_ok.2 ⟨ho, hi, hfeeds, rfl, rfl⟩)
    exact run_bind_of_ok hlink

end Pass

end NodeFormula
