import NodeFormula.Proofs.Graph.History
import NodeFormula.Proofs.Pass.Fitted
/-!
# NodeFormula — what is in the report

A pass reports the nodes that it makes, removes or gives other constants, and the links that it
makes. `Reported p q` says that nothing else has changed between two states of a pass: as long as
there is no entry, the graph is as it was, whoever owns its nodes. All operations of a pass keep
to that (`Recording`), failed ones included, but for the one that gives a constant to an input
that exists (`setConstant`).
-/

namespace NodeFormula

/-- A node, whoever owns it. -/
def Node.unowned (n : Node) : Node := { n with automated := false }

namespace Graph

/-- A graph, whoever owns its nodes. -/
def unowned (g : Graph) : Graph := g.mapNodes Node.unowned

theorem unowned_updateNode {g : Graph} {n : NodeId} {f f' : Node → Node}
    (hf : ∀ node, (f node).unowned = f' node.unowned) :
    (g.updateNode n f).unowned = g.unowned.updateNode n f' :=
  mapNodes_updateNode (fun _ => rfl) hf

theorem unowned_markAutomated {g g' : Graph} {n : NodeId} (h : g.markAutomated n = .ok g') :
    g'.unowned = g.unowned := by
  obtain ⟨-, rfl⟩ := modifyNode_eq_ok.1 h
  have hsame : (g.updateNode n fun node => { node with automated := true }).unowned
      = g.unowned.updateNode n id := unowned_updateNode fun _ => rfl
  rw [hsame, updateNode]
  simp

end Graph

namespace Pass

open Graph

variable {ε ε' α β : Type} {p q r : Pass} {n : NodeId} {kind : NodeKind} {args : List Operand}
  {x : PassM ε α}

/-- The report of a pass has an entry. -/
structure Entered (p : Pass) : Prop where
  wf : p.graph.WellFormed
  entry : p.report.isNoop = false

/-- **What has changed is in the report**, but for the owners of nodes. -/
structure Reported (p q : Pass) : Prop where
  wf : q.graph.WellFormed
  noop : q.report.isNoop = true → p.report.isNoop = true ∧ q.graph.unowned = p.graph.unowned

theorem Entered.reported (h : Entered q) : Reported p q where
  wf := h.wf
  noop hnoop := by
    rw [h.entry] at hnoop
    cases hnoop

namespace Reported

theorem refl (hp : p.graph.WellFormed) : Reported p p := ⟨hp, fun h => ⟨h, rfl⟩⟩

theorem trans (h : Reported p q) (h' : Reported q r) : Reported p r where
  wf := h'.wf
  noop hnoop := by
    obtain ⟨hq, hsame'⟩ := h'.noop hnoop
    obtain ⟨hp, hsame⟩ := h.noop hq
    exact ⟨hp, hsame'.trans hsame⟩

/-- Neither the graph nor the report has changed. -/
theorem congr (h : Reported p q) (hgraph : r.graph = q.graph) (hreport : r.report = q.report) :
    Reported p r where
  wf := hgraph ▸ h.wf
  noop hnoop := hgraph ▸ h.noop (hreport ▸ hnoop)

end Reported

/-! ## Operations -/

/-- **An operation records what it changes**, also when it fails. -/
def Recording (x : PassM ε α) : Prop :=
  ∀ p, Ensures (Reported p) x (fun _ => Reported p) fun _ => Reported p

namespace Recording

theorem pure (a : α) : Recording (Pure.pure a : PassM ε α) := fun _ => Ensures.pure fun _ h => h

theorem bind {f : α → PassM ε β} (hx : Recording x) (hf : ∀ a, Recording (f a)) :
    Recording (x >>= f) :=
  fun p => Ensures.bind (hx p) fun a => hf a p

theorem get {f : Pass → PassM ε β} (hf : ∀ p, Recording (f p)) :
    Recording (MonadState.get >>= f) :=
  fun p => Ensures.get fun q hq q' hq' => by
    subst hq'
    exact hf q' p q' hq

end Recording

theorem recording_nextTag [TagDigest] (function : String) (identities : List String) :
    Recording (nextTag function identities : PassM ε Tag) :=
  fun _ _ h => h.congr rfl rfl

/-! ## Nodes that are made -/

theorem entered_edit {m : GraphM Unit} [m.Atomic]
    (hm : ∀ g g', g.WellFormed → m.after g = .ok g' → g'.WellFormed) :
    Ensures Entered (edit m) (fun _ => Entered) fun _ => Entered :=
  Ensures.edit_ (fun p g' h hr => ⟨hm p.graph g' h.wf hr, h.entry⟩) fun _ _ h _ => h

theorem entered_modifyNode {f : Node → Node} (hf : ∀ node, (f node).Alike node)
    (hin : ∀ node, (f node).inputs = node.inputs) :
    Ensures Entered (edit (GraphM.modifyNode n f)) (fun _ => Entered) fun _ => Entered :=
  entered_edit fun _ _ hg h => (hg.modifyNode h hf hin).1

theorem entered_connect :
    Ensures Entered (connect n 0 args) (fun _ => Entered) fun _ => Entered := by
  refine Ensures.connect (fun k o _ => ?_) (fun _ p h => ⟨h.wf, by simp [Report.isNoop]⟩)
    fun k v _ => ⟨fun _ => Entered, Ensures.read (fun _ _ h _ => h) fun _ _ h _ => h, fun w => ?_⟩
  · refine Ensures.edit (fun p l g' h hr => ?_) fun _ _ h _ => h
    obtain ⟨hsource, htarget, hfeeds, -, rfl⟩ := h.wf.link_eq_ok.1 hr
    exact ⟨h.wf.relinked hsource htarget hfeeds, h.entry⟩
  · refine entered_edit fun g g' hg h => ?_
    obtain ⟨s, -, -, rfl⟩ := setDefault_eq_ok.1 h
    exact hg.putDefault _ _

/-- A node that is made has an entry from then on. -/
theorem recording_create (t : Tag) (kind : NodeKind) (args : List Operand) :
    Recording (create t kind args) := by
  intro p
  refine Ensures.bind (Q := fun _ q => q.graph.WellFormed) (Ensures.edit (fun q n g' h hr => ?_)
    fun _ _ h _ => h) fun n => ?_
  · obtain ⟨hk, -, rfl⟩ := createNode_eq_ok.1 hr
    exact h.wf.insertNode hk _
  -- the node has its entry before anything else can fail, and whatever follows keeps it
  refine Ensures.weaken (P := fun q => q.graph.WellFormed) (Q := fun _ => Entered)
    (E := fun _ => Entered) ?_ (fun _ h => h) (fun _ _ h => h.reported) fun _ _ h => h.reported
  refine Ensures.bind (Q := fun _ => Entered) (Ensures.record fun q h => ⟨h, by simp [Report.isNoop]⟩)
    fun _ => ?_
  refine Ensures.bind (Q := fun _ => Entered) (Ensures.modify fun _ h => ⟨h.wf, h.entry⟩)
    fun _ => ?_
  refine Ensures.get fun q hq => Ensures.weaken (P := Entered) ?_ (fun q' hq' => hq' ▸ hq)
    (fun _ _ h => h) fun _ _ h => h
  refine Ensures.bind (entered_modifyNode (fun _ => ⟨rfl, rfl, rfl, rfl⟩) fun _ => rfl) fun _ => ?_
  refine Ensures.bind (entered_modifyNode (fun _ => ⟨rfl, rfl, rfl, rfl⟩) fun _ => rfl) fun _ => ?_
  refine Ensures.bind entered_connect fun _ => ?_
  refine Ensures.bind (entered_modifyNode (fun _ => ⟨rfl, rfl, rfl, rfl⟩) fun _ => rfl) fun _ => ?_
  refine Ensures.bind (entered_edit fun g g' hg h => ?_) fun _ => ?_
  · cases h
    exact hg.setActive _
  refine Ensures.bind (Q := fun _ => Entered) (Ensures.modify fun _ h => ⟨h.wf, h.entry⟩)
    fun _ => Ensures.pure fun _ h => h

/-! ## Nodes that are used again -/

/-- An input that holds another constant than before says so. -/
theorem ensures_hold_changed (i : InputRef) (v : Value) :
    Ensures (· = p) (hold i v) (fun changed q =>
      q.report = p.report ∧ (changed = false → q.graph = p.graph)) fun _ _ => True := by
  refine Ensures.bind (Q := fun _ q => q = p) (Ensures.read (fun _ _ h _ => h)
    fun _ _ _ _ => trivial) fun w => Ensures.get fun q hq => ?_
  subst hq
  split
  · refine Ensures.pure fun q' hq' => ?_
    subst hq'
    exact ⟨rfl, fun _ => rfl⟩
  · refine Ensures.bind (Q := fun _ q' => q'.report = q.report) (Ensures.edit_
      (fun q' g' hq' _ => hq' ▸ rfl) fun _ _ _ _ => trivial) fun _ => Ensures.pure fun q' hq' => ?_
    exact ⟨hq', nofun⟩

/-- So does a node whose constants are refreshed. -/
theorem ensures_refresh_changed (n : NodeId) (args : List Operand) :
    Ensures (· = p) (refresh n 0 args) (fun changed q =>
      q.report = p.report ∧ (changed = false → q.graph = p.graph)) fun _ _ => True := by
  refine (Ensures.refresh (P := fun _ c q => q.report = p.report ∧ (c = false → q.graph = p.graph))
    (fun _ _ _ _ _ h => h) fun k v _ c q ⟨hreport, hgraph⟩ => ?_).weaken
    (fun q hq => hq ▸ ⟨rfl, fun _ => rfl⟩) (fun _ _ h => h) fun _ _ h => h
  refine (ensures_hold_changed (p := q) ⟨n, k⟩ v).weaken (fun _ h => h)
    (fun changed r ⟨hreport', hgraph'⟩ => ⟨hreport'.trans hreport, fun hor => ?_⟩)
    (fun _ _ h => h) q rfl
  obtain ⟨rfl, rfl⟩ := Bool.or_eq_false_iff.1 hor
  exact (hgraph' rfl).trans (hgraph rfl)

/-- **A node that is used again has an entry if a constant has changed.** -/
theorem reuse_reported (hp : p.graph.WellFormed) (hkind : p.graph.kind? n = some kind)
    (hk : kind.isInterface = false) (hlen : args.length = kind.inputs.length)
    (hfits : Fits kind args) :
    Ensures (· = p) (reuse n args) (fun _ => Reported p) fun _ => Reported p := by
  have hface := hp.ne_faces_of_kind? hkind hk
  obtain ⟨a, ha, rfl⟩ := Option.map_eq_some_iff.1 hkind
  -- without a change of constants only the owner of the node is new
  have hnoop : Ensures (· = p) (reuse n args) (fun _ q => q.report.isNoop = true →
      p.report.isNoop = true ∧ q.graph.unowned = p.graph.unowned) fun _ _ => True := by
    refine Ensures.bind (ensures_refresh_changed n args) fun changed => ?_
    let Same (q : Pass) : Prop :=
      q.report = p.report ∧ (changed = false → q.graph.unowned = p.graph.unowned)
    refine Ensures.bind (Q := fun _ => Same) (Ensures.edit_ (fun q g' ⟨hreport, hgraph⟩ hr => ?_)
      fun _ _ _ _ => trivial) fun _ => ?_
    · exact ⟨hreport, fun hc => (unowned_markAutomated hr).trans (congrArg unowned (hgraph hc))⟩
    refine Ensures.bind (Q := fun _ => Same) (Ensures.modify fun _ h => h) fun _ => ?_
    refine Ensures.bind (Ensures.record fun q ⟨hreport, hgraph⟩ => ?_)
      fun _ => Ensures.pure fun _ h => h
    rw [hreport]
    cases changed with
    | true => simp [Report.isNoop]
    | false => exact fun hnoop => ⟨hnoop, hgraph rfl⟩
  exact ((reuse_retunes hp ha rfl hface hlen hfits).and hnoop).weaken (fun _ h => ⟨h, h⟩)
    (fun _ _ h => ⟨h.1.2.1.wf, h.2⟩) fun _ _ h => h.1.elim

/-! ## Nodes that are removed -/

/-- Between its removal and the entry of it, a node is missing. -/
theorem ensures_removeNode (n : NodeId) :
    Ensures (Reported p) (edit (GraphM.removeNode n)) (fun _ q => q.graph.WellFormed)
      fun _ => Reported p := by
  refine Ensures.edit_ (fun q g' h hr => ?_) fun _ _ h _ => h
  obtain ⟨hentry, hexit, -, rfl⟩ := removeNode_eq_ok.1 hr
  exact h.wf.without hentry hexit

theorem ensures_record_removed (n : NodeId) {E : ε → Pass → Prop} :
    Ensures (fun q => q.graph.WellFormed)
      (record fun r => { r with removed := r.removed ++ [n] }) (fun _ => Reported p) E :=
  Ensures.record fun q h => Entered.reported ⟨h, by simp [Report.isNoop]⟩

/-- **`findOrCreate` records what it does**, if the constants fit. -/
theorem recording_findOrCreate (t : Tag) (hk : kind.isInterface = false) (hfits : Fits kind args) :
    Recording (findOrCreate t kind args) := by
  by_cases hlen : args.length = kind.inputs.length
  swap
  · rw [findOrCreate, if_pos hlen]
    exact fun _ => Ensures.throw fun _ h => h
  intro p q hq
  have hknown : ∀ n, Reported p { q with cache := (t, n) :: q.cache } := fun n => hq.congr rfl rfl
  refine Ensures.findOrCreate hlen (fun _ => ?_) (fun n _ hkind => ?_) (fun n _ _ _ _ => hknown n)
    (fun n g _ _ hremove => ?_) q rfl
  · exact (recording_create t kind args p).weaken (fun r hr => hr ▸ hq) (fun _ _ h => h) fun _ _ h => h
  · exact (reuse_reported (hknown n).wf hkind hk hlen hfits).weaken (fun _ h => h)
      (fun _ _ h => (hknown n).trans h) fun _ _ h => (hknown n).trans h
  · -- the entry of the node that goes stands for all that follows
    obtain ⟨hentry, hexit, -, rfl⟩ := removeNode_eq_ok.1 hremove
    refine (recording_create t kind args p).weaken (fun r hr => ?_) (fun _ _ h => h) fun _ _ h => h
    subst hr
    exact Entered.reported ⟨hq.wf.without hentry hexit, by simp [Report.isNoop]⟩

theorem recording_removeAll (xs : List (Tag × NodeId)) : Recording (removeAll xs) := by
  induction xs with
  | nil => exact .pure _
  | cons x xs ih =>
    obtain ⟨t, n⟩ := x
    intro p
    refine Ensures.bind (ensures_removeNode n) fun _ => ?_
    refine Ensures.bind (ensures_record_removed (p := p) n) fun _ => ?_
    exact Ensures.bind (ih p) fun _ => Ensures.pure fun _ h => h

theorem recording_prune : Recording prune :=
  .get fun _ => .bind (recording_removeAll _) fun _ =>
    .bind (fun _ => Ensures.modify fun _ h => h.congr rfl rfl) fun _ => .pure _

/-! ## Links that are made -/

theorem recording_linkOutput (o : OutputRef) (i : InputRef) : Recording (linkOutput o i) := by
  refine Recording.get fun p => ?_
  split
  · exact .pure _
  intro p
  refine Ensures.bind (Q := fun _ q => q.graph.WellFormed) (Ensures.edit (fun q l g' h hr => ?_)
    fun _ _ h _ => h) fun _ => ?_
  · obtain ⟨hsource, htarget, hfeeds, -, rfl⟩ := h.wf.link_eq_ok.1 hr
    exact h.wf.relinked hsource htarget hfeeds
  · refine Ensures.bind (Q := fun _ => Reported p) (Ensures.record fun q h => ?_)
      fun _ => Ensures.pure fun _ h => h
    exact Entered.reported ⟨h, by simp [Report.isNoop]⟩

end Pass

end NodeFormula
