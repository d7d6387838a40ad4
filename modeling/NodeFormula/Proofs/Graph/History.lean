import NodeFormula.Proofs.Graph.Trimmed
/-!
# NodeFormula — histories of edits

A graph is made from the empty one by edits, of which some may be refused; a refused one
leaves the graph that its operation leaves, which is the one it found since every operation
is atomic. Whatever the edits are, the graph is well formed, and an identifier that was given
up is never used again: edits only add identifiers from `nextNode` and `nextLink` on, and these two
never go back (`Graph.Continues`).
-/

namespace NodeFormula

/-- An operation that changes a graph. -/
inductive Edit where
  | createNode (kind : NodeKind)
  | removeNode (node : NodeId)
  | setTag (node : NodeId) (tag : Tag)
  | newInput (name : String) (type : SocketType)
  | newOutput (name : String) (type : SocketType)
  | removeSocket (name : String)
  | setDefault (input : InputRef) (value : Value)
  | link (source : OutputRef) (target : InputRef)
  | unlink (link : LinkId)
  | setActive (node : Option NodeId)
  | setPlace (node : NodeId) (place : Place)
  | markAutomated (node : NodeId)

namespace Edit

/-- What an edit hands back. -/
inductive Answer where
  | done
  | node (node : NodeId)
  | link (link : LinkId)
  | output (output : OutputRef)
  | input (input : InputRef)
  deriving DecidableEq, Repr

/-- An edit as an operation on a graph. -/
def run : Edit → GraphM Answer
  | createNode kind => return .node (← GraphM.createNode kind)
  | removeNode n => do GraphM.removeNode n; return .done
  | setTag n t => do GraphM.setTag n t; return .done
  | newInput name type => return .output (← GraphM.newInput name type)
  | newOutput name type => return .input (← GraphM.newOutput name type)
  | removeSocket name => do GraphM.removeSocket name; return .done
  | setDefault i v => do GraphM.setDefault i v; return .done
  | link source target => return .link (← GraphM.link source target)
  | unlink l => do GraphM.unlink l; return .done
  | setActive n => do GraphM.setActive n; return .done
  | setPlace n place => do GraphM.setPlace n place; return .done
  | markAutomated n => do GraphM.markAutomated n; return .done

/-- The answer to an edit, or why the graph refuses, and the graph that the edit leaves. -/
def perform (g : Graph) (e : Edit) : Except GraphError Answer × Graph :=
  match e.run g with
  | .ok answer g' => (.ok answer, g')
  | .error err g' => (.error err, g')

/-- The answer to an edit and the new graph, or why the graph refuses. -/
def attempt (g : Graph) : Edit → Except GraphError (Answer × Graph)
  | createNode kind => (g.createNode kind).map (Prod.map .node id)
  | removeNode n => (g.removeNode n).map (.done, ·)
  | setTag n t => (g.setTag n t).map (.done, ·)
  | newInput name type => (g.newInput name type).map (Prod.map .output id)
  | newOutput name type => (g.newOutput name type).map (Prod.map .input id)
  | removeSocket name => (g.removeSocket name).map (.done, ·)
  | setDefault i v => (g.setDefault i v).map (.done, ·)
  | link source target => (g.link source target).map (Prod.map .link id)
  | unlink l => (g.unlink l).map (.done, ·)
  | setActive n => .ok (.done, g.setActive n)
  | setPlace n place => (g.setPlace n place).map (.done, ·)
  | markAutomated n => (g.markAutomated n).map (.done, ·)

theorem outcome_done (m : GraphM Unit) (g : Graph) :
    (do m; return Answer.done : GraphM Answer).outcome g = (m.after g).map (.done, ·) := by
  rw [GraphM.after, GraphM.outcome_bind_pure]
  cases m.outcome g <;> rfl

theorem outcome_run (e : Edit) (g : Graph) : e.run.outcome g = e.attempt g := by
  cases e with
  | createNode | newInput | newOutput | link => exact GraphM.outcome_bind_pure _ _ g
  | removeNode | setTag | removeSocket | setDefault | unlink | setPlace | markAutomated =>
    exact outcome_done _ g
  | setActive => rfl

/-- **Every edit is atomic**, since its operation is. -/
instance atomic_run (e : Edit) : e.run.Atomic := by
  cases e <;> exact GraphM.Atomic.bind_pure _

/-- What a refused edit leaves behind. -/
theorem perform_of_error {g : Graph} {e : Edit} {err : GraphError}
    (h : (e.perform g).1 = .error err) : (e.perform g).2 = g := by
  rw [perform] at h ⊢
  cases hr : e.run g with
  | ok answer g' =>
    rw [hr] at h
    cases h
  | error err' g' => exact (atomic_run e).unchanged hr

theorem perform_eq (g : Graph) (e : Edit) :
    e.perform g = match e.attempt g with
      | .ok (answer, g') => (.ok answer, g')
      | .error err => (.error err, g) := by
  rw [perform, ← outcome_run]
  cases hr : e.run g with
  | ok answer g' => rw [GraphM.outcome_of_ok hr]
  | error err g' => rw [GraphM.outcome_of_error hr, (atomic_run e).unchanged hr]

end Edit

namespace Graph

variable {g g' g'' : Graph} {n m : NodeId} {e : Edit} {answer : Edit.Answer}

/-- A graph has a link. -/
def hasLink (g : Graph) (l : LinkId) : Bool := g.links.any (·.id == l)

/-- The graph after some edits, starting from the empty one. -/
def history (es : List Edit) : Graph := es.foldl (fun g e => (e.perform g).2) empty

theorem hasLink_iff {l : LinkId} : g.hasLink l ↔ ∃ k ∈ g.links, k.id = l := by
  simp [hasLink]

/-! ## Identifiers -/

/-- A later graph has no identifier that was given out before it and is gone by then. -/
structure Continues (g g' : Graph) : Prop where
  nextNode_le : g.nextNode ≤ g'.nextNode
  nextLink_le : g.nextLink ≤ g'.nextLink
  nodes : ∀ n < g.nextNode, g'.hasNode n → g.hasNode n
  links : ∀ l < g.nextLink, g'.hasLink l → g.hasLink l

namespace Continues

theorem refl (g : Graph) : g.Continues g :=
  ⟨Nat.le_refl _, Nat.le_refl _, fun _ _ h => h, fun _ _ h => h⟩

theorem trans (h : g.Continues g') (h' : g'.Continues g'') : g.Continues g'' where
  nextNode_le := Nat.le_trans h.nextNode_le h'.nextNode_le
  nextLink_le := Nat.le_trans h.nextLink_le h'.nextLink_le
  nodes n hn hlater := h.nodes n hn (h'.nodes n (Nat.lt_of_lt_of_le hn h.nextNode_le) hlater)
  links l hl hlater := h.links l hl (h'.links l (Nat.lt_of_lt_of_le hl h.nextLink_le) hlater)

end Continues

/-- An edit that gives out no identifier. -/
theorem continues_of_subset (hnode : g'.nextNode = g.nextNode) (hlink : g'.nextLink = g.nextLink)
    (hnodes : ∀ n, g'.hasNode n → g.hasNode n)
    (hlinks : (g'.links.map Link.id).Sublist (g.links.map Link.id)) : g.Continues g' where
  nextNode_le := Nat.le_of_eq hnode.symm
  nextLink_le := Nat.le_of_eq hlink.symm
  nodes n _ h := hnodes n h
  links l _ h := by
    obtain ⟨k, hk, rfl⟩ := hasLink_iff.1 h
    obtain ⟨old, hold, hid⟩ := List.mem_map.1 (hlinks.subset (List.mem_map_of_mem hk))
    exact hasLink_iff.2 ⟨old, hold, hid⟩

theorem continues_updateNode {f : Node → Node} (hf : KeepsId f) : g.Continues (g.updateNode n f) :=
  continues_of_subset rfl rfl (fun m h => by rwa [hasNode_updateNode hf] at h) (List.Sublist.refl _)

theorem continues_redrawn {f : Node → Node} {links : List Link} (hf : KeepsId f)
    (hends : (links.map Link.ends).Sublist (g.links.map Link.ends)) :
    g.Continues (g.redrawn n f links) :=
  continues_of_subset rfl rfl (fun m h => by rwa [hasNode_redrawn hf] at h)
    (map_id_sublist_of_ends hends)

theorem continues_without (n : NodeId) : g.Continues (g.without n) := by
  refine continues_of_subset rfl rfl (fun m h => ?_) (List.filter_sublist.map _)
  rw [hasNode, node?_without] at h
  split at h
  · cases h
  · exact h

theorem continues_insertNode (hg : g.WellFormed) (kind : NodeKind) (place : Place) :
    g.Continues (g.insertNode kind place).2 where
  nextNode_le := Nat.le_succ _
  nextLink_le := Nat.le_refl _
  nodes n hn h := by
    rw [hasNode, node?_insertNode hg, if_neg (Nat.ne_of_lt hn)] at h
    exact h
  links _ _ h := h

theorem continues_relinked (source : OutputRef) (target : InputRef) :
    g.Continues (g.relinked source target) where
  nextNode_le := Nat.le_refl _
  nextLink_le := Nat.le_succ _
  nodes _ _ h := h
  links l hl h := by
    obtain ⟨k, hk, rfl⟩ := hasLink_iff.1 h
    rcases mem_links_relinked.1 hk with ⟨hold, -⟩ | rfl
    · exact hasLink_iff.2 ⟨k, hold, rfl⟩
    · exact absurd hl (Nat.lt_irrefl _)

theorem continues_of_removeSocket {name : String} (h : g.removeSocket name = .ok g') :
    g.Continues g' := by
  rw [removeSocket_eq] at h
  split at h
  · cases h
    rw [dropInput_eq]
    exact continues_redrawn (fun _ => rfl) (ends_sublist (ends_dropSource _))
  · split at h
    · cases h
      rw [dropOutput_eq]
      exact continues_redrawn (fun _ => rfl) (ends_sublist (ends_dropTarget _))
    · cases h

/-! ## One edit -/

/-- A change of names, place or owner of a node. -/
theorem WellFormed.modifyNode (hg : g.WellFormed) {f : Node → Node}
    (h : g.modifyNode n f = .ok g') (hf : ∀ node, (f node).Alike node)
    (hin : ∀ node, (f node).inputs = node.inputs) : g'.WellFormed ∧ g.Continues g' := by
  obtain ⟨-, rfl⟩ := modifyNode_eq_ok.1 h
  exact ⟨hg.updateNode_of_inputs hf hin, continues_updateNode fun node => (hf node).id⟩

/-- **A successful edit keeps a graph well formed and brings back no identifier.** -/
theorem WellFormed.attempt (hg : g.WellFormed) (h : e.attempt g = .ok (answer, g')) :
    g'.WellFormed ∧ g.Continues g' := by
  cases e with
  | createNode kind =>
    obtain ⟨⟨n, made⟩, hmade, hsame⟩ := map_eq_ok h
    cases hsame
    obtain ⟨hkind, -, rfl⟩ := createNode_eq_ok.1 hmade
    exact ⟨hg.insertNode hkind _, continues_insertNode hg kind _⟩
  | removeNode n =>
    obtain ⟨_, hgone, hsame⟩ := map_eq_ok h
    cases hsame
    obtain ⟨hentry, hexit, -, rfl⟩ := removeNode_eq_ok.1 hgone
    exact ⟨hg.without hentry hexit, continues_without n⟩
  | setTag n t =>
    obtain ⟨_, hset, hsame⟩ := map_eq_ok h
    cases hsame
    exact hg.modifyNode hset (fun _ => ⟨rfl, rfl, rfl, rfl⟩) (fun _ => rfl)
  | newInput name type =>
    obtain ⟨⟨o, made⟩, hnew, hsame⟩ := map_eq_ok h
    cases hsame
    refine ⟨hg.newInput hnew, ?_⟩
    obtain ⟨-, -, -, rfl⟩ := newInput_eq_ok.1 hnew
    exact continues_updateNode fun _ => rfl
  | newOutput name type =>
    obtain ⟨⟨i, made⟩, hnew, hsame⟩ := map_eq_ok h
    cases hsame
    refine ⟨hg.newOutput hnew, ?_⟩
    obtain ⟨-, -, -, rfl⟩ := newOutput_eq_ok.1 hnew
    exact continues_updateNode fun _ => rfl
  | removeSocket name =>
    obtain ⟨_, hgone, hsame⟩ := map_eq_ok h
    cases hsame
    exact ⟨hg.removeSocket hgone, continues_of_removeSocket hgone⟩
  | setDefault i v =>
    obtain ⟨_, hset, hsame⟩ := map_eq_ok h
    cases hsame
    obtain ⟨s, -, -, rfl⟩ := setDefault_eq_ok.1 hset
    exact ⟨hg.putDefault i v, continues_updateNode fun _ => rfl⟩
  | link source target =>
    obtain ⟨⟨l, made⟩, hlink, hsame⟩ := map_eq_ok h
    cases hsame
    obtain ⟨hsource, htarget, hfeeds, -, rfl⟩ := hg.link_eq_ok.1 hlink
    exact ⟨hg.relinked hsource htarget hfeeds, continues_relinked source target⟩
  | unlink l =>
    obtain ⟨_, hgone, hsame⟩ := map_eq_ok h
    cases hsame
    refine ⟨hg.unlink hgone, ?_⟩
    obtain ⟨-, rfl⟩ := unlink_eq_ok.1 hgone
    exact continues_of_subset rfl rfl (fun _ h => h) (List.filter_sublist.map _)
  | setActive n =>
    cases h
    exact ⟨hg.setActive n, continues_of_subset rfl rfl (fun _ h => h) (List.Sublist.refl _)⟩
  | setPlace n place =>
    obtain ⟨_, hset, hsame⟩ := map_eq_ok h
    cases hsame
    exact hg.modifyNode hset (fun _ => ⟨rfl, rfl, rfl, rfl⟩) (fun _ => rfl)
  | markAutomated n =>
    obtain ⟨_, hset, hsame⟩ := map_eq_ok h
    cases hsame
    exact hg.modifyNode hset (fun _ => ⟨rfl, rfl, rfl, rfl⟩) (fun _ => rfl)

theorem WellFormed.perform (hg : g.WellFormed) (e : Edit) :
    (e.perform g).2.WellFormed ∧ g.Continues (e.perform g).2 := by
  rw [Edit.perform_eq]
  cases h : e.attempt g with
  | error err => exact ⟨hg, Continues.refl g⟩
  | ok r => exact hg.attempt (show e.attempt g = .ok (r.1, r.2) from h)

/-! ## All edits -/

/-- **Whatever the edits are, the graph stays well formed and no identifier comes back.** -/
theorem WellFormed.foldl_perform (hg : g.WellFormed) (es : List Edit) :
    (es.foldl (fun g e => (e.perform g).2) g).WellFormed ∧
      g.Continues (es.foldl (fun g e => (e.perform g).2) g) := by
  induction es generalizing g with
  | nil => exact ⟨hg, Continues.refl g⟩
  | cons e es ih =>
    obtain ⟨hnext, hstep⟩ := hg.perform e
    obtain ⟨hlast, hrest⟩ := ih hnext
    exact ⟨hlast, hstep.trans hrest⟩

theorem wellFormed_history (es : List Edit) : (history es).WellFormed :=
  (wellFormed_empty.foldl_perform es).1

theorem continues_history (es more : List Edit) :
    (history es).Continues (history (es ++ more)) := by
  rw [history, history, List.foldl_append]
  exact ((wellFormed_history es).foldl_perform more).2

theorem WellFormed.kind?_entry (hg : g.WellFormed) : g.kind? entry = some .groupInput := by
  obtain ⟨node, hnode⟩ := hasNode_iff.1 hg.hasEntry
  obtain ⟨hmem, hid⟩ := mem_of_node? hnode
  rw [kind?, hnode, Option.map_some, (hg.fits node hmem).entry_iff.2 hid]

theorem WellFormed.kind?_exit (hg : g.WellFormed) : g.kind? exit = some .groupOutput := by
  obtain ⟨node, hnode⟩ := hasNode_iff.1 hg.hasExit
  obtain ⟨hmem, hid⟩ := mem_of_node? hnode
  rw [kind?, hnode, Option.map_some, (hg.fits node hmem).exit_iff.2 hid]

theorem WellFormed.lt_nextLink (hg : g.WellFormed) {l : LinkId} (h : g.hasLink l) :
    l < g.nextLink := by
  obtain ⟨k, hk, rfl⟩ := hasLink_iff.1 h
  exact hg.link_lt k hk

/-- **Every history of edits is sound.** The graph it leads to is well formed, with the
two interface nodes in it. An edit that the graph refuses leaves it as it was. A node or
a link that is there at one time and gone at a later time is not there at any time after
that. -/
theorem sound_history (es : List Edit) :
    (history es).WellFormed ∧
      (history es).kind? entry = some .groupInput ∧ (history es).kind? exit = some .groupOutput ∧
      (∀ (e : Edit) err, (e.perform (history es)).1 = .error err →
        (e.perform (history es)).2 = history es) ∧
      (∀ more rest n, (history es).hasNode n → ¬ (history (es ++ more)).hasNode n →
        ¬ (history (es ++ more ++ rest)).hasNode n) ∧
      ∀ more rest l, (history es).hasLink l → ¬ (history (es ++ more)).hasLink l →
        ¬ (history (es ++ more ++ rest)).hasLink l := by
  have hg := wellFormed_history es
  refine ⟨hg, hg.kind?_entry, hg.kind?_exit, fun _ _ h => Edit.perform_of_error h, ?_, ?_⟩
  · intro more rest n hn hgone hback
    have hlt := Nat.lt_of_lt_of_le (hg.lt_nextNode hn) (continues_history es more).nextNode_le
    exact hgone ((continues_history (es ++ more) rest).nodes n hlt hback)
  · intro more rest l hl hgone hback
    have hlt := Nat.lt_of_lt_of_le (hg.lt_nextLink hl) (continues_history es more).nextLink_le
    exact hgone ((continues_history (es ++ more) rest).links l hlt hback)

/-- A node that is removed and followed by another of its kind stays removed. -/
theorem sound_history_of_removal :
    (history [.createNode .combineXyz]).hasNode 2 ∧
      ¬ (history ([.createNode .combineXyz] ++ [.removeNode 2])).hasNode 2 ∧
      ¬ (history ([.createNode .combineXyz] ++ [.removeNode 2] ++
        [.createNode .combineXyz])).hasNode 2 := by
  have hmade : (history [.createNode .combineXyz]).hasNode 2 := by decide
  have hgone : ¬ (history ([.createNode .combineXyz] ++ [.removeNode 2])).hasNode 2 := by decide
  obtain ⟨-, -, -, -, hnodes, -⟩ := sound_history [.createNode .combineXyz]
  exact ⟨hmade, hgone, hnodes _ _ 2 hmade hgone⟩

end Graph

end NodeFormula
