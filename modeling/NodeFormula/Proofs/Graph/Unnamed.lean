import NodeFormula.Pass
import NodeFormula.Proofs.Graph.WellFormed
/-!
# NodeFormula — graphs without their names

No edit of a graph depends on what its nodes are called: on graphs that differ in tags, names
and labels alone it is refused for the same reason, or leaves graphs that differ in these
alone (`AlikeOn`). To tag a node is to do nothing, names apart (`alike_setTag`).
-/

namespace NodeFormula

/-- A node without tag, name and label. -/
def Node.unnamed (n : Node) : Node := { n with tag := none, name := "", label := "" }

namespace Graph

/-- A graph without the tags, names and labels of its nodes. -/
def unnamed (g : Graph) : Graph := { g with nodes := g.nodes.map Node.unnamed }

variable {g h : Graph} {n : NodeId} {i : InputRef} {o : OutputRef} {α : Type}

/-! ## Look-ups -/

theorem node?_unnamed (g : Graph) (n : NodeId) :
    g.unnamed.node? n = (g.node? n).map Node.unnamed :=
  node?_mapNodes (f := Node.unnamed) (fun _ => rfl) n

theorem hasNode_unnamed (g : Graph) (n : NodeId) : g.unnamed.hasNode n = g.hasNode n := by
  rw [hasNode, hasNode, node?_unnamed, Option.isSome_map]

theorem place?_unnamed (g : Graph) (n : NodeId) : g.unnamed.place? n = g.place? n := by
  rw [place?, place?, node?_unnamed, Option.map_map]
  rfl

theorem inputSocket_unnamed (g : Graph) (i : InputRef) :
    g.unnamed.inputSocket i = g.inputSocket i :=
  inputSocket_mapNodes (f := Node.unnamed) (fun _ => rfl) (fun _ => rfl) i

theorem outputSocket_unnamed (g : Graph) (o : OutputRef) :
    g.unnamed.outputSocket o = g.outputSocket o := by
  rw [outputSocket, outputSocket, node?_unnamed]
  cases g.node? o.node <;> rfl

theorem coerce_unnamed (g : Graph) (i : InputRef) (v : Value) :
    Pass.coerce g.unnamed i v = Pass.coerce g i v := by
  rw [Pass.coerce, Pass.coerce, inputType?, inputType?, inputSocket_unnamed]

theorem isVector_unnamed (g : Graph) (x : Operand) : x.isVector g.unnamed = x.isVector g := by
  cases x with
  | socket o => simp only [Operand.isVector, Operand.type?, outputType?, outputSocket_unnamed]
  | literal v => rfl

/-! ## Edits -/

/-- **Edits that come to the same, names apart**, on graphs that are the same, names apart. -/
def AlikeOn (m m' : GraphM α) : Prop :=
  ∀ g h, g.unnamed = h.unnamed →
    (m.outcome g).map (Prod.map id unnamed) = (m'.outcome h).map (Prod.map id unnamed)

/-- The names do not matter to an edit if it comes to what it does without them. -/
theorem AlikeOn.of_unnamed {m : GraphM α}
    (hm : ∀ g, (m.outcome g).map (Prod.map id unnamed)
      = (m.outcome g.unnamed).map (Prod.map id unnamed)) :
    AlikeOn m m := fun g h hgh => by rw [hm g, hm h, hgh]

/-- Edits without a result. -/
theorem AlikeOn.of_after (bare : Graph → Except GraphError Graph) {m m' : GraphM Unit}
    (hm : ∀ g, (m.after g).map unnamed = bare g.unnamed)
    (hm' : ∀ g, (m'.after g).map unnamed = bare g.unnamed) : AlikeOn m m' := by
  have hmap : ∀ (m : GraphM Unit) g, (m.outcome g).map (Prod.map id unnamed) =
      ((m.after g).map unnamed).map ((), ·) := by
    intro m g
    rw [GraphM.after]
    cases m.outcome g <;> rfl
  intro g h hgh
  rw [hmap, hmap, hm, hm', hgh]

theorem unnamed_unnamed (g : Graph) : g.unnamed.unnamed = g.unnamed := by
  rw [unnamed, unnamed, List.map_map]
  rfl

theorem unnamed_updateNode {f f' : Node → Node} (hf : ∀ a, (f a).unnamed = f' a.unnamed) :
    (g.updateNode n f).unnamed = g.unnamed.updateNode n f' :=
  mapNodes_updateNode (fun _ => rfl) hf

/-- Changes to a node that come to the same, names apart. -/
theorem alike_modifyNode (n : NodeId) (bare : Node → Node) {f f' : Node → Node}
    (hf : ∀ a, (f a).unnamed = bare a.unnamed) (hf' : ∀ a, (f' a).unnamed = bare a.unnamed) :
    AlikeOn (GraphM.modifyNode n f) (GraphM.modifyNode n f') := by
  have hmodify : ∀ {f : Node → Node}, (∀ a, (f a).unnamed = bare a.unnamed) → ∀ g : Graph,
      (g.modifyNode n f).map unnamed = g.unnamed.modifyNode n bare := by
    intro f hf g
    rw [modifyNode_eq, modifyNode_eq, hasNode_unnamed]
    split
    · exact congrArg _ (unnamed_updateNode hf)
    · rfl
  exact .of_after (·.modifyNode n bare) (hmodify hf) (hmodify hf')

theorem alike_setPlace (n : NodeId) (place : Place) :
    AlikeOn (GraphM.setPlace n place) (GraphM.setPlace n place) :=
  alike_modifyNode n (fun a => { a with place }) (fun _ => rfl) fun _ => rfl

theorem alike_markAutomated (n : NodeId) :
    AlikeOn (GraphM.markAutomated n) (GraphM.markAutomated n) :=
  alike_modifyNode n (fun a => { a with automated := true }) (fun _ => rfl) fun _ => rfl

/-- **To give a node a tag is to do nothing**, names apart. -/
theorem alike_setTag (n : NodeId) (t t' : Tag) :
    AlikeOn (GraphM.setTag n t) (GraphM.setTag n t') :=
  alike_modifyNode n id (fun _ => rfl) fun _ => rfl

theorem alike_createNode (kind : NodeKind) : AlikeOn (GraphM.createNode kind) (GraphM.createNode kind) := by
  refine .of_unnamed fun g => ?_
  change (g.createNode kind).map _ = (g.unnamed.createNode kind).map _
  rw [createNode_eq, createNode_eq]
  split
  · rfl
  · have hnodes : ∀ node : Node, (g.nodes ++ [node]).map Node.unnamed =
        (g.unnamed.nodes ++ [node]).map Node.unnamed := by
      intro node
      rw [List.map_append, List.map_append]
      exact congrArg (· ++ _) (congrArg nodes (unnamed_unnamed g).symm)
    simp only [Except.map, Prod.map, insertNode, unnamed, hnodes]
    rfl

theorem alike_setActive (n : Option NodeId) :
    AlikeOn (GraphM.setActive n) (GraphM.setActive n) := by
  refine .of_unnamed fun g => ?_
  have hnode : g.unnamed.hasNode = g.hasNode := funext fun n => hasNode_unnamed g n
  have hset : (g.setActive n).unnamed = (g.unnamed.setActive n).unnamed := by
    rw [setActive, setActive, hnode]
    exact congrArg (fun g' : Graph => { g' with active := n.filter g.hasNode }) (unnamed_unnamed g).symm
  exact congrArg (fun g' => Except.ok ((), g')) hset

theorem alike_link (o : OutputRef) (i : InputRef) : AlikeOn (GraphM.link o i) (GraphM.link o i) := by
  have hlink : ∀ g : Graph, ((GraphM.link o i).outcome g).map (Prod.map id unnamed) = g.unnamed.link o i := by
    intro g
    change (g.link o i).map _ = _
    have hfeeds : g.unnamed.feeds i.node o.node = g.feeds i.node o.node := rfl
    have hincoming : g.unnamed.incoming? i = g.incoming? i := rfl
    rw [link_eq, link_eq, outputSocket_unnamed, inputSocket_unnamed, hfeeds, hincoming]
    cases g.outputSocket o with
    | error e => rfl
    | ok s =>
      cases g.inputSocket i with
      | error e => rfl
      | ok s' =>
        dsimp only
        split <;> rfl
  intro g h hgh
  rw [hlink, hlink, hgh]

theorem alike_setDefault (i : InputRef) (v : Value) :
    AlikeOn (GraphM.setDefault i v) (GraphM.setDefault i v) := by
  have hset : ∀ g : Graph, (g.setDefault i v).map unnamed = g.unnamed.setDefault i v := by
    intro g
    rw [setDefault_eq, setDefault_eq, inputSocket_unnamed]
    cases g.inputSocket i with
    | error e => rfl
    | ok s =>
      dsimp only
      split
      · rfl
      · exact congrArg Except.ok (unnamed_updateNode fun _ => rfl)
  exact .of_after (·.setDefault i v) hset hset

end Graph

end NodeFormula
