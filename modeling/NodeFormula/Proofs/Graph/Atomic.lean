import NodeFormula.Graph.Edit
/-!
# NodeFormula — edits that fail change nothing

An operation on a graph keeps what it has done before it fails. One that does nothing before
it fails is *atomic*, and every operation is. Most of them ask first and change the graph
afterwards; `removeNode` and `unlink` take something out of the graph and fail if it was not
there, in which case nothing was taken out.

Each operation has an equation for its run and one for its outcome, and all that is proved of
it relies on these.
-/

namespace NodeFormula

namespace GraphM

variable {α β : Type} {g g' : Graph} {n : NodeId} {a : α} {e : GraphError} {m : GraphM α}

/-! ## Runs of statements -/

section

variable (g)

@[simp] theorem run_pure : (pure a : GraphM α) g = .ok a g := rfl

@[simp] theorem run_modify (f : Graph → Graph) : (modify f : GraphM Unit) g = .ok () (f g) := rfl

@[simp] theorem run_get_bind (k : Graph → GraphM β) : (get >>= k) g = k g g := rfl

@[simp] theorem run_throw_bind (k : α → GraphM β) : (throw e >>= k) g = .error e g := rfl

@[simp] theorem run_modify_bind (f : Graph → Graph) (k : Unit → GraphM β) :
    (modify f >>= k) g = k () (f g) := rfl

@[simp] theorem run_takeNode_bind (n : NodeId) (k : Bool → GraphM β) :
    (takeNode n >>= k) g = k (g.hasNode n) { g with nodes := g.nodes.filter (·.id != n) } := rfl

@[simp] theorem run_takeLink_bind (l : LinkId) (k : Bool → GraphM β) :
    (takeLink l >>= k) g = k (g.links.any (·.id == l)) (g.keepLinks (·.id != l)) := rfl

@[simp] theorem run_ite (c : Prop) [Decidable c] (m m' : GraphM α) :
    (if c then m else m') g = if c then m g else m' g := by
  split <;> rfl

end

theorem run_bind_of_ok {k : α → GraphM β} (h : m g = .ok a g') : (m >>= k) g = k a g' := by
  change EStateM.bind m k g = _
  rw [EStateM.bind, h]

theorem run_bind_of_error {k : α → GraphM β} (h : m g = .error e g') :
    (m >>= k) g = .error e g' := by
  change EStateM.bind m k g = _
  rw [EStateM.bind, h]

theorem run_read_of_ok {f : Graph → Except GraphError α} (h : f g = .ok a) :
    read f g = .ok a g := by
  rw [read, h]

theorem run_read_of_error {f : Graph → Except GraphError α} (h : f g = .error e) :
    read f g = .error e g := by
  rw [read, h]

/-! ## Outcomes -/

theorem outcome_eq_ok : m.outcome g = .ok (a, g') ↔ m g = .ok a g' := by
  rw [outcome]
  cases m g <;> simp

theorem outcome_of_ok (h : m g = .ok a g') : m.outcome g = .ok (a, g') := outcome_eq_ok.2 h

theorem outcome_of_error (h : m g = .error e g') : m.outcome g = .error e := by
  rw [outcome, h]

theorem after_of_ok {m : GraphM Unit} (h : m g = .ok () g') : m.after g = .ok g' := by
  rw [after, outcome_of_ok h]
  rfl

theorem after_of_error {m : GraphM Unit} (h : m g = .error e g') : m.after g = .error e := by
  rw [after, outcome_of_error h]
  rfl

/-- What is made of the result of an operation. -/
theorem outcome_bind_pure (m : GraphM α) (f : α → β) (g : Graph) :
    (m >>= fun a => pure (f a) : GraphM β).outcome g = (m.outcome g).map (Prod.map f id) := by
  cases h : m g with
  | ok a g' =>
    have hrun : (m >>= fun a => pure (f a) : GraphM β) g = .ok (f a) g' := run_bind_of_ok h
    rw [outcome_of_ok h, outcome_of_ok hrun]
    rfl
  | error e g' =>
    rw [outcome_of_error h, outcome_of_error (run_bind_of_error h)]
    rfl

/-- **An operation that leaves the graph as it was where it fails.** -/
class Atomic (m : GraphM α) : Prop where
  unchanged : ∀ {g g' : Graph} {e : GraphError}, m g = .error e g' → g' = g

instance Atomic.bind_pure [hm : Atomic m] (f : α → β) :
    Atomic (m >>= fun a => pure (f a) : GraphM β) where
  unchanged {g g' e} h := by
    cases hr : m g with
    | ok a g'' =>
      rw [run_bind_of_ok hr] at h
      cases h
    | error e' g'' =>
      rw [run_bind_of_error hr] at h
      cases h
      exact hm.unchanged hr

end GraphM

namespace Graph

variable {g : Graph} {n : NodeId}

/-- A graph without a node and its links. -/
def without (g : Graph) (n : NodeId) : Graph :=
  { g with
    nodes := g.nodes.filter (·.id != n)
    links := g.links.filter fun l => l.source.node != n && l.target.node != n
    active := if g.active = some n then none else g.active }

/-- A graph without the input at a position. -/
def dropInput (g : Graph) (index : Nat) : Graph :=
  (g.updateNode entry fun n => { n with outputs := n.outputs.eraseIdx index }).closeInput index

/-- A graph without the output at a position. -/
def dropOutput (g : Graph) (index : Nat) : Graph :=
  (g.updateNode exit fun n => { n with inputs := n.inputs.eraseIdx index }).closeOutput index

/-- Puts a constant into an input of a node. -/
def putDefault (index : Nat) (v : Value) (node : Node) : Node :=
  { node with
    inputs := node.inputs.modify index fun s => { s with default := v.convert s.type } }

theorem hasNode_iff : g.hasNode n ↔ ∃ node, g.node? n = some node := Option.isSome_iff_exists

/-- A node that is not there can be taken out without effect. -/
theorem filter_of_not_hasNode (h : g.hasNode n = false) :
    g.nodes.filter (·.id != n) = g.nodes := by
  refine List.filter_eq_self.2 fun node hnode => ?_
  rw [hasNode, Option.isSome_eq_false_iff, Option.isNone_iff_eq_none, node?,
    List.find?_eq_none] at h
  simpa using h node hnode

/-- A link that is not there can be taken out without effect. -/
theorem keepLinks_of_not_any {l : LinkId} (h : g.links.any (·.id == l) = false) :
    g.keepLinks (·.id != l) = g := by
  have hkept : g.links.filter (·.id != l) = g.links := by
    refine List.filter_eq_self.2 fun k hk => ?_
    simpa using List.any_eq_false.1 h k hk
  rw [keepLinks, hkept]

theorem hasNode_of_findSocket? {name : String} {found : Nat × SocketType} {f : Node → List Socket}
    (h : findSocket? name (((g.node? n).map f).getD []) = some found) : g.hasNode n := by
  rw [hasNode]
  cases hnode : g.node? n with
  | some node => rfl
  | none =>
    rw [hnode] at h
    cases h

theorem hasEntry_of_input? {name : String} {found : OutputRef × SocketType}
    (h : g.input? name = some found) : g.hasNode entry := by
  obtain ⟨_, hfound, -⟩ := Option.map_eq_some_iff.1 h
  exact hasNode_of_findSocket? hfound

theorem hasExit_of_output? {name : String} {found : InputRef × SocketType}
    (h : g.output? name = some found) : g.hasNode exit := by
  obtain ⟨_, hfound, -⟩ := Option.map_eq_some_iff.1 h
  exact hasNode_of_findSocket? hfound

end Graph

namespace GraphM

open Graph

variable (g : Graph)

/-! ## Changes of a node -/

theorem run_modifyNode (n : NodeId) (f : Node → Node) :
    modifyNode n f g =
      if g.hasNode n then .ok () (g.updateNode n f) else .error (.unknownNode n) g := by
  rw [modifyNode]
  cases h : g.hasNode n <;> simp [h]

instance Atomic.modifyNode (n : NodeId) (f : Node → Node) : Atomic (modifyNode n f) where
  unchanged h := by
    rw [run_modifyNode] at h
    split at h <;> cases h
    rfl

/-! ## Nodes -/

theorem run_createNode (kind : NodeKind) :
    createNode kind g =
      if kind.isInterface then .error (.protectedNode entry) g
      else .ok (g.insertNode kind ⟨0, 0⟩).1 (g.insertNode kind ⟨0, 0⟩).2 := by
  rw [createNode]
  cases h : kind.isInterface <;> rfl

instance Atomic.createNode (kind : NodeKind) : Atomic (createNode kind) where
  unchanged h := by
    rw [run_createNode] at h
    split at h <;> cases h
    rfl

theorem run_removeNode (n : NodeId) :
    removeNode n g =
      if n = entry ∨ n = exit then .error (.protectedNode n) g
      else if g.hasNode n then .ok () (g.without n)
      else .error (.unknownNode n) { g with nodes := g.nodes.filter (·.id != n) } := by
  rw [removeNode]
  cases h : g.hasNode n
  · simp [h]
  · by_cases hactive : g.active = some n <;> simp [h, without, keepLinks, hactive]

/-- The node is taken out before the operation knows that it is there. -/
instance Atomic.removeNode (n : NodeId) : Atomic (removeNode n) where
  unchanged {g g' e} h := by
    rw [run_removeNode] at h
    split at h
    · cases h
      rfl
    · split at h
      · cases h
      · rename_i hnode
        cases h
        rw [filter_of_not_hasNode (Bool.eq_false_iff.2 hnode)]

instance Atomic.setTag (n : NodeId) (t : Tag) : Atomic (setTag n t) := Atomic.modifyNode n _

instance Atomic.setPlace (n : NodeId) (place : Place) : Atomic (setPlace n place) :=
  Atomic.modifyNode n _

instance Atomic.markAutomated (n : NodeId) : Atomic (markAutomated n) := Atomic.modifyNode n _

instance Atomic.setActive (n : Option NodeId) : Atomic (setActive n) where
  unchanged h := by cases h

/-! ## The interface -/

/-- A new socket is appended to those of an interface node, unless its name is taken. -/
theorem run_newInput (name : String) (type : SocketType) :
    newInput name type g =
      if (g.input? name).isSome then .error (.duplicateSocket name) g
      else if g.hasNode entry then
        .ok ⟨entry, g.inputSockets.length⟩
          (g.updateNode entry fun n => { n with outputs := n.outputs ++ [.fresh name type] })
      else .error (.unknownNode entry) g := by
  rw [newInput]
  cases hname : (g.input? name).isSome
  · simp only [run_get_bind, hname, Bool.false_eq_true, if_false]
    cases hentry : g.hasNode entry
    · exact run_bind_of_error ((run_modifyNode g _ _).trans (if_neg (Bool.eq_false_iff.1 hentry)))
    · exact run_bind_of_ok ((run_modifyNode g _ _).trans (if_pos hentry))
  · simp [hname]

instance Atomic.newInput (name : String) (type : SocketType) : Atomic (newInput name type) where
  unchanged h := by
    rw [run_newInput] at h
    split at h
    · cases h
      rfl
    · split at h <;> cases h
      rfl

theorem run_newOutput (name : String) (type : SocketType) :
    newOutput name type g =
      if (g.output? name).isSome then .error (.duplicateSocket name) g
      else if g.hasNode exit then
        .ok ⟨exit, g.outputSockets.length⟩
          (g.updateNode exit fun n => { n with inputs := n.inputs ++ [.fresh name type] })
      else .error (.unknownNode exit) g := by
  rw [newOutput]
  cases hname : (g.output? name).isSome
  · simp only [run_get_bind, hname, Bool.false_eq_true, if_false]
    cases hexit : g.hasNode exit
    · exact run_bind_of_error ((run_modifyNode g _ _).trans (if_neg (Bool.eq_false_iff.1 hexit)))
    · exact run_bind_of_ok ((run_modifyNode g _ _).trans (if_pos hexit))
  · simp [hname]

instance Atomic.newOutput (name : String) (type : SocketType) : Atomic (newOutput name type) where
  unchanged h := by
    rw [run_newOutput] at h
    split at h
    · cases h
      rfl
    · split at h <;> cases h
      rfl

/-- The interface node of a socket that was found is there, so only a name that neither side
has is refused. -/
theorem run_removeSocket (name : String) :
    removeSocket name g =
      match g.input? name with
      | some (o, _) => .ok () (g.dropInput o.index)
      | none =>
        match g.output? name with
        | some (i, _) => .ok () (g.dropOutput i.index)
        | none => .error (.unknownSocket name) g := by
  rw [removeSocket, run_get_bind]
  cases hinput : g.input? name with
  | some found =>
    exact run_bind_of_ok ((run_modifyNode g _ _).trans (if_pos (hasEntry_of_input? hinput)))
  | none =>
    dsimp only
    rw [run_get_bind]
    cases houtput : g.output? name with
    | some found =>
      exact run_bind_of_ok ((run_modifyNode g _ _).trans (if_pos (hasExit_of_output? houtput)))
    | none => rfl

instance Atomic.removeSocket (name : String) : Atomic (removeSocket name) where
  unchanged h := by
    rw [run_removeSocket] at h
    split at h
    · cases h
    · split at h <;> cases h
      rfl

/-! ## Constants and links -/

theorem run_setDefault (i : InputRef) (v : Value) :
    setDefault i v g =
      match g.inputSocket i with
      | .error e => .error e g
      | .ok s =>
        if s.type = .float ∧ v.type = .vector then .error (.constantType s.type v.type) g
        else .ok () (g.updateNode i.node (putDefault i.index v)) := by
  rw [setDefault]
  cases hs : g.inputSocket i with
  | error e => exact run_bind_of_error (run_read_of_error hs)
  | ok s =>
    rw [run_bind_of_ok (run_read_of_ok hs)]
    simp only [run_ite, run_throw_bind, run_modify]
    rfl

instance Atomic.setDefault (i : InputRef) (v : Value) : Atomic (setDefault i v) where
  unchanged h := by
    rw [run_setDefault] at h
    split at h
    · cases h
      rfl
    · split at h <;> cases h
      rfl

theorem run_link (source : OutputRef) (target : InputRef) :
    link source target g =
      match g.outputSocket source with
      | .error e => .error e g
      | .ok _ =>
        match g.inputSocket target with
        | .error e => .error e g
        | .ok _ =>
          if g.feeds target.node source.node then .error (.cycle target.node) g
          else .ok g.nextLink
            { g with
              links := (match g.incoming? target with
                | some old => g.links.filter (·.id != old.id)
                | none => g.links) ++ [⟨g.nextLink, source, target⟩]
              nextLink := g.nextLink + 1 } := by
  rw [link]
  cases hsource : g.outputSocket source with
  | error e => exact run_bind_of_error (run_read_of_error hsource)
  | ok s =>
    rw [run_bind_of_ok (run_read_of_ok hsource)]
    cases htarget : g.inputSocket target with
    | error e => exact run_bind_of_error (run_read_of_error htarget)
    | ok s' =>
      rw [run_bind_of_ok (run_read_of_ok htarget)]
      simp only [run_get_bind, run_ite, run_throw_bind]
      cases g.incoming? target <;> rfl

instance Atomic.link (source : OutputRef) (target : InputRef) : Atomic (link source target) where
  unchanged h := by
    rw [run_link] at h
    split at h
    · cases h
      rfl
    · split at h
      · cases h
        rfl
      · split at h <;> cases h
        rfl

theorem run_unlink (l : LinkId) :
    unlink l g =
      if g.links.any (·.id == l) then .ok () (g.keepLinks (·.id != l))
      else .error .unknownLink (g.keepLinks (·.id != l)) := by
  rw [unlink, run_takeLink_bind]
  cases g.links.any (·.id == l) <;> rfl

/-- The link is taken out before the operation knows that it is there. -/
instance Atomic.unlink (l : LinkId) : Atomic (unlink l) where
  unchanged h := by
    rw [run_unlink] at h
    split at h
    · cases h
    · rename_i hany
      cases h
      exact keepLinks_of_not_any (Bool.eq_false_iff.2 hany)

end GraphM

namespace Graph

/-! ## Outcomes of operations -/

section

open GraphM

variable (g : Graph)

theorem modifyNode_eq (n : NodeId) (f : Node → Node) :
    g.modifyNode n f = if g.hasNode n then .ok (g.updateNode n f) else .error (.unknownNode n) := by
  split
  · rename_i h
    exact after_of_ok (by rw [run_modifyNode, if_pos h])
  · rename_i h
    exact after_of_error (by rw [run_modifyNode, if_neg h])

theorem createNode_eq (kind : NodeKind) :
    g.createNode kind =
      if kind.isInterface then .error (.protectedNode entry)
      else .ok (g.insertNode kind ⟨0, 0⟩) := by
  split
  · rename_i h
    exact outcome_of_error (by rw [run_createNode, if_pos h])
  · rename_i h
    exact outcome_of_ok ((run_createNode g kind).trans (if_neg h))

theorem removeNode_eq (n : NodeId) :
    g.removeNode n =
      if n = entry ∨ n = exit then .error (.protectedNode n)
      else if g.hasNode n then .ok (g.without n) else .error (.unknownNode n) := by
  split
  · rename_i h
    exact after_of_error (by rw [run_removeNode, if_pos h])
  · rename_i h
    split
    · rename_i hnode
      exact after_of_ok (by rw [run_removeNode, if_neg h, if_pos hnode])
    · rename_i hnode
      exact after_of_error (by rw [run_removeNode, if_neg h, if_neg hnode])

theorem newInput_eq (name : String) (type : SocketType) :
    g.newInput name type =
      if (g.input? name).isSome then .error (.duplicateSocket name)
      else if g.hasNode entry then
        .ok (⟨entry, g.inputSockets.length⟩,
          g.updateNode entry fun n => { n with outputs := n.outputs ++ [.fresh name type] })
      else .error (.unknownNode entry) := by
  split
  · rename_i h
    exact outcome_of_error (by rw [run_newInput, if_pos h])
  · rename_i h
    split
    · rename_i hnode
      exact outcome_of_ok (by rw [run_newInput, if_neg h, if_pos hnode])
    · rename_i hnode
      exact outcome_of_error (by rw [run_newInput, if_neg h, if_neg hnode])

theorem newOutput_eq (name : String) (type : SocketType) :
    g.newOutput name type =
      if (g.output? name).isSome then .error (.duplicateSocket name)
      else if g.hasNode exit then
        .ok (⟨exit, g.outputSockets.length⟩,
          g.updateNode exit fun n => { n with inputs := n.inputs ++ [.fresh name type] })
      else .error (.unknownNode exit) := by
  split
  · rename_i h
    exact outcome_of_error (by rw [run_newOutput, if_pos h])
  · rename_i h
    split
    · rename_i hnode
      exact outcome_of_ok (by rw [run_newOutput, if_neg h, if_pos hnode])
    · rename_i hnode
      exact outcome_of_error (by rw [run_newOutput, if_neg h, if_neg hnode])

theorem removeSocket_eq (name : String) :
    g.removeSocket name =
      match g.input? name with
      | some (o, _) => .ok (g.dropInput o.index)
      | none =>
        match g.output? name with
        | some (i, _) => .ok (g.dropOutput i.index)
        | none => .error (.unknownSocket name) := by
  split
  · rename_i h
    exact after_of_ok (by rw [run_removeSocket, h])
  · rename_i h
    split
    · rename_i h'
      exact after_of_ok (by rw [run_removeSocket, h]; dsimp only; rw [h'])
    · rename_i h'
      exact after_of_error (by rw [run_removeSocket, h]; dsimp only; rw [h'])

theorem setDefault_eq (i : InputRef) (v : Value) :
    g.setDefault i v =
      match g.inputSocket i with
      | .error e => .error e
      | .ok s =>
        if s.type = .float ∧ v.type = .vector then .error (.constantType s.type v.type)
        else .ok (g.updateNode i.node (putDefault i.index v)) := by
  split
  · rename_i h
    exact after_of_error (by rw [run_setDefault, h])
  · rename_i h
    split
    · rename_i hbad
      exact after_of_error (by rw [run_setDefault, h]; exact if_pos hbad)
    · rename_i hfits
      exact after_of_ok (by rw [run_setDefault, h]; exact if_neg hfits)

theorem link_eq (source : OutputRef) (target : InputRef) :
    g.link source target =
      match g.outputSocket source with
      | .error e => .error e
      | .ok _ =>
        match g.inputSocket target with
        | .error e => .error e
        | .ok _ =>
          if g.feeds target.node source.node then .error (.cycle target.node)
          else .ok (g.nextLink,
            { g with
              links := (match g.incoming? target with
                | some old => g.links.filter (·.id != old.id)
                | none => g.links) ++ [⟨g.nextLink, source, target⟩]
              nextLink := g.nextLink + 1 }) := by
  split
  · rename_i h
    exact outcome_of_error (by rw [run_link, h])
  · rename_i h
    split
    · rename_i h'
      exact outcome_of_error (by rw [run_link, h]; dsimp only; rw [h'])
    · rename_i h'
      split
      · rename_i hcycle
        exact outcome_of_error (by rw [run_link, h]; dsimp only; rw [h']; exact if_pos hcycle)
      · rename_i hcycle
        exact outcome_of_ok (by rw [run_link, h]; dsimp only; rw [h']; exact if_neg hcycle)

theorem unlink_eq (l : LinkId) :
    g.unlink l =
      if g.links.any (·.id == l) then .ok (g.keepLinks (·.id != l)) else .error .unknownLink := by
  split
  · rename_i h
    exact after_of_ok (by rw [run_unlink, if_pos h])
  · rename_i h
    exact after_of_error (by rw [run_unlink, if_neg h])

end

end Graph

end NodeFormula
