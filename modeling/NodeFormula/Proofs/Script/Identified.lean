import NodeFormula.Compile
import NodeFormula.Proofs.Build.Correct
import NodeFormula.Proofs.Build.Identified
import NodeFormula.Proofs.Script.Actions
/-!
# NodeFormula — identities name sockets

A graph has a history of edits, builds and scripts, and what fails in it leaves something
behind as well. Scripts keep names apart as builds do, for whatever arguments they are given
(`Session.Keeping`), and so does every turn of such a history (`Turn.identified`). So the
identity that an operand has in a tag says which socket it is (`identities_distinct`).
-/

namespace NodeFormula

open Graph Pass

/-! ## Scripts -/

namespace Session

variable {ε α β : Type} {s : Session} {x : ScriptM α}

/-- **An operation of a session keeps names apart**, also when it fails. -/
def Keeping (x : ScriptM α) : Prop :=
  ∀ s : Session, Identified s.pass →
    Ends s x (fun _ s' => Identified s'.pass) fun s' => Identified s'.pass

namespace Keeping

theorem pure (a : α) : Keeping (Pure.pure a : ScriptM α) := fun _ h => h

theorem throw (e : ScriptError) : Keeping (throw e : ScriptM α) := fun _ h => h

theorem bind {f : α → ScriptM β} (hx : Keeping x) (hf : ∀ a, Keeping (f a)) : Keeping (x >>= f) :=
  fun s h => (hx s h).bind hf

theorem get {f : Session → ScriptM β} (hf : ∀ s, Keeping (f s)) :
    Keeping (MonadState.get >>= f) :=
  fun s h => .get (hf s s h)

theorem graph {f : Graph → ScriptM β} (hf : ∀ g, Keeping (f g)) : Keeping (Session.graph >>= f) :=
  fun s h => .graph (hf s.pass.graph s h)

theorem check {r : Except ScriptError α} {f : α → ScriptM β} (hf : ∀ a, r = .ok a → Keeping (f a)) :
    Keeping (Session.check r >>= f) :=
  fun s h => .check h fun a ha => hf a ha s h

theorem onPass {f : ε → ScriptError} {y : PassM ε α} (hy : Identifying y) :
    Keeping (Session.onPass f y) :=
  fun _ h => .onPass (Ensures.weaken hy (fun _ hp => hp ▸ h) (fun _ _ h => h) fun _ _ h => h)
    (fun _ _ h => h) fun _ _ h => h

theorem newValue (target : Target) (kind : Kind) (name : Option String) :
    Keeping (Session.newValue target kind name) := fun _ h => h

theorem mapM {γ : Type} {f : γ → ScriptM α} (hf : ∀ x, Keeping (f x)) (xs : List γ) :
    Keeping (xs.mapM f) := by
  induction xs with
  | nil => exact .pure []
  | cons x xs ih =>
    rw [List.mapM_cons]
    exact .bind (hf x) fun a => .bind ih fun as => .pure (a :: as)

/-- What follows a new tag may rely on where it comes from. -/
theorem nextTag_bind [TagDigest] {f : GraphError → ScriptError} {function : String}
    {identities : List String} {k : Tag → ScriptM β} (h : Opens Char.isLower function)
    (hk : ∀ t, t.Made → Keeping (k t)) :
    Keeping (Session.onPass f (nextTag function identities) >>= k) := by
  intro s hs
  have htag : Ends s (Session.onPass f (nextTag function identities))
      (fun t s' => t.Made ∧ Identified s'.pass) fun s' => Identified s'.pass :=
    .onPass (Ensures.weaken (ensures_nextTag_made h identities) (fun _ hp => hp ▸ hs)
      (fun _ _ h => h) fun _ _ h => h) (fun _ _ h => h) fun _ _ h => h
  exact htag.bind fun t s' ht => hk t ht.1 s' ht.2

end Keeping

theorem keeping_input (kind : Kind) (name : String) : Keeping (input kind name) := by
  refine .graph fun g => ?_
  cases g.input? name with
  | none => exact .throw _
  | some found =>
    simp only
    split
    · exact .newValue _ _ _
    · exact .throw _

theorem keeping_write (i : InputRef) (taker given : Kind) (arg : Arg) :
    Keeping (write i taker given arg) := by
  have hconstant : ∀ v, Keeping (onPass graphError (setConstant i v)) := fun v =>
    .onPass (.of_retaining (retaining_setConstant i v))
  cases arg with
  | value v =>
    rw [write]
    cases v.output? with
    | none => exact .throw _
    | some o =>
      exact .bind (.onPass (.of_retaining (retaining_linkOutput o i))) fun _ => .pure ()
  | float a => exact .bind (hconstant _) fun _ => .pure ()
  | sequence items =>
    rw [write.eq_def]
    split
    · rename_i heq
      cases heq
    · rename_i heq
      cases heq
    · exact .bind (hconstant _) fun _ => .pure ()
    · exact .pure ()

theorem keeping_output (kind : Kind) (name : String) (arg : Arg) :
    Keeping (output kind name arg) := by
  refine .graph fun g => ?_
  cases g.output? name with
  | none => exact .throw _
  | some found =>
    simp only
    split
    · exact .throw _
    · refine .check fun given _ => ?_
      split
      · exact .throw _
      · exact .bind (keeping_write _ _ _ _) fun _ => .newValue _ _ _

variable [TagDigest]

theorem keeping_materialize (function : String) (args : List Arg) (kind : Kind) :
    Keeping (materialize function args kind) := by
  refine .check fun operands _ => .graph fun g => .check fun f hf => ?_
  have hopens := Catalogue.opens_of_get? (Catalogue.require_eq_ok.1 (mapError_eq_ok hf))
  exact .nextTag_bind hopens fun t ht =>
    .bind (.onPass (f.identifying_call ht operands)) fun o => .newValue _ _ _

theorem keeping_component (v : ScriptValue) (index : Nat) : Keeping (component v index) := by
  refine .bind ?_ fun n => .newValue _ _ _
  rw [separate]
  split
  · refine .get fun s => ?_
    split
    · exact .pure _
    · exact .graph fun g => .nextTag_bind (by decide) fun t ht =>
        .bind (.onPass (identifying_findOrCreate ht _ _)) fun n =>
          .bind (fun _ h => h) fun _ => .pure n
  · exact .throw _

/-- **An action keeps names apart**, whatever its arguments are. -/
theorem keeping_run (a : Action) : Keeping a.run := by
  have hone : ∀ {x : ScriptM ScriptValue}, Keeping x → Keeping (do return [← x]) :=
    fun hx => .bind hx fun v => .pure [v]
  cases a with
  | input kind name => exact hone (keeping_input kind name)
  | output kind name arg => exact hone (keeping_output kind name arg)
  | operate op lhs rhs =>
    refine hone (.check fun kinds _ => ?_)
    cases kinds with
    | nil => exact .throw _
    | cons l rest =>
      simp only
      cases op.result? l rest.head? with
      | none => exact .throw _
      | some kind => exact keeping_materialize _ _ kind
  | call function args =>
    refine hone (.check fun f _ => .check fun kinds _ => ?_)
    split
    · exact .throw _
    · exact keeping_materialize _ _ _
  | callAs function args kind =>
    refine hone (.check fun kinds _ => ?_)
    split
    · exact .throw _
    · exact keeping_materialize _ _ kind
  | component v axis => exact hone (keeping_component v axis)
  | index v i =>
    have hresolved : ∀ j : Int, Keeping (if 0 ≤ j ∧ j < 3 then component v j.toNat
        else MonadExcept.throw (.indexOutOfRange v.displayName i)) := by
      intro j
      split
      · exact keeping_component v _
      · exact .throw _
    exact hone (hresolved _)
  | slice v first last => exact .mapM (keeping_component v) _
  | components v => exact .mapM (keeping_component v) _

/-- So does a script. -/
theorem identified_play (script : List Action) {x : Session × List ScriptValue}
    (hx : Identified x.1.pass) : Identified (play script x).1.pass := by
  induction script generalizing x with
  | nil => exact hx
  | cons a script ih =>
    refine ih ?_
    have hrun := keeping_run a x.1 hx
    rw [perform]
    cases h : a.run x.1 with
    | ok ws s => exact hrun.of_ok h
    | error e s => exact hrun.of_error h

/-- How a session comes to its end: some are only dropped. -/
inductive Ending where
  | finished (prune : Bool)
  | aborted
  | dropped

/-- The graph that a session leaves. -/
def left (s : Session) : Ending → Graph
  | .finished prune => (s.finish prune).2
  | .aborted => s.abort.2
  | .dropped => s.pass.graph

omit [TagDigest] in
theorem identified_left (hs : Identified s.pass) (ending : Ending) :
    (s.left ending).Identified := by
  cases ending with
  | finished prune =>
    rw [left, finish]
    split
    · have hprune := Identifying.of_retaining retaining_prune s.pass hs
      cases hpruned : Pass.prune s.pass with
      | error err q =>
        rw [hpruned] at hprune
        exact hprune.graph
      | ok tags q =>
        rw [hpruned] at hprune
        exact hprune.graph
    · exact hs.graph
  | aborted => exact (hs.of_retains (retains_rollBack s.pass)).graph
  | dropped => exact hs.graph

end Session

/-! ## Histories -/

/-- What may happen to a graph. -/
inductive Turn where
  | edit (e : Edit)
  | build (o : BuildOptions) (b : Bindings) (e : Expr)
  | buildText (o : BuildOptions) (b : Bindings) (text : String)
  | compile (o : CompileOptions) (b : Bindings) (raw : String)
  /-- A script whose actions may fail and whose session ends in any way. -/
  | script (spacing : Float32) (actions : List Session.Action) (ending : Session.Ending)

namespace Turn

variable [TagDigest]

/-- The graph after a turn. -/
def run (g : Graph) : Turn → Graph
  | edit e => (e.perform g).2
  | build o b e => (NodeFormula.build o b e g).2
  | buildText o b text => (NodeFormula.buildText o b text g).2
  | compile o b raw => (NodeFormula.compile o b raw g).2
  | script spacing actions ending =>
    (Session.play actions (Session.start g spacing, [])).1.left ending

/-- Nodes are tagged by hand. -/
def isTagging : Turn → Bool
  | edit e => e.isTagging
  | build .. | buildText .. | compile .. | script .. => false

/-- The graph after some turns. -/
def after (turns : List Turn) (g : Graph) : Graph := turns.foldl run g

theorem identified {g : Graph} (hg : g.Identified) {turn : Turn} (h : turn.isTagging = false) :
    (turn.run g).Identified := by
  cases turn with
  | edit e => exact hg.perform h
  | build o b e => exact hg.build o b e
  | buildText o b text =>
    rw [run, NodeFormula.buildText]
    split
    · exact hg
    · exact hg
    · split
      · exact hg.build o b _
      · exact hg
  | compile o b raw =>
    rw [run, NodeFormula.compile]
    split
    · exact hg
    · rename_i canonical e _
      have hbuilt := hg.build o.build b e
      split <;> rename_i hbuild <;> rw [hbuild] at hbuilt <;> exact hbuilt
  | script spacing actions ending =>
    exact Session.identified_left (Session.identified_play actions (.start hg spacing)) ending

/-- **Names stay apart through a history.** -/
theorem identified_after {g : Graph} (hg : g.Identified) (turns : List Turn)
    (h : ∀ turn ∈ turns, turn.isTagging = false) : (after turns g).Identified := by
  induction turns generalizing g with
  | nil => exact hg
  | cons turn turns ih =>
    rw [List.forall_mem_cons] at h
    exact ih (identified hg h.1) h.2

end Turn

/-! ## Identities -/

namespace Graph.Identified

variable {g : Graph} (hg : g.Identified)

include hg

theorem nodup_names : (g.nodes.map Node.name).Nodup := by
  have hnames := hg.names
  rwa [signs, List.map_map] at hnames

/-- No two nodes carry the same tag. -/
theorem nodup_tags : (g.nodes.filterMap Node.tag).Nodup := by
  have hname : ∀ a ∈ g.nodes, ∀ t, a.tag = some t → a.name = t.text := fun a ha t ht =>
    ((hg.proper a.sign (List.mem_map_of_mem ha)).name_of_tag ht).1
  refine List.pairwise_filterMap.2 ((List.pairwise_map.1 hg.nodup_names).imp_of_mem ?_)
  rintro a a' ha ha' hne t ht _ ht' rfl
  exact hne ((hname a ha t ht).trans (hname a' ha' t ht').symm)

/-- **The identity of an output says which one it is.** -/
theorem identity_inj {o o' : OutputRef} {s s' : Socket} (hs : g.outputSocket o = .ok s)
    (hs' : g.outputSocket o' = .ok s')
    (h : (Operand.socket o).identity g = (Operand.socket o').identity g) : o = o' := by
  obtain ⟨a, ha, -⟩ := outputSocket_eq_ok.1 hs
  obtain ⟨a', ha', -⟩ := outputSocket_eq_ok.1 hs'
  rw [Operand.identity, Operand.identity, name?, name?, ha, ha'] at h
  obtain ⟨hname, hindex⟩ := socketIdentity_inj h
  obtain ⟨hmem, hid⟩ := mem_of_node? ha
  obtain ⟨hmem', hid'⟩ := mem_of_node? ha'
  have hnode : o.node = o'.node := by
    rw [← hid, ← hid', List.inj_on_of_nodup_map hg.nodup_names hmem hmem' hname]
  cases o
  cases o'
  cases hnode
  cases hindex
  rfl

end Graph.Identified

/-- The identity of a socket is not the one that constants have. -/
theorem Operand.identity_ne (g : Graph) (o : OutputRef) :
    (socket o).identity g ≠ Tag.floatIdentity ∧ (socket o).identity g ≠ Tag.vectorIdentity :=
  socketIdentity_ne

/-- **Identities are those of sockets**, after any history in which nobody tags a node by hand:
no tag is carried twice, no name is given twice, and an output that exists is told from all
others and from constants by its identity. Which digest tags are derived with does not matter. -/
theorem identities_distinct [TagDigest] {inputs outputs : List (String × SocketType)} {g : Graph}
    (hg : Graph.withInterface inputs outputs = .ok g) {turns : List Turn}
    (hturns : ∀ turn ∈ turns, turn.isTagging = false) :
    ((Turn.after turns g).nodes.filterMap Node.tag).Nodup ∧
      ((Turn.after turns g).nodes.map Node.name).Nodup ∧
      (∀ o o' s s', (Turn.after turns g).outputSocket o = .ok s →
        (Turn.after turns g).outputSocket o' = .ok s' →
        (Operand.socket o).identity (Turn.after turns g)
          = (Operand.socket o').identity (Turn.after turns g) → o = o') ∧
      ∀ o, (Operand.socket o).identity (Turn.after turns g) ≠ Tag.floatIdentity ∧
        (Operand.socket o).identity (Turn.after turns g) ≠ Tag.vectorIdentity := by
  have hafter := Turn.identified_after (Graph.identified_of_withInterface hg) turns hturns
  exact ⟨hafter.nodup_tags, hafter.nodup_names, fun o o' s s' => hafter.identity_inj,
    Operand.identity_ne _⟩

/-- Values come and go, a formula repeats a product, another is refused half way, and of two
scripts one is taken back and one is left as it stands. -/
def restless : List Turn :=
  let v : ScriptValue := ⟨.output ⟨entry, 1⟩, .vector, some "v", 1, .here⟩
  let sum : Session.Action := .operate .add (.float 1) (some (.value v))
  [.edit (.createNode .value), .edit (.createNode .value), .edit (.removeNode 3),
    .edit (.createNode .value), .edit (.newInput "w" .float),
    .compile .standard (.atInterface ⟨exit, 0⟩) "v*2 + v*2",
    .compile .standard (.atInterface ⟨exit, 0⟩) "v*w + sin(v)", .edit (.removeSocket "w"),
    .script 200 [sum, .call "sqrt" [.value v], .index v 1, sum] .aborted,
    .script 200 [sum, .index v 1, sum] .dropped]

/-- The number of the value that was removed is not given again, and calls that are made twice
have two nodes. -/
theorem identities_distinct_restless :
    (Turn.after restless mixed).nodes.map Node.name =
      ["Group Input", "Group Output", "Value", "Value.002", "mult.5e9266c48002c269",
        "mult.5e9266c48002c269#1", "add.3b080e6967c57ad8", "add.e8c31e6e94ac71ef",
        "separate.46cc544450c0421b", "add.e8c31e6e94ac71ef#1"] ∧
    ((Turn.after restless mixed).nodes.filterMap Node.tag).Nodup ∧
      ((Turn.after restless mixed).nodes.map Node.name).Nodup ∧
      (∀ o o' s s', (Turn.after restless mixed).outputSocket o = .ok s →
        (Turn.after restless mixed).outputSocket o' = .ok s' →
        (Operand.socket o).identity (Turn.after restless mixed)
          = (Operand.socket o').identity (Turn.after restless mixed) → o = o') ∧
      ∀ o, (Operand.socket o).identity (Turn.after restless mixed) ≠ Tag.floatIdentity ∧
        (Operand.socket o).identity (Turn.after restless mixed) ≠ Tag.vectorIdentity := by
  have hface : withInterface [("x", .float), ("v", .vector)] [("a", .vector)] = .ok mixed := by
    rfl
  have hnames : (Turn.after restless mixed).nodes.map Node.name =
      ["Group Input", "Group Output", "Value", "Value.002", "mult.5e9266c48002c269",
        "mult.5e9266c48002c269#1", "add.3b080e6967c57ad8", "add.e8c31e6e94ac71ef",
        "separate.46cc544450c0421b", "add.e8c31e6e94ac71ef#1"] := by decide +kernel
  exact ⟨hnames, identities_distinct hface (by decide)⟩

end NodeFormula
