import NodeFormula.Proofs.Build.Drafted
import NodeFormula.Proofs.Build.Echoed
/-!
# NodeFormula — the nodes that a call asks for

A call derives a tag for its function and operands, and asks for a node for each stage of the
function (`Call`, `Query`). Stage by stage the pass accounts for every tagged node, and the
operands stay at hand (`Amid`). So each node that it is given meets the operands that it was
asked for with (`stages_met`).
-/

namespace NodeFormula

open Graph Pass

/-- A node that a pass asks for. -/
structure Query where
  tag : Tag
  kind : NodeKind
  operands : List Operand
  pass : Pass

namespace Query

/-- The node that the pass is given, and the pass from then on. -/
def answer (a : Query) : EStateM.Result GraphError Pass NodeId :=
  findOrCreate a.tag a.kind a.operands a.pass

/-- The node and the pass, if a node is given. -/
def given? (a : Query) : Option (NodeId × Pass) :=
  match a.answer with
  | .ok n q => some (n, q)
  | .error _ _ => none

theorem given?_eq_some {a : Query} {n : NodeId} {q : Pass} :
    a.given? = some (n, q) ↔ a.answer = .ok n q := by
  rw [given?]
  cases a.answer <;> simp

/-- **A node is given, and it meets the operands.** -/
def Met (a : Query) : Prop := ∃ n q, a.answer = .ok n q ∧ q.graph.Meets n a.operands

end Query

/-- **A pass moves on by queries**: what was in use has not changed, and what has been touched
since was asked for. -/
structure Pass.Advances (as : List Query) (p q : Pass) : Prop where
  settled : Settled p q
  asked : ∀ n ∈ q.touched, n ∈ p.touched ∨ ∃ a ∈ as, ∃ r, a.answer = .ok n r

namespace Pass.Advances

variable {as bs : List Query} {p q r : Pass}

theorem refl (p : Pass) : Advances [] p p := ⟨.refl p, fun _ hn => Or.inl hn⟩

theorem trans (h : Advances as p q) (h' : Advances bs q r) : Advances (as ++ bs) p r := by
  refine ⟨h.settled.trans h'.settled, fun n hn => ?_⟩
  rcases h'.asked n hn with hn | ⟨b, hb, hr⟩
  · refine (h.asked n hn).imp_right ?_
    rintro ⟨a, ha, hr⟩
    exact ⟨a, List.mem_append_left _ ha, hr⟩
  · exact Or.inr ⟨b, List.mem_append_right _ hb, hr⟩

end Pass.Advances

namespace Stage

/-- The node that a stage asks for. -/
def query (t : Tag) (operands : List Operand) (previous : Operand) (p : Pass) (s : Stage) : Query :=
  let args := s.args.map (Builtin.argOperand p.graph operands previous)
  ⟨s.tag t, s.node.kind (args.any (·.isVector p.graph)), args, p⟩

/-- The nodes that stages ask for, each with the one before it. -/
def queries (t : Tag) (operands : List Operand) : Operand → List Stage → Pass → List Query
  | _, [], _ => []
  | previous, s :: rest, p =>
    s.query t operands previous p ::
      match (s.query t operands previous p).answer with
      | .ok n q => queries t operands (.socket ⟨n, 0⟩) rest q
      | .error _ _ => []

variable {t : Tag} {operands : List Operand} {previous : Operand} {rest : List Stage} {s : Stage}
  {p q : Pass} {n : NodeId}

theorem queries_cons (h : (s.query t operands previous p).answer = .ok n q) :
    queries t operands previous (s :: rest) p
      = s.query t operands previous p :: queries t operands (.socket ⟨n, 0⟩) rest q := by
  rw [queries, h]

/-- A stage is built by its query. -/
theorem build_bind (h : (s.query t operands previous p).answer = .ok n q)
    {f : OutputRef → PassM GraphError OutputRef} :
    (Builtin.buildStage t operands previous s >>= f) p = f ⟨n, 0⟩ q := by
  have hrun : Builtin.buildStage t operands previous s p = .ok ⟨n, 0⟩ q := by
    change EStateM.bind (findOrCreate _ _ _) _ p = _
    rw [EStateM.bind]
    simp only [query, Query.answer, tag] at h
    rw [h]
    rfl
  change EStateM.bind _ f p = _
  rw [EStateM.bind, hrun]

end Stage

/-- A tag that a pass derives, and the stages that it asks for nodes for. -/
structure Call where
  function : String
  operands : List Operand
  stages : List Stage
  pass : Pass

namespace Call

/-- What the tag is derived from. -/
def key (c : Call) : Key := ⟨c.function, c.operands.map (·.identity c.pass.graph)⟩

variable [TagDigest]

/-- The nodes that the pass asks for. -/
def queries (c : Call) : List Query :=
  match (tagFor c.function c.operands : PassM BuildError Tag) c.pass with
  | .ok t p => Stage.queries t c.operands (.literal (.float 0)) c.stages p
  | .error _ _ => []

/-- **Every node that is asked for is given, and meets its operands.** -/
def Met (c : Call) : Prop := ∀ a ∈ c.queries, a.Met

/-- The pass that has derived the tag. -/
def begun (c : Call) : Pass := { c.pass with derived := c.key.base :: c.pass.derived }

theorem tagFor_eq {keys : List Key} (c : Call) (h : c.pass.derived = keys.map Key.base) :
    (tagFor c.function c.operands : PassM BuildError Tag) c.pass
      = .ok (c.key.next keys) c.begun := by
  rw [Key.next, ← h]
  rfl

/-- What follows the tag goes on from the pass that has derived it. -/
theorem tagFor_bind {α : Type} {keys : List Key} (c : Call) {f : Tag → PassM BuildError α}
    (h : c.pass.derived = keys.map Key.base) :
    (tagFor c.function c.operands >>= f) c.pass = f (c.key.next keys) c.begun := by
  change EStateM.bind _ f c.pass = _
  rw [EStateM.bind, c.tagFor_eq h]

theorem queries_eq {keys : List Key} (c : Call) (h : c.pass.derived = keys.map Key.base) :
    c.queries = Stage.queries (c.key.next keys) c.operands (.literal (.float 0)) c.stages c.begun := by
  rw [queries, c.tagFor_eq h]

end Call

/-- An operand that can be linked: its socket is there, on a node in use. -/
def Operand.AtHand (p : Pass) : Operand → Prop
  | .socket o => p.InUse o.node ∧ ∃ s, p.graph.outputSocket o = .ok s
  | .literal _ => True

theorem Pass.Settled.atHand {p q : Pass} (h : Settled p q) {x : Operand} (hx : x.AtHand p) :
    x.AtHand q := by
  cases x with
  | socket o =>
    obtain ⟨huse, s, hs⟩ := hx
    exact ⟨h.inUse huse, s, (outputSocket_congr (h.shows _ huse)).trans hs⟩
  | literal v => trivial

theorem Value.all_true (v : Value) : v.All fun _ => True := by
  cases v with
  | float a => trivial
  | vector w => exact ⟨trivial, trivial, trivial⟩

section

variable [TagDigest] {known keys : List Key} {name : String} {k : Key} {operands : List Operand}
  {previous : Operand} {stages done rest : List Stage} {s : Stage} {p q : Pass}

/-- **Some stages of a call are built**, in a pass that accounts for its nodes. -/
structure Amid (known : List Key) (name : String) (k : Key) (keys : List Key)
    (operands : List Operand) (done : List Stage) (previous : Operand) (p : Pass) : Prop where
  accounts : Accounts (fun _ => True) known name
    (fun T => Spent keys T ∨ ∃ s ∈ done, T = s.tag (k.next keys)) (k :: keys) p
  operands_atHand : ∀ x ∈ operands, x.AtHand p
  previous_atHand : previous.AtHand p
  identities : operands.map (·.identity p.graph) = k.identities
  identity : previous.identity p.graph
    = done.foldl (fun _ s => socketIdentity (s.tag (k.next keys)).text 0) Tag.floatIdentity
  scalar : ∀ v, previous = .literal v → v.type = .float

/-- The tags of a call are spent when its stages are built. -/
theorem Amid.spent (h : Amid known name k keys operands stages previous p) :
    Accounts (fun _ => True) known name (Spent (k :: keys)) (k :: keys) p := by
  refine h.accounts.weaken fun T hT => ?_
  rcases hT with hT | ⟨s, -, rfl⟩
  · exact hT.cons
  · exact ⟨k.next keys, List.mem_cons_self, s, rfl⟩

variable (hdistinct : ∀ a ∈ known, ∀ b ∈ k :: keys, a.base = b.base → a = b)
  (hname : '.' ∉ name.toList) (hstages : stages? k.function = some stages)
  (hsuits : ∀ s ∈ stages, s.Suits operands)

include hdistinct hname hstages hsuits

/-- **The next stage is given a node that meets its operands.** -/
theorem Amid.step (h : Amid known name k keys operands done previous p)
    (hs : stages = done ++ s :: rest) : (s.query (k.next keys) operands previous p).Met ∧
    ∃ n q, (s.query (k.next keys) operands previous p).answer = .ok n q ∧
      Amid known name k keys operands (done ++ [s]) (.socket ⟨n, 0⟩) q ∧
      Advances [s.query (k.next keys) operands previous p] p q := by
  let args := s.args.map (Builtin.argOperand p.graph operands previous)
  -- what is planned for the stage, by the identities that its arguments have at this time
  let x : Planned := ⟨s.tag (k.next keys), s,
    s.args.map (StageArg.identity? k.identities (previous.identity p.graph))⟩
  have hmem : s ∈ stages := hs ▸ List.mem_append_right _ List.mem_cons_self
  have hexpects : Expects (k :: keys) x := by
    simp only [x, h.identity]
    exact expects_stage (hs ▸ hstages) _
  have hargs : ∀ o, .socket o ∈ args → (Operand.socket o).AtHand p := by
    intro o ho
    rcases socket_of_mem_args ho with ho | ho
    · exact h.operands_atHand _ ho
    · exact ho ▸ h.previous_atHand
  have hwanted : Wanted (fun _ => True) known name
      (fun T => Spent keys T ∨ ∃ s ∈ done, T = s.tag (k.next keys)) (k :: keys) x args p :=
    { accounts := h.accounts
      distinct := hdistinct
      unpointed := fun _ => hname
      expects := hexpects
      fresh := not_spent_stage (fun a ha => h.accounts.sound a (List.mem_cons_of_mem _ ha)) hstages hs
      inUse := fun o ho => (hargs o ho).1
      sockets := fun o ho => (hargs o ho).2
      matched := by
        simp only [x, ← h.identities]
        exact matches_args previous (hsuits s hmem).toSettlesZeros }
  obtain ⟨n, q, hrun, hfitted, hold⟩ :=
    (hwanted.fits rfl (fits_args (hsuits s hmem) h.scalar)).exists_ok rfl
  -- the node was not in use before, so operands are at hand as they were
  have hsettled : Settled p q :=
    ⟨fun m hm => (hfitted.touched m).2 (Or.inr hm), fun m hm => hwanted.node?_of_inUse hfitted hm⟩
  refine ⟨⟨n, q, hrun, hfitted.meets⟩, n, q, hrun, ?_, hsettled, fun m hm => ?_⟩
  · obtain ⟨node, hnode, -, hname', -, houtputs, -⟩ := hfitted.gains.exists_node
    have hlen : node.outputs.length = 1 := by
      rw [← List.length_map (f := Socket.spec), houtputs]
      exact hexpects.sane.outputs _
    have hlt : 0 < node.outputs.length := by
      rw [hlen]
      exact Nat.one_pos
    exact
      { accounts := (hwanted.accounts_of_fitted rfl hfitted hold
          fun _ _ s _ => s.default.all_true).weaken fun T hT => by
            rcases hT with (hT | ⟨s', hs', hT⟩) | hT
            · exact Or.inl hT
            · exact Or.inr ⟨s', List.mem_append_left _ hs', hT⟩
            · exact Or.inr ⟨s, List.mem_append_right _ List.mem_cons_self, hT⟩
        operands_atHand := fun y hy => hsettled.atHand (h.operands_atHand y hy)
        previous_atHand := ⟨Or.inr ((hfitted.touched n).2 (Or.inl rfl)), _,
          outputSocket_eq_ok.2 ⟨node, hnode, List.getElem?_eq_getElem hlt⟩⟩
        identities := by
          rw [← h.identities]
          exact map_identity_eq fun o ho =>
            (hsettled.shows.sameFace (h.operands_atHand _ ho).1).socket
        identity := by
          rw [List.foldl_append]
          exact Charted.identity_socket (by rw [name?, hnode, Option.map_some, hname'])
        scalar := fun v hv => by cases hv }
  · rcases (hfitted.touched m).1 hm with rfl | hm
    · exact Or.inr ⟨_, List.mem_singleton_self _, q, hrun⟩
    · exact Or.inl hm

/-- The stages that remain. -/
theorem rest_met {o : OutputRef} (h : Amid known name k keys operands done (.socket o) p)
    (hs : stages = done ++ rest) :
    (∀ a ∈ Stage.queries (k.next keys) operands (.socket o) rest p, a.Met) ∧
    ∃ o' q, rest.foldlM (fun o s => Builtin.buildStage (k.next keys) operands (.socket o) s) o p
        = .ok o' q ∧
      Amid known name k keys operands stages (.socket o') q ∧
      Advances (Stage.queries (k.next keys) operands (.socket o) rest p) p q := by
  -- stages move from `rest` to `done`, and the result of the last one is the next operand
  induction rest generalizing done o p with
  | nil =>
    rw [List.append_nil] at hs
    exact ⟨List.forall_mem_nil _, o, p, rfl, hs ▸ h, .refl p⟩
  | cons s rest ih =>
    obtain ⟨hmet, n, q, hrun, hamid, hmoves⟩ := h.step hdistinct hname hstages hsuits hs
    obtain ⟨hrest, o', r, hrun', hamid', hmoves'⟩ := ih hamid (by rw [hs, List.append_assoc]; rfl)
    rw [Stage.queries_cons hrun]
    refine ⟨List.forall_mem_cons.2 ⟨hmet, hrest⟩, o', r, ?_, hamid', hmoves.trans hmoves'⟩
    rw [List.foldlM_cons]
    exact (Stage.build_bind hrun).trans hrun'

/-- **The nodes that the stages of a call are given meet their operands.** -/
theorem stages_met {first : Stage} (hs : stages = first :: rest)
    (haccounts : Accounts (fun _ => True) known name (Spent keys) (k :: keys) p)
    (hoperands : ∀ x ∈ operands, x.AtHand p)
    (hidentities : operands.map (·.identity p.graph) = k.identities) :
    (∀ a ∈ Stage.queries (k.next keys) operands (.literal (.float 0)) stages p, a.Met) ∧
    ∃ o q, (do
        let o ← Builtin.buildStage (k.next keys) operands (.literal (.float 0)) first
        rest.foldlM (fun o s => Builtin.buildStage (k.next keys) operands (.socket o) s) o :
          PassM GraphError OutputRef) p = .ok o q ∧
      Amid known name k keys operands stages (.socket o) q ∧
      Advances (Stage.queries (k.next keys) operands (.literal (.float 0)) stages p) p q := by
  have hstart : Amid known name k keys operands [] (.literal (.float 0)) p :=
    { accounts := haccounts.weaken fun _ => Or.inl
      operands_atHand := hoperands
      previous_atHand := trivial
      identities := hidentities
      identity := rfl
      scalar := fun v hv => by cases hv; rfl }
  obtain ⟨hmet, n, q, hrun, hamid, hmoves⟩ := hstart.step hdistinct hname hstages hsuits hs
  obtain ⟨hrest, o, r, hrun', hamid', hmoves'⟩ :=
    rest_met hdistinct hname hstages hsuits hamid (hs.trans List.singleton_append.symm)
  rw [hs, Stage.queries_cons hrun, ← hs]
  exact ⟨List.forall_mem_cons.2 ⟨hmet, hrest⟩, o, r, (Stage.build_bind hrun).trans hrun', hamid',
    hmoves.trans hmoves'⟩

end

end NodeFormula
