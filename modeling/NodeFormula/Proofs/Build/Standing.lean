import NodeFormula.Proofs.Build.Called
import NodeFormula.Proofs.Build.Repeated
import NodeFormula.Proofs.Pass.Supplied
/-!
# NodeFormula — calls that cannot fail

A pass stands on any graph whose interface carries no tags: it knows the tags that it has used,
and a tag that it has not used brings it a node without fail (`findOrCreate_obtains`). No tag is
given out twice, so a call whose arguments have been checked makes all its nodes, and its
result has the type that the function and the operands settle (`ensures_call`). The graph may
be one that no build has left, and a constant need not equal itself.
-/

namespace NodeFormula

open Graph Pass

namespace Pass

variable {p q : Pass} {n : NodeId} {t : Tag} {kind : NodeKind} {args : List Operand}

/-- **What holds of a pass between two operations.** Its cache knows the tags it has used. -/
structure Standing (p : Pass) : Prop where
  ready : p.graph.Ready
  touched : ∀ n ∈ p.touched, ∃ a t, p.graph.node? n = some a ∧ a.tag = some t
  cached : ∀ x ∈ p.cache, p.Uses x.1

/-- **The node of a tag is obtained**, and the nodes in use are as they were. -/
structure Obtained (p : Pass) (t : Tag) (kind : NodeKind) (n : NodeId) (q : Pass) : Prop where
  standing : Standing q
  settled : Settled p q
  touched : n ∈ q.touched
  kind : q.graph.kind? n = some kind
  derived : q.derived = p.derived
  uses : ∀ t', q.Uses t' → p.Uses t' ∨ t' = t

namespace Standing

theorem start {g : Graph} (hg : g.Ready) (spacing : Float32) : Standing (Pass.start g spacing) where
  ready := hg
  touched _ hn := absurd hn List.not_mem_nil
  cached _ hx := absurd hx List.not_mem_nil

variable (hp : Standing p)

include hp

/-- The node of the interface that takes outputs is none that the pass builds with. -/
theorem ne_exit (hn : p.InUse n) : n ≠ exit := by
  rintro rfl
  rcases hn with hn | hn
  · cases hn
  · obtain ⟨a, t, ha, htag⟩ := hp.touched _ hn
    rw [hp.ready.untagged _ a (Or.inr rfl) ha] at htag
    cases htag

variable (hfresh : ¬ p.Uses t)

include hfresh

/-- A node in use carries another tag than one that is not. -/
theorem tag_ne (hn : p.InUse n) : ∃ a, p.graph.node? n = some a ∧ a.tag ≠ some t := by
  rcases hn with rfl | hn
  · obtain ⟨a, ha⟩ := hasNode_iff.1 hp.ready.wf.hasEntry
    refine ⟨a, ha, ?_⟩
    rw [hp.ready.untagged _ a (Or.inl rfl) ha]
    exact (Option.some_ne_none t).symm
  · obtain ⟨a, -, ha, -⟩ := hp.touched n hn
    exact ⟨a, ha, fun htag => hfresh ⟨n, hn, a, ha, htag⟩⟩

/-- So it has stayed when the node of the tag is supplied. -/
theorem obtained (h : Supplied p t kind n q) : Obtained p t kind n q := by
  obtain ⟨a, ha, htag, hkind⟩ := h.node
  -- a node in use carries another tag than the one that is supplied, so it is kept
  have hshows : q.graph.Shows p := by
    intro m hm
    obtain ⟨b, hb, hne⟩ := hp.tag_ne hfresh hm
    rw [h.kept m b hb hne, hb]
  have hsettled : Settled p q := ⟨fun m hm => (h.touched m).2 (Or.inr hm), hshows⟩
  have hmem : n ∈ q.touched := (h.touched n).2 (Or.inl rfl)
  refine ⟨⟨hp.ready.of_faces h.wf fun m hm => ?_, fun m hm => ?_, fun x hx => ?_⟩, hsettled, hmem,
    by rw [kind?, ha, Option.map_some, hkind], h.derived, fun t' ht' => ?_⟩
  · obtain ⟨b, hb⟩ : ∃ b, p.graph.node? m = some b := by
      rcases hm with rfl | rfl
      · exact hasNode_iff.1 hp.ready.wf.hasEntry
      · exact hasNode_iff.1 hp.ready.wf.hasExit
    have hne : b.tag ≠ some t := by
      rw [hp.ready.untagged m b hm hb]
      exact (Option.some_ne_none t).symm
    rw [hb, h.kept m b hb hne]
  · rcases (h.touched m).1 hm with rfl | hm
    · exact ⟨a, t, ha, htag⟩
    · obtain ⟨b, t', hb, htag'⟩ := hp.touched m hm
      exact ⟨b, t', (hshows m (Or.inr hm)).trans hb, htag'⟩
  · rcases h.cached x hx with heq | hx
    · exact ⟨n, hmem, a, ha, heq ▸ htag⟩
    · exact hsettled.uses (hp.cached x hx)
  · obtain ⟨m, hm, b, hb, htag'⟩ := ht'
    rcases (h.touched m).1 hm with rfl | hm
    · rw [ha] at hb
      cases hb
      exact Or.inr (Option.some.inj (htag'.symm.trans htag))
    · exact Or.inl ⟨m, hm, b, (hshows m (Or.inr hm)).symm.trans hb, htag'⟩

/-- **A tag that the pass has not used brings it a node**, whatever the graph holds. -/
theorem findOrCreate_obtains (hk : kind.isInterface = false)
    (hlen : args.length = kind.inputs.length) (hfits : Fits kind args)
    (hargs : ∀ x ∈ args, x.AtHand p) :
    Ensures (· = p) (findOrCreate t kind args) (Obtained p t kind) fun _ _ => False := by
  have hcache : ∀ x ∈ p.cache, x.1 ≠ t := by
    rintro x hx rfl
    exact hfresh (hp.cached x hx)
  refine (findOrCreate_supplies hp.ready.wf hp.ready.untagged hcache hk hlen hfits
    fun o ho => ?_).weaken (fun _ h => h) (fun n q h => hp.obtained hfresh h) fun _ _ h => h
  obtain ⟨huse, hs⟩ := hargs _ ho
  obtain ⟨a, ha, hne⟩ := hp.tag_ne hfresh huse
  refine ⟨hs, fun b hb => ?_⟩
  rw [ha] at hb
  cases hb
  exact hne

end Standing

/-- What operands see of sockets in use stays. -/
theorem Settled.outputType? (h : Settled p q) {o : OutputRef} (ho : p.InUse o.node) :
    q.graph.outputType? o = p.graph.outputType? o := (h.shows.sameFace ho).socket.2

theorem Settled.any_isVector (h : Settled p q) (hargs : ∀ x ∈ args, x.AtHand p) :
    args.any (·.isVector q.graph) = args.any (·.isVector p.graph) :=
  any_isVector_eq fun o ho => (h.shows.sameFace (hargs (.socket o) ho).1).socket

end Pass

/-- The outputs of a node have the types that its kind prescribes. -/
theorem Graph.WellFormed.outputType?_of_kind? {g : Graph} (hg : g.WellFormed) {n : NodeId}
    {kind : NodeKind} (hkind : g.kind? n = some kind) (hk : kind.isInterface = false) (index : Nat) :
    g.outputType? ⟨n, index⟩ = (kind.outputs[index]?).map SocketSpec.type := by
  have hentry := (hg.ne_faces_of_kind? hkind hk).1
  obtain ⟨a, ha, rfl⟩ := Option.map_eq_some_iff.1 hkind
  obtain ⟨hmem, rfl⟩ := mem_of_node? ha
  rw [← (hg.fits a hmem).outputs hentry, List.getElem?_map, Option.map_map, outputType?,
    outputSocket, ha]
  cases h : a.outputs[index]? <;> simp [h, Except.toOption, Socket.spec]

namespace Builtin

/-- The type of what a function gives, by whether an operand is a vector. -/
def resultType (f : Builtin) (vector : Bool) : SocketType :=
  if f.support == .scalarOrVector && vector then .vector else .float

/-- The first stage of a function of components takes every operand. -/
theorem param_first {f : Builtin} (hf : f ∈ Catalogue.functions) (hs : f.support = .scalarOrVector)
    {i : Nat} (hi : i < f.arity) : .param i ∈ f.first.args := by
  have hall : ∀ f ∈ Catalogue.functions, f.support = .scalarOrVector → ∀ i < f.arity,
      StageArg.param i ∈ f.first.args := by decide +kernel
  exact hall f hf hs i hi

/-- A vector among the operands shows in a stage that takes them all, or that takes a stage
in which it shows. -/
theorem any_isVector_args {g : Graph} {operands : List Operand} {previous : Operand}
    {args : List StageArg}
    (h : (previous.isVector g = false ∧ ∀ i < operands.length, .param i ∈ args) ∨
      (previous.isVector g = operands.any (·.isVector g) ∧ .previous ∈ args)) :
    (args.map (argOperand g operands previous)).any (·.isVector g)
      = operands.any (·.isVector g) := by
  rw [Bool.eq_iff_iff, List.any_map, List.any_eq_true]
  constructor
  · rintro ⟨a, ha, hvector⟩
    refine (isVector_of_mem_args ha hvector).elim id fun hp => ?_
    rcases h with ⟨hnot, -⟩ | ⟨hsame, -⟩
    · rw [hnot] at hp
      cases hp.2
    · exact hsame ▸ hp.2
  · intro hany
    rcases h with ⟨-, hall⟩ | ⟨hsame, hprevious⟩
    · obtain ⟨i, hi, hvector⟩ := exists_param_isVector previous hall hany
      exact ⟨.param i, hi, hvector⟩
    · exact ⟨.previous, hprevious, by rw [Function.comp_apply, argOperand, hsame, hany]⟩

end Builtin

/-- A node that works on components gives a vector if it takes one. -/
theorem StageNode.resultType_componentwise (scalar : MathOp) (vector : VectorOp) (v : Bool) :
    ((StageNode.componentwise scalar vector).kind v).resultType = if v then .vector else .float := by
  cases v <;> rfl

section

variable [TagDigest] {p q : Pass} {k : Key} {keys : List Key} {operands : List Operand}
  {previous : Operand} {stages done rest : List Stage} {s : Stage} {f : Builtin}

/-- Some stages of a call are made, in a pass that stands. -/
structure Assembling (k : Key) (keys : List Key) (done : List Stage) (p : Pass) : Prop where
  standing : Standing p
  derived : p.derived = (k :: keys).map Key.base
  sound : ∀ k ∈ keys, k.Sound
  spent : ∀ t, p.Uses t → Spent keys t ∨ ∃ s ∈ done, t = s.tag (k.next keys)

/-- A pass that has derived the tag of a key. -/
def Pass.deriving (p : Pass) (k : Key) : Pass := { p with derived := k.base :: p.derived }

/-- No stage of the call is made then. -/
theorem Pass.Standing.nextTag {ε : Type} (hp : Standing p) (hkeyed : Keyed keys p) (k : Key) :
    (nextTag k.function k.identities : PassM ε Tag) p = .ok (k.next keys) (p.deriving k) ∧
      Assembling k keys [] (p.deriving k) := by
  refine ⟨?_, { hp with }, ?_, hkeyed.sound, fun t ht => Or.inl (hkeyed.spent t ht)⟩
  · rw [Key.next, ← hkeyed.derived]
    rfl
  · rw [List.map_cons, ← hkeyed.derived]
    rfl

/-- The tags of a call are spent when its stages are made. -/
theorem Assembling.keyed (h : Assembling k keys done p) (hk : k.Sound) : Keyed (k :: keys) p where
  derived := h.derived
  sound := List.forall_mem_cons.2 ⟨hk, h.sound⟩
  spent t ht := by
    rcases h.spent t ht with hspent | ⟨s, -, rfl⟩
    · exact hspent.cons
    · exact ⟨k.next keys, List.mem_cons_self, s, rfl⟩

/-- The node of a tag that is not spent yet. -/
theorem Assembling.obtained {n : NodeId} {kind : NodeKind} (h : Assembling k keys done p)
    (hobtained : Obtained p (s.tag (k.next keys)) kind n q) : Assembling k keys (done ++ [s]) q where
  standing := hobtained.standing
  derived := hobtained.derived.trans h.derived
  sound := h.sound
  spent t ht := by
    rcases hobtained.uses t ht with ht | rfl
    · rcases h.spent t ht with hspent | ⟨s', hs', rfl⟩
      · exact Or.inl hspent
      · exact Or.inr ⟨s', List.mem_append_left _ hs', rfl⟩
    · exact Or.inr ⟨s, List.mem_append_right _ List.mem_cons_self, rfl⟩

/-- **The node of a stage is made without fail**, of the kind that its arguments settle. -/
theorem ensures_buildStage (hstages : stages? k.function = some stages)
    (hs : stages = done ++ s :: rest) (h : Assembling k keys done p)
    (hoperands : ∀ x ∈ operands, x.AtHand p) (hprevious : previous.AtHand p)
    (hsuits : s.Suits operands)
    (hnumber : ∀ v, previous = .literal v → v.type = .float) :
    Ensures (· = p) (Builtin.buildStage (k.next keys) operands previous s)
      (fun o q => Assembling k keys (done ++ [s]) q ∧ Settled p q ∧ (Operand.socket o).AtHand q ∧
        q.graph.outputType? o = some (s.node.kind
          ((s.args.map (Builtin.argOperand p.graph operands previous)).any
            (·.isVector p.graph))).resultType)
      fun _ _ => False := by
  have hsane : s.Sane :=
    (orderly_of_stages? hstages).1.sane s (hs ▸ List.mem_append_right _ List.mem_cons_self)
  have hargs : ∀ x ∈ s.args.map (Builtin.argOperand p.graph operands previous), x.AtHand p := by
    intro x hx
    cases x with
    | literal v => trivial
    | socket o =>
      rcases socket_of_mem_args hx with ho | ho
      · exact hoperands _ ho
      · exact ho ▸ hprevious
  have hfresh : ¬ p.Uses (s.tag (k.next keys)) := fun hused =>
    not_spent_stage h.sound hstages hs (h.spent _ hused)
  refine Ensures.get fun p' hp' => ?_
  subst hp'
  refine Ensures.bind (h.standing.findOrCreate_obtains hfresh (hsane.inner _)
    (by rw [List.length_map, hsane.inputs]) (fits_args hsuits hnumber) hargs)
    fun n => Ensures.pure fun q hq => ?_
  obtain ⟨spec, hspec⟩ := List.length_eq_one_iff.1 (hsane.outputs
    ((s.args.map (Builtin.argOperand p'.graph operands previous)).any (·.isVector p'.graph)))
  have htype : q.graph.outputType? ⟨n, 0⟩ = some spec.type := by
    rw [hq.standing.ready.wf.outputType?_of_kind? hq.kind (hsane.inner _), hspec]
    rfl
  refine ⟨h.obtained hq, hq.settled, ⟨Or.inr hq.touched, exists_outputSocket htype⟩, ?_⟩
  rw [htype, NodeKind.resultType, hspec]
  rfl

omit [TagDigest] in
/-- The result of a stage has the type of the function's result, if what came before has. -/
theorem resultType_of_stage {g : Graph} (hf : f ∈ Catalogue.functions) (hs : s ∈ f.stages)
    (h : f.support = .scalarOrVector →
      (s.args.map (Builtin.argOperand g operands previous)).any (·.isVector g)
        = operands.any (·.isVector g)) :
    (s.node.kind ((s.args.map (Builtin.argOperand g operands previous)).any
      (·.isVector g))).resultType = f.resultType (operands.any (·.isVector g)) := by
  have hfixed := isFixed_eq hf hs
  cases hnode : s.node with
  -- a node of a fixed kind stands only in functions of scalars
  | fixed kind =>
    rw [hnode] at hfixed
    have hscalar : f.support = .scalarOnly := beq_iff_eq.1 hfixed.symm
    rw [← hnode, resultType_of_isFixed hf hs (by rw [hnode]; rfl), Builtin.resultType, hscalar]
    rfl
  | componentwise scalar vector =>
    rw [hnode] at hfixed
    have hsupport : f.support = .scalarOrVector := by
      cases hsupport : f.support with
      | scalarOrVector => rfl
      | scalarOnly =>
        rw [hsupport] at hfixed
        cases hfixed
    rw [h hsupport, StageNode.resultType_componentwise, Builtin.resultType, hsupport]
    rfl

/-- The stages that remain are made, and the last one gives the result. -/
theorem ensures_rest (hf : f ∈ Catalogue.functions) (hstages : stages? k.function = some f.stages)
    (hsuits : ∀ s ∈ f.stages, s.Suits operands)
    {o : OutputRef} (hs : f.stages = done ++ rest) (hdone : done ≠ [])
    (h : Assembling k keys done p) (hoperands : ∀ x ∈ operands, x.AtHand p)
    (ho : (Operand.socket o).AtHand p)
    (htype : p.graph.outputType? o = some (f.resultType (operands.any (·.isVector p.graph)))) :
    Ensures (· = p)
      (rest.foldlM (fun o s => Builtin.buildStage (k.next keys) operands (.socket o) s) o)
      (fun o q => Assembling k keys f.stages q ∧ Settled p q ∧ (Operand.socket o).AtHand q ∧
        q.graph.outputType? o = some (f.resultType (operands.any (·.isVector p.graph))))
      fun _ _ => False := by
  -- the induction is on the stages that remain; the type of the result so far is carried along
  induction rest generalizing done o p with
  | nil =>
    rw [List.append_nil] at hs
    refine Ensures.pure fun q hq => ?_
    subst hq
    exact ⟨hs ▸ h, .refl q, ho, htype⟩
  | cons s rest ih =>
    rw [List.foldlM_cons]
    have hmem : s ∈ f.stages := by
      rw [hs]
      exact List.mem_append_right _ List.mem_cons_self
    have htail : s ∈ f.stages.tail := by
      rw [hs, List.tail_append_of_ne_nil hdone]
      exact List.mem_append_right _ List.mem_cons_self
    refine Ensures.bind (ensures_buildStage hstages hs h hoperands ho (hsuits s hmem)
      (fun v hv => by cases hv)) fun o' q hq => ?_
    obtain ⟨hq, hsettled, ho', htype'⟩ := hq
    have hsame := hsettled.any_isVector hoperands
    rw [resultType_of_stage hf hmem fun hsupport => Builtin.any_isVector_args (Or.inr ⟨?_,
      (orderly_of_stages? hstages).1.chained s htail⟩), ← hsame] at htype'
    · refine (ih (by rw [hs, List.append_assoc]; rfl) (by simp) hq
        (fun x hx => hsettled.atHand (hoperands x hx)) ho' htype').weaken (fun _ h => h)
        (fun o'' r hr => ?_) (fun _ _ h => h) q rfl
      rw [hsame] at hr
      exact ⟨hr.1, hsettled.trans hr.2.1, hr.2.2⟩
    · rw [Operand.isVector, Operand.type?, htype, Builtin.resultType, hsupport]
      cases operands.any (·.isVector p.graph) <;> rfl

/-- **A function whose operands have been checked is built**, and what it gives has the type of
the function's result. -/
theorem ensures_build (hf : f ∈ Catalogue.functions) (hstages : stages? k.function = some f.stages)
    (hcheck : f.checkCall operands p.graph = .ok ()) (h : Assembling k keys [] p)
    (hoperands : ∀ x ∈ operands, x.AtHand p) :
    Ensures (· = p) (f.build (k.next keys) operands)
      (fun o q => Assembling k keys f.stages q ∧ Settled p q ∧ (Operand.socket o).AtHand q ∧
        q.graph.outputType? o = some (f.resultType (operands.any (·.isVector p.graph))))
      fun _ _ => False := by
  have hsuits := Builtin.suits_of_checkCall hf hcheck
  have harity : operands.length = f.arity := by
    rw [Builtin.checkCall_eq_checkVectors, Builtin.checkVectors_eq_ok, List.length_map] at hcheck
    exact hcheck.1
  have hfirst : f.support = .scalarOrVector →
      (f.first.args.map (Builtin.argOperand p.graph operands (.literal (.float 0)))).any
        (·.isVector p.graph) = operands.any (·.isVector p.graph) := fun hsupport =>
    Builtin.any_isVector_args
      (Or.inl ⟨rfl, fun i hi => Builtin.param_first hf hsupport (harity ▸ hi)⟩)
  refine Ensures.bind (ensures_buildStage hstages (List.nil_append _).symm h hoperands trivial
    (hsuits _ List.mem_cons_self) fun v hv => by cases hv; rfl) fun o q hq => ?_
  obtain ⟨hq, hsettled, ho, htype⟩ := hq
  have hsame := hsettled.any_isVector hoperands
  rw [resultType_of_stage hf List.mem_cons_self hfirst, ← hsame] at htype
  refine (ensures_rest hf hstages hsuits rfl (List.cons_ne_nil _ _) hq
    (fun x hx => hsettled.atHand (hoperands x hx)) ho htype).weaken (fun _ h => h)
    (fun o' r hr => ?_) (fun _ _ h => h) q rfl
  rw [hsame] at hr
  exact ⟨hr.1, hsettled.trans hr.2.1, hr.2.2⟩

/-- **A call is refused as a whole, by the check of its operands, or built as a whole.** -/
theorem ensures_call (hf : Catalogue.get? k.function = some f) (h : Assembling k keys [] p)
    (hoperands : ∀ x ∈ operands, x.AtHand p) :
    Ensures (· = p) (f.call (k.next keys) operands)
      (fun o q => (Standing q ∧ Keyed (k :: keys) q ∧ Settled p q) ∧
        (Operand.socket o).AtHand q ∧
        q.graph.outputType? o = some (f.resultType (operands.any (·.isVector p.graph))))
      fun err q => q = p ∧ ∃ e, err = .call e ∧ f.checkCall operands p.graph = .error e := by
  have hstages := stages?_of_get? hf
  refine Ensures.bind (Q := fun _ q => q = p ∧ f.checkCall operands p.graph = .ok ())
    (Ensures.adaptExcept (Ensures.read (fun q _ hq hr => ?_) fun q e hq hr => ?_)) fun _ q hq => ?_
  · subst hq
    exact ⟨rfl, hr⟩
  · subst hq
    exact ⟨rfl, e, rfl, hr⟩
  · obtain ⟨rfl, hcheck⟩ := hq
    refine Ensures.adaptExcept ((ensures_build (mem_of_get? hf).1 hstages hcheck h hoperands).weaken
      (fun _ h => h) (fun o r hr => ?_) fun _ _ h => h.elim) q rfl
    obtain ⟨hr, hsettled, ho, htype⟩ := hr
    exact ⟨⟨hr.standing, hr.keyed (orderly_of_stages? hstages).2, hsettled⟩, ho, htype⟩

end

end NodeFormula
