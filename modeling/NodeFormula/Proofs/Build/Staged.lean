import NodeFormula.Proofs.Build.Course
/-!
# NodeFormula — the stages of a call

The stages of a call are built one after the other. After some of them the last node stands
for the sketch of the last stage, and everything new in the graph leads to it, with the
operands that were used so far (`Underway`). `Underway.step` builds one more stage, and by
induction `stages_built` builds them all.
-/

namespace NodeFormula

open Graph Relation

/-- **A stage suits the operands of a call.** A node of fixed kind is given no vector to hold. -/
structure Stage.Suits (s : Stage) (operands : List Operand) : Prop
    extends s.SettlesZeros operands.length where
  scalars : s.node.isFixed → ∀ v, .literal v ∈ operands → v.type = .float

namespace Pass

variable {operands : List Operand} {sketches : List Sketch} {previous : Operand} {last : Sketch}
  {p p₀ q : Pass}

/-- The arguments of a stage stand for their sketches. -/
theorem stands_args (hoperands : List.Forall₂ (Stands p) operands sketches)
    (hprevious : Stands p previous last) (args : List StageArg) :
    List.Forall₂ (Stands p) (args.map (Builtin.argOperand p.graph operands previous))
      (args.map (Stage.argSketch sketches last)) := by
  have harg : ∀ a, Stands p (Builtin.argOperand p.graph operands previous a)
      (Stage.argSketch sketches last a) := by
    intro a
    cases a with
    | param i =>
      rw [Builtin.argOperand, Stage.argSketch, List.getD_eq_getElem?_getD,
        List.getD_eq_getElem?_getD]
      cases ha : operands[i]? with
      | some x =>
        obtain ⟨y, hy, hstands⟩ := exists_of_forall₂ hoperands ha
        rw [hy]
        exact hstands
      | none =>
        rw [List.getElem?_eq_none_iff.2
          (hoperands.length_eq ▸ List.getElem?_eq_none_iff.1 ha)]
        exact rfl
    | constant a => exact rfl
    | zero =>
      rw [Builtin.argOperand, any_isVector_of_stands hoperands]
      exact rfl
    | previous => exact hprevious
  induction args with
  | nil => exact .nil
  | cons a args ih => exact .cons (harg a) ih

/-- A literal among the arguments is a constant of the stage or a zero, or was among the
operands, or is what came before. -/
theorem literal_of_mem_args {g : Graph} {args : List StageArg} {v : Value}
    (h : .literal v ∈ args.map (Builtin.argOperand g operands previous)) :
    (∃ a, .constant a ∈ args ∧ v = .float a) ∨ .literal v ∈ operands ∨
      (∃ type, (type = .vector → .zero ∈ args) ∧ v = .zero type) ∨ previous = .literal v := by
  obtain ⟨a, ha, heq⟩ := List.mem_map.1 h
  cases a with
  | param i =>
    rw [Builtin.argOperand, List.getD_eq_getElem?_getD] at heq
    cases hi : operands[i]? with
    | some x =>
      rw [hi] at heq
      obtain rfl : x = .literal v := heq
      exact Or.inr (Or.inl (List.mem_of_getElem? hi))
    | none =>
      rw [hi] at heq
      cases heq
      exact Or.inr (Or.inr (Or.inl ⟨.float, (fun htype => by cases htype), rfl⟩))
  | constant a =>
    cases heq
    exact Or.inl ⟨a, ha, rfl⟩
  | zero =>
    cases heq
    exact Or.inr (Or.inr (Or.inl ⟨_, fun _ => ha, rfl⟩))
  | previous => exact Or.inr (Or.inr (Or.inr heq))

/-- A socket among the arguments was among the operands, or is what came before. -/
theorem socket_of_mem_args {g : Graph} {args : List StageArg} {o : OutputRef}
    (h : .socket o ∈ args.map (Builtin.argOperand g operands previous)) :
    .socket o ∈ operands ∨ previous = .socket o := by
  obtain ⟨a, ha, heq⟩ := List.mem_map.1 h
  cases a with
  | param i =>
    rw [Builtin.argOperand, List.getD_eq_getElem?_getD] at heq
    cases hi : operands[i]? with
    | some x =>
      rw [hi] at heq
      obtain rfl : x = .socket o := heq
      exact Or.inl (List.mem_of_getElem? hi)
    | none =>
      rw [hi] at heq
      cases heq
  | constant a => cases heq
  | zero => cases heq
  | previous => exact Or.inr heq

/-- **The constants among the arguments of a stage fit its node.** -/
theorem fits_args {s : Stage} {g : Graph} (hs : s.Suits operands)
    (hprevious : ∀ v, previous = .literal v → v.type = .float) :
    Fits (s.node.kind ((s.args.map (Builtin.argOperand g operands previous)).any (·.isVector g)))
      (s.args.map (Builtin.argOperand g operands previous)) := by
  rintro j v spec hv hspec ⟨hvector, hfloat⟩
  have hv' := List.mem_of_getElem? hv
  cases hnode : s.node with
  | fixed kind =>
    have hfixed : s.node.isFixed := by rw [hnode]; rfl
    have hfloat' : v.type = .float := by
      rcases literal_of_mem_args hv' with ⟨a, -, rfl⟩ | hv | ⟨type, htype, rfl⟩ | hv
      · rfl
      · exact hs.scalars hfixed v hv
      · cases type with
        | float => rfl
        | vector =>
          rw [hs.dual (htype rfl)] at hfixed
          cases hfixed
      · exact hprevious v hv
    rw [hvector] at hfloat'
    cases hfloat'
  | componentwise scalar vector =>
    -- a vector among the arguments makes the node one of vectors
    have hany : (s.args.map (Builtin.argOperand g operands previous)).any (·.isVector g) = true :=
      List.any_eq_true.2 ⟨_, hv', by rw [Operand.isVector, Operand.type?, hvector]; rfl⟩
    rw [hnode, hany] at hspec
    have hmem := List.mem_of_getElem? hspec
    rw [StageNode.kind, NodeKind.inputs] at hmem
    obtain ⟨name, -, rfl⟩ := List.mem_map.1 (List.mem_of_mem_take hmem)
    cases hfloat

variable [TagDigest]

/-- What is given of a call: the key, the keys before it, the function's stages and the
operands with their sketches. -/
structure Called (c : Course) (k : Key) (keys : List Key) (stages : List Stage)
    (operands : List Operand) (sketches : List Sketch) : Prop where
  next : ∀ a ∈ k :: keys, a ∈ c.next
  sound : ∀ a ∈ keys, a.Sound
  orderly : stages? k.function = some stages
  identities : k.identities = sketches.map Sketch.identity
  constants : ∀ s ∈ stages, ∀ a, .constant a ∈ s.args → c.pos a
  literals : ∀ v, .literal v ∈ operands → v.All c.pos
  suits : ∀ s ∈ stages, s.Suits operands

variable {c : Course} {k : Key} {keys : List Key} {stages done rest : List Stage} {s : Stage}

/-- **Some stages of a call are built.** -/
structure Underway (c : Course) (k : Key) (keys : List Key) (operands : List Operand)
    (sketches : List Sketch) (p₀ : Pass) (done : List Stage) (previous : Operand) (last : Sketch)
    (p : Pass) : Prop where
  plan : OnPlan c (fun T => Spent keys T ∨ ∃ s ∈ done, T = s.tag (k.next keys)) (k :: keys) p
  grown : Grown p₀ p
  stand : List.Forall₂ (Stands p) operands sketches
  result : Stands p previous last
  literal : ∀ v, previous = .literal v → v.All c.pos ∧ v.type = .float
  identity : last.identity
    = done.foldl (fun _ s => socketIdentity (s.tag (k.next keys)).text 0) Tag.floatIdentity
  reached : ∀ n ∈ p.touched, n ∈ p₀.touched ∨
    ∃ o, previous = .socket o ∧ ReflTransGen p.graph.Linked n o.node
  used : ∀ (i : Nat) o, (∃ s ∈ done, StageArg.param i ∈ s.args) → operands[i]? = some (.socket o) →
    ∃ o', previous = .socket o' ∧ ReflTransGen p.graph.Linked o.node o'.node

/-- The start, with no stage built. -/
theorem Underway.start (hplan : OnPlan c (Spent keys) (k :: keys) p)
    (hoperands : List.Forall₂ (Stands p) operands sketches) :
    Underway c k keys operands sketches p [] (.literal (.float 0)) (.literal (.float 0)) p where
  plan := hplan.weaken fun _ => Or.inl
  grown := hplan.grown_self
  stand := hoperands
  result := rfl
  literal := by
    rintro v heq
    cases heq
    exact ⟨c.zero, rfl⟩
  identity := rfl
  reached _ hn := Or.inl hn
  used i o hused := by
    obtain ⟨s, hs, -⟩ := hused
    exact absurd hs List.not_mem_nil

/-- The node that a stage asks for. -/
def stagePlan (k : Key) (keys : List Key) (last : Sketch) (s : Stage) : Planned :=
  ⟨s.tag (k.next keys), s, s.args.map (StageArg.identity? k.identities last.identity)⟩

namespace Underway

variable (h : Called c k keys stages operands sketches) (hs : stages = done ++ s :: rest)

include h hs

theorem fresh : ¬ (Spent keys (stagePlan k keys last s).tag ∨
    ∃ s' ∈ done, (stagePlan k keys last s).tag = s'.tag (k.next keys)) :=
  not_spent_stage h.sound h.orderly hs

variable (hp : Underway c k keys operands sketches p₀ done previous last p)

include hp

theorem expects : Expects (k :: keys) (stagePlan k keys last s) := by
  rw [stagePlan, hp.identity]
  exact expects_stage (hs ▸ h.orderly) _

/-- **The next stage asks for its node.** -/
theorem asked : Asked c (fun T => Spent keys T ∨ ∃ s ∈ done, T = s.tag (k.next keys)) (k :: keys)
    (stagePlan k keys last s) (s.args.map (Builtin.argOperand p.graph operands previous))
    (s.args.map (Stage.argSketch sketches last)) p := by
  have hmem : s ∈ stages := by
    rw [hs]
    exact List.mem_append_right _ List.mem_cons_self
  have hstands := stands_args hp.stand hp.result s.args
  refine ⟨hp.plan, h.next, expects h hs hp, fresh h hs, hstands, ?_, ?_, ?_⟩
  · rw [stagePlan, h.identities, ← map_identity_of_stands hp.stand, ← hp.result.identity]
    exact matches_args previous (h.suits s hmem).toSettlesZeros
  · intro v hv
    rcases literal_of_mem_args hv with ⟨a, ha, rfl⟩ | hv | ⟨type, -, rfl⟩ | hv
    · exact h.constants s hmem a ha
    · exact h.literals v hv
    · exact Value.all_zero c.zero type
    · exact (hp.literal v hv).1
  · rw [Planned.kind, ← any_isVector_of_stands hstands]
    exact fits_args (h.suits s hmem) fun v hv => (hp.literal v hv).2

/-- **One more stage.** -/
theorem step (hchained : ∀ o, previous = .socket o → .previous ∈ s.args) :
    Ensures (· = p) (Builtin.buildStage (k.next keys) operands previous s)
      (fun o => Underway c k keys operands sketches p₀ (done ++ [s]) (.socket o)
        (s.sketch (k.next keys) sketches last)) fun _ _ => False := by
  have hasked := asked h hs hp
  refine Ensures.get fun p' hp' => ?_
  subst hp'
  have hkind : s.node.kind ((s.args.map (Builtin.argOperand p'.graph operands previous)).any
      (·.isVector p'.graph)) = (stagePlan k keys last s).kind
        (s.args.map (Stage.argSketch sketches last)) := by
    rw [any_isVector_of_stands hasked.stands]
    rfl
  simp only [hkind]
  refine Ensures.bind hasked.built fun n => Ensures.pure fun q hq => ?_
  obtain ⟨hplan, hgrown, hresult, htouched, hlinked⟩ := hq
  have hentry := hp.plan.charted.wf.hasEntry
  have hentry' := hplan.charted.wf.hasEntry
  -- what led to the stage before leads to this one
  have hlast : ∀ m o, previous = .socket o → ReflTransGen p'.graph.Linked m o.node →
      ReflTransGen q.graph.Linked m n := by
    intro m o ho hpath
    have huse : p'.InUse o.node := by
      have hstands := hp.result
      rw [ho] at hstands
      exact hstands.socket.1
    refine (hgrown.agree.path hp.plan.charted.wf huse hpath).tail (hlinked o ?_)
    exact List.mem_map.2 ⟨_, hchained o ho, ho⟩
  refine
    { plan := hplan.weaken ?_
      grown := hp.grown.trans hgrown
      stand := hp.stand.imp fun _ _ hx => hx.grown hgrown hentry hentry'
      result := hresult
      literal := fun v hv => by cases hv
      identity := by rw [List.foldl_append]; rfl
      reached := fun m hm => ?_
      used := fun i o hused ho => ⟨⟨n, 0⟩, rfl, ?_⟩ }
  · rintro T ((hT | ⟨s', hs', hT⟩) | hT)
    · exact Or.inl hT
    · exact Or.inr ⟨s', List.mem_append_left _ hs', hT⟩
    · exact Or.inr ⟨s, List.mem_append_right _ List.mem_cons_self, hT⟩
  · rcases (htouched m).1 hm with rfl | hm
    · exact Or.inr ⟨_, rfl, .refl⟩
    · rcases hp.reached m hm with hm | ⟨o, ho, hpath⟩
      · exact Or.inl hm
      · exact Or.inr ⟨_, rfl, hlast m o ho hpath⟩
  · obtain ⟨s', hs', hparam⟩ := hused
    rcases List.mem_append.1 hs' with hs' | hs'
    · obtain ⟨o', ho', hpath⟩ := hp.used i o ⟨s', hs', hparam⟩ ho
      exact hlast _ o' ho' hpath
    · obtain rfl := List.mem_singleton.1 hs'
      refine .single (hlinked o (List.mem_map.2 ⟨_, hparam, ?_⟩))
      rw [Builtin.argOperand, List.getD_eq_getElem?_getD, ho, Option.getD_some]

end Underway

/-- The stages that remain. -/
theorem rest_built (h : Called c k keys stages operands sketches) (hs : stages = done ++ rest)
    (hdone : done ≠ []) {o : OutputRef}
    (hp : Underway c k keys operands sketches p₀ done (.socket o) last p) :
    Ensures (· = p)
      (rest.foldlM (fun o s => Builtin.buildStage (k.next keys) operands (.socket o) s) o)
      (fun o => Underway c k keys operands sketches p₀ stages (.socket o)
        (rest.foldl (Stage.sketch (k.next keys) sketches) last)) fun _ _ => False := by
  induction rest generalizing done o last p with
  | nil =>
    refine Ensures.pure fun q hq => ?_
    subst hq
    rw [hs, List.append_nil]
    exact hp
  | cons s rest ih =>
    have hchained : .previous ∈ s.args := by
      refine (orderly_of_stages? h.orderly).1.chained s ?_
      rw [hs, List.tail_append_of_ne_nil hdone]
      exact List.mem_append_right _ List.mem_cons_self
    rw [List.foldlM_cons, List.foldl_cons]
    refine Ensures.bind (hp.step h hs fun _ _ => hchained) fun o' q hq => ?_
    exact ih (by rw [hs, List.append_assoc]; rfl) (by simp) hq q rfl

/-- **A call is built**, stage by stage. -/
theorem stages_built {first : Stage}
    (h : Called c k keys (first :: rest) operands sketches)
    (hplan : OnPlan c (Spent keys) (k :: keys) p)
    (hstand : List.Forall₂ (Stands p) operands sketches) :
    Ensures (· = p) (do
        let o ← Builtin.buildStage (k.next keys) operands (.literal (.float 0)) first
        rest.foldlM (fun o s => Builtin.buildStage (k.next keys) operands (.socket o) s) o)
      (fun o => Underway c k keys operands sketches p (first :: rest) (.socket o)
        ((first :: rest).foldl (Stage.sketch (k.next keys) sketches) (.literal (.float 0))))
      fun _ _ => False :=
  Ensures.bind ((Underway.start hplan hstand).step h (List.nil_append _).symm fun _ ho => by cases ho)
    fun _ q hq => rest_built h (List.singleton_append).symm (List.cons_ne_nil _ _) hq q rfl

/-- **What comes of expressions**: operands that stand for their sketches. All that is new
leads to them. -/
structure Results (c : Course) (tuples : Bool) (p : Pass) (xs : List Operand) (ss : List Sketch)
    (q : Pass) : Prop where
  stand : List.Forall₂ (Stands q) xs ss
  literals : ∀ v, .literal v ∈ xs → v.All c.pos ∧ (tuples = false → v.type = .float)
  reached : ∀ n ∈ q.touched, n ∈ p.touched ∨
    ∃ o, .socket o ∈ xs ∧ ReflTransGen q.graph.Linked n o.node

namespace Results

variable {tuples : Bool} {xs : List Operand} {ss : List Sketch} {r : Pass}

theorem congr (h : Results c tuples p xs ss q) (hgraph : r.graph = q.graph)
    (htouched : r.touched = q.touched) : Results c tuples p xs ss r where
  stand := h.stand.imp fun _ _ hx => hx.congr hgraph htouched
  literals := h.literals
  reached n hn := by
    rw [hgraph]
    exact h.reached n (htouched ▸ hn)

/-- No expressions. -/
theorem nil : Results c tuples p [] [] p where
  stand := .nil
  literals _ hv := absurd hv List.not_mem_nil
  reached _ hn := Or.inl hn

/-- What comes of one expression more. -/
theorem cons {x : Operand} {y : Sketch} {spent : Tag → Prop} (h : Results c tuples p [x] [y] q)
    (hplan : OnPlan c spent keys q) (h' : Results c tuples q xs ss r) (hgrown : Grown q r)
    (hentry : r.graph.hasNode entry) : Results c tuples p (x :: xs) (y :: ss) r where
  stand := .cons ((List.forall₂_cons.1 h.stand).1.grown hgrown hplan.charted.wf.hasEntry hentry)
    h'.stand
  literals v hv := by
    rcases List.mem_cons.1 hv with rfl | hv
    · exact h.literals v (List.mem_singleton_self _)
    · exact h'.literals v hv
  reached n hn := by
    rcases h'.reached n hn with hn | ⟨o, ho, hpath⟩
    · rcases h.reached n hn with hn | ⟨o, ho, hpath⟩
      · exact Or.inl hn
      · obtain rfl := List.mem_singleton.1 ho
        have huse := (List.forall₂_cons.1 h.stand).1.socket.1
        exact Or.inr ⟨o, List.mem_cons_self,
          hgrown.agree.path hplan.charted.wf huse hpath⟩
    · exact Or.inr ⟨o, List.mem_cons_of_mem _ ho, hpath⟩

end Results

/-- What comes of a call whose parameters are all used. -/
theorem Underway.results {o : OutputRef} {tuples tuples' : Bool}
    (hp : Underway c k keys operands sketches p₀ stages (.socket o) last q)
    (hparams : ∀ i < operands.length, ∃ s ∈ stages, StageArg.param i ∈ s.args)
    (hoperands : Results c tuples p operands sketches p₀) (hwf : p₀.graph.WellFormed) :
    Results c tuples' p [.socket o] [last] q where
  stand := .cons hp.result .nil
  literals v hv := by cases List.mem_singleton.1 hv
  reached n hn := by
    rcases hp.reached n hn with hn | ⟨o', ho', hpath⟩
    · rcases hoperands.reached n hn with hn | ⟨a, ha, hpath⟩
      · exact Or.inl hn
      · obtain ⟨i, hi⟩ := List.mem_iff_getElem?.1 ha
        obtain ⟨y, -, hstands⟩ := exists_of_forall₂ hoperands.stand hi
        obtain ⟨o', ho', hpath'⟩ :=
          hp.used i a (hparams i (List.getElem?_eq_some_iff.1 hi).1) hi
        cases ho'
        exact Or.inr ⟨o, List.mem_singleton_self _,
          (hp.grown.agree.path hwf hstands.socket.1 hpath).trans hpath'⟩
    · cases ho'
      exact Or.inr ⟨o, List.mem_singleton_self _, hpath⟩

/-- The tags of a call that is built are spent. -/
theorem Underway.onPlan {o : Operand}
    (hp : Underway c k keys operands sketches p₀ stages o last q) :
    OnPlan c (Spent (k :: keys)) (k :: keys) q := by
  refine hp.plan.weaken fun T hT => ?_
  rcases hT with hT | ⟨s, -, rfl⟩
  · exact hT.cons
  · exact ⟨k.next keys, List.mem_cons_self, s, rfl⟩

end Pass

end NodeFormula
