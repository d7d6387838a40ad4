import NodeFormula.Proofs.Build.Staged
import NodeFormula.Proofs.Expr.Components
/-!
# NodeFormula — a build does what its draft says

A build fails where its draft fails, with the same error, and where the draft succeeds the
build ends with operands that stand for the sketches (`Simulates`). The proof is by
recursion over the expression, one case for each kind of node (`simulates_operand`). The
keys of the draft only grow, so what is asked of all of them holds at every step (`Keeps`).
-/

namespace NodeFormula

open Graph Pass Relation

/-- The numbers that an expression writes satisfy a property. -/
def Expr.Literals (pos : Float → Prop) (e : Expr) : Prop :=
  ∀ span v text, .number span v text ∈ e.preorder → pos v

/-- The same of a list of expressions. -/
def Expr.LiteralsAll (pos : Float → Prop) (es : List Expr) : Prop := ∀ e ∈ es, e.Literals pos

section

variable {pos : Float → Prop} {es : List Expr} {e : Expr}

theorem Expr.Literals.args {span : Span} {f : String} (h : (Expr.call span f es).Literals pos) :
    Expr.LiteralsAll pos es := by
  intro e he s v t hmem
  exact h s v t (Expr.preorder_subset_call he span f hmem)

theorem Expr.Literals.items {span : Span} (h : (Expr.tuple span es).Literals pos) :
    Expr.LiteralsAll pos es := by
  intro e he s v t hmem
  exact h s v t (Expr.preorder_subset_tuple he span hmem)

end

/-! ## Drafts -/

namespace Draft

variable {α β : Type}

/-- The keys after an operation. -/
def keysAfter : EStateM.Result BuildError (List Key) α → List Key
  | .ok _ keys => keys
  | .error _ keys => keys

/-- An operation of a draft forgets no key. -/
def Keeps (d : DraftM α) : Prop := ∀ keys, keys ⊆ keysAfter (d keys)

namespace Keeps

theorem pure (a : α) : Keeps (Pure.pure a : DraftM α) := fun _ => List.Subset.refl _

theorem throw (e : BuildError) : Keeps (throw e : DraftM α) := fun _ => List.Subset.refl _

theorem bind {d : DraftM α} {f : α → DraftM β} (hd : Keeps d) (hf : ∀ a, Keeps (f a)) :
    Keeps (d >>= f) := by
  intro keys
  have hstep := hd keys
  have hrun : (d >>= f) keys = EStateM.bind d f keys := rfl
  rw [hrun, EStateM.bind]
  cases hr : d keys with
  | ok a keys' =>
    rw [hr] at hstep
    exact List.Subset.trans hstep (hf a keys')
  | error e keys' =>
    rw [hr] at hstep
    exact hstep

theorem ofExcept (r : Except BuildError α) : Keeps (Draft.ofExcept r) := by
  cases r with
  | ok a => exact pure a
  | error e => exact throw e

variable [TagDigest]

theorem tagFor (function : String) (operands : List Sketch) : Keeps (tagFor function operands) :=
  fun _ => List.subset_cons_self _ _

theorem node (name : String) (kind : NodeKind) (operands : List Sketch) :
    Keeps (node name kind operands) :=
  bind (tagFor name operands) fun _ => pure _

theorem vector (elements : List Sketch) : Keeps (vector elements) := by
  rw [Draft.vector]
  cases Sketch.numbers? elements with
  | some v => exact pure _
  | none => exact node _ _ elements

variable (name : String) (sockets : List Socket)

mutual

theorem operand (tuples : Bool) : ∀ e : Expr, Keeps (operand name sockets tuples e)
  | .number .. => by
    rw [Draft.operand]
    exact pure _
  | .ident _ x => by
    rw [Draft.operand]
    cases findSocket? x sockets with
    | some s => exact pure _
    | none => exact throw _
  | .call _ f args => by
    rw [Draft.operand]
    refine bind (ofExcept _) fun function => bind (operands true args) fun xs => ?_
    exact bind (tagFor f xs) fun t => bind (ofExcept _) fun _ => pure _
  | .tuple _ items => by
    rw [Draft.operand]
    split
    · exact bind (operands false items) fun xs => vector xs
    · exact throw _
  | .binary .. => by
    rw [Draft.operand]
    exact throw _
  | .unary .. => by
    rw [Draft.operand]
    exact throw _

theorem operands (tuples : Bool) : ∀ es : List Expr, Keeps (operands name sockets tuples es)
  | [] => by
    rw [Draft.operands]
    exact pure _
  | e :: es => by
    rw [Draft.operands]
    exact bind (operand tuples e) fun x => bind (operands tuples es) fun xs => pure _

end

end Keeps

end Draft

/-! ## The simulation -/

theorem buildStage_single {t : Tag} {values : List Operand} {previous : Operand} {kind : NodeKind}
    (hlen : values.length = kind.inputs.length) :
    Builtin.buildStage t values previous (.single kind)
      = (do let n ← Pass.findOrCreate t kind values; return ⟨n, 0⟩) := by
  have hargs : ∀ g, (Stage.single kind).args.map (Builtin.argOperand g values previous) = values := by
    intro g
    refine List.ext_getElem? fun i => ?_
    rw [Stage.single, List.map_map, List.getElem?_map, ← hlen]
    by_cases hi : i < values.length
    · rw [List.getElem?_range hi, List.getElem?_eq_getElem hi, Option.map_some,
        Function.comp_apply, Builtin.argOperand, List.getD_eq_getElem?_getD,
        List.getElem?_eq_getElem hi, Option.getD_some]
    · rw [List.getElem?_eq_none_iff.2 (Nat.le_of_not_lt hi),
        List.getElem?_eq_none_iff.2 (by rw [List.length_range]; exact Nat.le_of_not_lt hi)]
      rfl
  simp only [Builtin.buildStage, hargs]
  rfl

/-- Operands are literals where their sketches are. -/
theorem literals_iff {p : Pass} {values : List Operand} {sketches : List Sketch}
    (h : List.Forall₂ (Stands p) values sketches) {ws : List Value} :
    values = ws.map .literal ↔ sketches = ws.map .literal := by
  induction h generalizing ws with
  | nil => cases ws <;> simp
  | @cons a s _ _ hx _ ih =>
    cases ws with
    | nil => simp
    | cons w ws =>
      rw [List.map_cons, List.map_cons, List.cons.injEq, List.cons.injEq, ih]
      refine and_congr_left fun _ => ?_
      cases a with
      | socket o =>
        cases s with
        | socket id type outcome => simp
        | literal w => exact hx.elim
      | literal v =>
        cases s with
        | socket id type outcome => exact hx.elim
        | literal w' =>
          obtain rfl : v = w' := hx
          simp

theorem numbers?_eq_some {values : List Operand} {v : Vec3} :
    Build.numbers? values = some v ↔ values = (v.toList.map Value.float).map .literal := by
  constructor
  · intro h
    unfold Build.numbers? at h
    split at h
    · cases h
      rfl
    · cases h
  · rintro rfl
    rfl

theorem Sketch.numbers?_eq_some {sketches : List Sketch} {v : Vec3} :
    Sketch.numbers? sketches = some v ↔ sketches = (v.toList.map Value.float).map .literal := by
  constructor
  · intro h
    unfold Sketch.numbers? at h
    split at h
    · cases h
      rfl
    · cases h
  · rintro rfl
    rfl

/-- Operands are three numbers where their sketches are. -/
theorem numbers?_of_stands {p : Pass} {values : List Operand} {sketches : List Sketch}
    (h : List.Forall₂ (Stands p) values sketches) :
    Build.numbers? values = Sketch.numbers? sketches := by
  refine Option.ext fun v => ?_
  rw [numbers?_eq_some, Sketch.numbers?_eq_some, literals_iff h]

namespace Builtin

variable {f : Builtin} {vectors : List Bool}

theorem checkArity_eq_ok {found : Nat} : f.checkArity found = .ok () ↔ found = f.arity := by
  rw [checkArity]
  by_cases hlt : found < f.arity
  · rw [if_pos hlt]
    constructor
    · intro h
      cases h
    · exact fun h => absurd h (Nat.ne_of_lt hlt)
  by_cases hgt : f.arity < found
  · rw [if_neg hlt, if_pos hgt]
    constructor
    · intro h
      cases h
    · exact fun h => absurd h (Nat.ne_of_gt hgt)
  rw [if_neg hlt, if_neg hgt]
  exact ⟨fun _ => Nat.le_antisymm (Nat.le_of_not_lt hgt) (Nat.le_of_not_lt hlt), fun _ => rfl⟩

/-- A call has as many operands as parameters, and no vector where that is not allowed. -/
theorem checkVectors_eq_ok : f.checkVectors vectors = .ok () ↔
    vectors.length = f.arity ∧ (f.support = .scalarOnly → ∀ v ∈ vectors, v = false) := by
  have hnone : vectors.findIdx? id = none ↔ ∀ v ∈ vectors, v = false := by
    simp [List.findIdx?_eq_none_iff]
  rw [checkVectors, ← checkArity_eq_ok, ← hnone]
  cases f.checkArity vectors.length with
  | error e => simp [Bind.bind, Except.bind]
  | ok _ =>
    cases f.support with
    | scalarOrVector => simp [Bind.bind, Except.bind, Pure.pure, Except.pure]
    | scalarOnly =>
      cases vectors.findIdx? id <;> simp [Bind.bind, Except.bind]

/-- A call is checked by which operands are vectors. -/
theorem checkCall_eq_checkVectors (g : Graph) (values : List Operand) :
    f.checkCall values g = f.checkVectors (values.map (·.isVector g)) := by
  rw [checkCall, checkVectors, checkScalar, List.length_map, List.findIdx?_map]
  rfl

theorem checkCall_eq {p : Pass} {values : List Operand} {sketches : List Sketch}
    (h : List.Forall₂ (Stands p) values sketches) :
    f.checkCall values p.graph = f.checkVectors (sketches.map Sketch.isVector) := by
  have hvectors : sketches.map Sketch.isVector = values.map (·.isVector p.graph) := by
    induction h with
    | nil => rfl
    | cons hx _ ih => rw [List.map_cons, List.map_cons, hx.isVector, ih]
  rw [hvectors, checkCall_eq_checkVectors]

/-- The stages of a function suit the operands of a call that is not refused. -/
theorem suits_of_checkCall {g : Graph} {values : List Operand} (hf : f ∈ Catalogue.functions)
    (h : f.checkCall values g = .ok ()) : ∀ s ∈ f.stages, s.Suits values := by
  intro s hs
  rw [checkCall_eq_checkVectors, checkVectors_eq_ok, List.length_map] at h
  refine ⟨h.1 ▸ settlesZeros_of_mem hf hs, fun hfixed v hv => ?_⟩
  rw [isFixed_eq hf hs, beq_iff_eq] at hfixed
  have hvector := h.2 hfixed _ (List.mem_map_of_mem hv)
  rw [Operand.isVector, Operand.type?] at hvector
  cases v with
  | float a => rfl
  | vector w => cases hvector

theorem call_of_error {p : Pass} {t : Tag} {values : List Operand} {e : CallError}
    (h : f.checkCall values p.graph = .error e) : f.call t values p = .error (.call e) p := by
  simp only [call, Bind.bind, EStateM.bind, EStateM.adaptExcept, Pass.read, h]

theorem call_of_ok {p : Pass} {t : Tag} {values : List Operand}
    (h : f.checkCall values p.graph = .ok ()) :
    f.call t values p = ((f.build t values).adaptExcept FunctionError.graph) p := by
  simp only [call, Bind.bind, EStateM.bind, EStateM.adaptExcept, Pass.read, h]

end Builtin

/-- Bindings to an output of the interface alone. -/
def Bindings.atInterface (sink : InputRef) : Bindings := { Bindings.ofSink sink with interface := true }

theorem resolve?_atInterface (sink : InputRef) (g : Graph) (x : String) :
    (Bindings.atInterface sink).resolve? g x
      = (findSocket? x g.inputSockets).map fun s => ⟨entry, s.1⟩ := by
  change ((g.input? x).map Prod.fst) = _
  rw [input?, Option.map_map]
  rfl

section

variable [TagDigest] {c : Course} {keys : List Key} {p q : Pass} {α β α' β' : Type}

/-- **An operation of a build does what the draft says**: it fails as the draft fails, and
succeeds as the draft succeeds, with related results. -/
def Simulates (c : Course) (keys : List Key) (p : Pass) (x : PassM BuildError β) (d : DraftM α)
    (R : β → α → Pass → Prop) : Prop :=
  match d keys with
  | .ok a keys' => (∀ k ∈ keys', k ∈ c.next) →
    ∃ b q, x p = .ok b q ∧ OnPlan c (Spent keys') keys' q ∧ Grown p q ∧ R b a q
  | .error e keys' => (∀ k ∈ keys', k ∈ c.next) →
    ∃ q, x p = .error e q ∧ OnPlan c (Spent keys') keys' q

namespace Simulates

variable {x : PassM BuildError β} {d : DraftM α} {R : β → α → Pass → Prop}

theorem pure (hp : OnPlan c (Spent keys) keys p) {b : β} {a : α} (h : R b a p) :
    Simulates c keys p (Pure.pure b) (Pure.pure a) R :=
  fun _ => ⟨b, p, rfl, hp, hp.grown_self, h⟩

theorem throw (hp : OnPlan c (Spent keys) keys p) (e : BuildError) :
    Simulates c keys p (throw e : PassM BuildError β) (throw e : DraftM α) R :=
  fun _ => ⟨p, rfl, hp⟩

/-- A look at the pass. -/
theorem get {f : Pass → PassM BuildError β} (h : Simulates c keys p (f p) d R) :
    Simulates c keys p (MonadState.get >>= f) d R := h

theorem bind {f : β → PassM BuildError β'} {h : α → DraftM α'} {S : β' → α' → Pass → Prop}
    (hx : Simulates c keys p x d R) (hkeeps : ∀ a, Draft.Keeps (h a))
    (hf : ∀ b a keys' q, OnPlan c (Spent keys') keys' q → Grown p q → R b a q →
      Simulates c keys' q (f b) (h a) S) :
    Simulates c keys p (x >>= f) (d >>= h) S := by
  have hrun : (d >>= h) keys = EStateM.bind d h keys := rfl
  have hrun' : (x >>= f) p = EStateM.bind x f p := rfl
  have hstep : ∀ b q, x p = .ok b q → EStateM.bind x f p = f b q := by
    intro b q hq
    simp only [EStateM.bind, hq]
  rw [Simulates] at hx ⊢
  rw [hrun, EStateM.bind, hrun']
  cases hd : d keys with
  | error e keys' =>
    rw [hd] at hx
    intro hnext
    obtain ⟨q, hq, hplan⟩ := hx hnext
    exact ⟨q, by simp only [EStateM.bind, hq], hplan⟩
  | ok a keys' =>
    rw [hd] at hx
    have hafter := hkeeps a keys'
    -- the first part is on its course if all the keys in the end are the draft's
    have hfirst : (∀ k ∈ Draft.keysAfter (h a keys'), k ∈ c.next) → ∃ b q, x p = .ok b q ∧
        Grown p q ∧ Simulates c keys' q (f b) (h a) S := by
      intro hnext
      obtain ⟨b, q, hq, hplan, hgrown, hR⟩ := hx fun k hk => hnext k (hafter hk)
      exact ⟨b, q, hq, hgrown, hf b a keys' q hplan hgrown hR⟩
    cases hr : h a keys' with
    | ok a' keys'' =>
      simp only [hr]
      intro hnext
      rw [hr] at hfirst
      obtain ⟨b, q, hq, hgrown, hrest⟩ := hfirst hnext
      rw [Simulates, hr] at hrest
      obtain ⟨b', q', hq', hplan', hgrown', hR'⟩ := hrest hnext
      exact ⟨b', q', (hstep b q hq).trans hq', hplan', hgrown.trans hgrown', hR'⟩
    | error e keys'' =>
      simp only [hr]
      intro hnext
      rw [hr] at hfirst
      obtain ⟨b, q, hq, -, hrest⟩ := hfirst hnext
      rw [Simulates, hr] at hrest
      obtain ⟨q', hq', hplan'⟩ := hrest hnext
      exact ⟨q', (hstep b q hq).trans hq', hplan'⟩

end Simulates

/-- A new tag is the same on both sides, and is issued. -/
theorem simulates_tagFor {values : List Operand} {sketches : List Sketch}
    (hp : OnPlan c (Spent keys) keys p) (hstand : List.Forall₂ (Stands p) values sketches)
    {name : String} (hsound : Unmarked name) {f : Tag → PassM BuildError β}
    {h : Tag → DraftM α} {R : β → α → Pass → Prop}
    (hrest : ∀ (k : Key) (q : Pass), k = ⟨name, sketches.map Sketch.identity⟩ →
      q.graph = p.graph → q.touched = p.touched → OnPlan c (Spent keys) (k :: keys) q →
      Simulates c (k :: keys) q (f (k.next keys)) (h (k.next keys)) R) :
    Simulates c keys p (Pass.tagFor name values >>= f) (Draft.tagFor name sketches >>= h) R := by
  let k : Key := ⟨name, sketches.map Sketch.identity⟩
  let q : Pass := { p with derived := k.base :: p.derived }
  have htag : (Pass.tagFor name values >>= f) p = f (k.next keys) q := by
    have hids := map_identity_of_stands hstand
    change f _ _ = _
    rw [Key.next, ← hp.derived]
    change f ((Tag.derive name (values.map (·.identity p.graph))).withOccurrence
      (p.derived.count (Tag.derive name (values.map (·.identity p.graph)))))
      { p with derived := Tag.derive name (values.map (·.identity p.graph)) :: p.derived } = _
    rw [hids]
    rfl
  have hplan : OnPlan c (Spent keys) (k :: keys) q :=
    { hp.derive (k := k) hsound with given := hp.given }
  have hsim := hrest k q rfl rfl rfl hplan
  rw [Simulates] at hsim ⊢
  rw [htag]
  change match h (k.next keys) (k :: keys) with
    | .ok a keys' => _
    | .error e keys' => _
  cases hr : h (k.next keys) (k :: keys) with
  | ok a keys' =>
    simp only [hr] at hsim
    intro hnext
    obtain ⟨b, q', hq', hplan', hgrown, hR⟩ := hsim hnext
    exact ⟨b, q', hq', hplan', { hgrown with }, hR⟩
  | error e keys' =>
    simp only [hr] at hsim
    exact hsim

theorem simulates_pure {x : PassM BuildError β} {a : α} {R : β → α → Pass → Prop}
    (h : (∀ k ∈ keys, k ∈ c.next) → Ensures (· = p) x
      (fun b q => OnPlan c (Spent keys) keys q ∧ Grown p q ∧ R b a q) fun _ _ => False) :
    Simulates c keys p x (Pure.pure a) R := by
  exact fun hnext => (h hnext).exists_ok rfl

/-! ## Single nodes -/

omit [TagDigest] in
/-- The stage of a single node suits numbers. -/
theorem suits_single {values : List Operand} {kind : NodeKind}
    (hvalues : ∀ v, .literal v ∈ values → v.type = .float) :
    ∀ s ∈ [Stage.single kind], s.Suits values := by
  intro s hs
  obtain rfl := List.mem_singleton.1 hs
  have hzero : .zero ∉ (Stage.single kind).args := by
    intro hmem
    obtain ⟨i, -, hi⟩ := List.mem_map.1 hmem
    cases hi
  exact ⟨⟨fun h => absurd h hzero, fun h => absurd h hzero, fun h => absurd h hzero⟩,
    fun _ => hvalues⟩

/-- **A node of its own is built as drafted.** -/
theorem simulates_node {values : List Operand} {sketches : List Sketch} {p₀ : Pass}
    (hp : OnPlan c (Spent keys) keys p) {name : String} {kind : NodeKind}
    (hstages : stages? name = some [.single kind]) (hlen : values.length = kind.inputs.length)
    (hvalues : Results c false p₀ values sketches p) (tuples : Bool) :
    Simulates c keys p (Build.node name kind values) (Draft.node name kind sketches)
      fun o s q => Results c tuples p₀ [.socket o] [s] q := by
  have hsound := (orderly_of_stages? hstages).2
  refine simulates_tagFor hp hvalues.stand hsound fun k q hk hgraph htouched hplan => ?_
  subst hk
  refine simulates_pure fun hnext => ?_
  have hcalled : Called c ⟨name, sketches.map Sketch.identity⟩ keys [.single kind] values sketches :=
    { next := hnext
      sound := hp.sound
      orderly := hstages
      identities := rfl
      constants := fun s hs a ha => by
        obtain rfl := List.mem_singleton.1 hs
        obtain ⟨i, -, hi⟩ := List.mem_map.1 ha
        cases hi
      literals := fun v hv => (hvalues.literals v hv).1
      suits := suits_single fun v hv => (hvalues.literals v hv).2 rfl }
  have hvalues' := hvalues.congr hgraph htouched
  have hbuilt := stages_built hcalled hplan hvalues'.stand
  simp only [List.foldlM_nil, bind_pure, buildStage_single hlen] at hbuilt
  refine Ensures.bind (Ensures.adaptExcept hbuilt.of_bind_pure) fun n => Ensures.pure fun q' hq' => ?_
  refine ⟨hq'.onPlan, hq'.grown, hq'.results (fun i hi => ?_) hvalues' hplan.charted.wf⟩
  rw [hlen] at hi
  exact ⟨_, List.mem_singleton_self _, List.mem_map_of_mem (List.mem_range.2 hi)⟩

theorem simulates_vector {values : List Operand} {sketches : List Sketch} {p₀ : Pass}
    (hp : OnPlan c (Spent keys) keys p) (hlen : values.length = 3)
    (hvalues : Results c false p₀ values sketches p) :
    Simulates c keys p (Build.vector values) (Draft.vector sketches)
      fun x s q => Results c true p₀ [x] [s] q := by
  rw [Build.vector, Draft.vector, numbers?_of_stands hvalues.stand]
  cases hv : Sketch.numbers? sketches with
  | none =>
    have hstages : stages? "combine" = some [.single .combineXyz] := rfl
    have hnode := simulates_node hp hstages hlen hvalues true
    have hbind := hnode.bind (f := fun o => Pure.pure (Operand.socket o)) (h := Pure.pure)
      (S := fun x s q => Results c true p₀ [x] [s] q) (fun _ => Draft.Keeps.pure _)
      fun o s keys' q hq _ hres => Simulates.pure hq hres
    rwa [bind_pure] at hbind
  | some v =>
    -- nothing but literals, so nothing new
    have hsketches := Sketch.numbers?_eq_some.1 hv
    have hliterals : values = (v.toList.map Value.float).map .literal :=
      (literals_iff hvalues.stand).2 hsketches
    refine Simulates.pure hp ⟨.cons rfl .nil, fun w hw => ?_, fun n hn => ?_⟩
    · cases List.mem_singleton.1 hw
      have hpos : ∀ a ∈ v.toList, c.pos a := by
        intro a ha
        refine (hvalues.literals (.float a) ?_).1
        rw [hliterals]
        exact List.mem_map_of_mem (List.mem_map_of_mem ha)
      refine ⟨⟨hpos _ ?_, hpos _ ?_, hpos _ ?_⟩, fun h => by cases h⟩ <;> simp [Vec3.toList]
    · rcases hvalues.reached n hn with hn | ⟨o, ho, -⟩
      · exact Or.inl hn
      · rw [hliterals] at ho
        obtain ⟨w, -, hw⟩ := List.mem_map.1 ho
        cases hw

/-- **A call is built as drafted.** -/
theorem simulates_call {values : List Operand} {sketches : List Sketch} {p₀ : Pass}
    (hp : OnPlan c (Spent keys) keys p) {name : String} {f : Builtin}
    (hf : Catalogue.get? name = some f) (hvalues : Results c true p₀ values sketches p)
    (tuples : Bool) :
    Simulates c keys p
      (do let t ← Pass.tagFor name values
          let o ← (f.call t values).adaptExcept BuildError.ofFunction
          return .socket o)
      (do let t ← Draft.tagFor name sketches
          Draft.ofExcept ((f.checkVectors (sketches.map Sketch.isVector)).mapError .call)
          return f.sketch t sketches)
      fun x s q => Results c tuples p₀ [x] [s] q := by
  obtain ⟨hmem, -⟩ := mem_of_get? hf
  have hstages := stages?_of_get? hf
  refine simulates_tagFor hp hvalues.stand (orderly_of_stages? hstages).2
    fun k q hk hgraph htouched hplan => ?_
  have hvalues' := hvalues.congr hgraph htouched
  have hcheck := Builtin.checkCall_eq (f := f) hvalues'.stand
  cases hr : f.checkVectors (sketches.map Sketch.isVector) with
  | error e =>
    rw [hr] at hcheck
    intro _
    refine ⟨q, ?_, hplan.weaken fun _ => Spent.cons⟩
    simp only [Bind.bind, EStateM.bind, EStateM.adaptExcept, Builtin.call_of_error hcheck]
    rfl
  | ok _ =>
    rw [hr] at hcheck
    obtain ⟨hlen, -⟩ := Builtin.checkVectors_eq_ok.1 hr
    rw [List.length_map, ← hvalues.stand.length_eq] at hlen
    refine simulates_pure fun hnext => ?_
    have hcalled : Called c k keys (f.first :: f.rest) values sketches :=
      { next := hnext
        sound := hp.sound
        orderly := hk ▸ hstages
        identities := by rw [hk]
        constants := c.constants f hmem
        literals := fun v hv => (hvalues.literals v hv).1
        suits := Builtin.suits_of_checkCall hmem hcheck }
    have hbuilt := stages_built hcalled hplan hvalues'.stand
    refine Ensures.bind (Q := fun o q' => Underway c k keys values sketches q f.stages (.socket o)
      (f.sketch (k.next keys) sketches) q') (Ensures.adaptExcept ?_) fun o =>
      Ensures.pure fun q' hq' => ⟨hq'.onPlan, hq'.grown,
        hq'.results (fun i hi => param_used hmem (hlen ▸ hi)) hvalues' hplan.charted.wf⟩
    rintro q' rfl
    rw [Builtin.call_of_ok hcheck]
    exact Ensures.adaptExcept (F := fun _ _ => False) hbuilt q' rfl

/-! ## Expressions -/

/-- An input of the graph is read as drafted. -/
theorem stands_given (hp : OnPlan c (Spent keys) keys p) {x : String} {index : Nat}
    {type : SocketType} (h : findSocket? x c.sockets = some (index, type)) :
    Stands p (.socket ⟨entry, index⟩)
      (.socket (socketIdentity c.name index) type (Draft.given x type)) := by
  obtain ⟨s, hs, rfl, rfl⟩ := findSocket?_eq_some h
  rw [← hp.given] at hs
  have hsocket := (outputSocket_entry hp.charted.wf.hasEntry).2 hs
  refine ⟨Or.inl rfl, Charted.identity_socket hp.entry, ?_, fun inputs => ?_⟩
  · rw [outputType?, hsocket]
    rfl
  · rw [Draft.given]
    cases hv : inputs s.name with
    | some v => exact Yields.given hsocket hv
    | none => exact Yields.missing hsocket hv

variable (sink : InputRef)

mutual

/-- **An expression is built as drafted.** -/
theorem simulates_operand (tuples : Bool) : ∀ (e : Expr) {keys : List Key} {p : Pass},
    e.Literals c.pos → OnPlan c (Spent keys) keys p →
    Simulates c keys p (Build.operand (.atInterface sink) tuples e)
      (Draft.operand c.name c.sockets tuples e) fun x s q => Results c tuples p [x] [s] q
  | .number s v text, keys, p, he, hp => by
    rw [Build.operand, Draft.operand]
    refine Simulates.pure hp ⟨.cons rfl .nil, fun w hw => ?_, fun n hn => Or.inl hn⟩
    cases List.mem_singleton.1 hw
    exact ⟨he s v text (by rw [Expr.preorder]; exact List.mem_singleton_self _), fun _ => rfl⟩
  | .ident _ x, keys, p, he, hp => by
    rw [Build.operand, Draft.operand]
    refine Simulates.get ?_
    rw [resolve?_atInterface, hp.given]
    cases hx : findSocket? x c.sockets with
    | none => exact Simulates.throw hp _
    | some s =>
      refine Simulates.pure hp ⟨.cons (stands_given hp hx) .nil, fun w hw => ?_,
        fun n hn => Or.inl hn⟩
      cases List.mem_singleton.1 hw
  | .call _ f args, keys, p, he, hp => by
    rw [Build.operand, Draft.operand]
    cases hf : Catalogue.require f with
    | error e => exact Simulates.throw hp _
    | ok function =>
      have hget := Catalogue.require_eq_ok.1 hf
      refine (simulates_operands true args he.args hp).bind (fun xs => ?_)
        fun values sketches keys' q hq _ hvalues => simulates_call hq hget hvalues.2 tuples
      exact (Draft.Keeps.tagFor f xs).bind fun t =>
        (Draft.Keeps.ofExcept _).bind fun _ => Draft.Keeps.pure _
  | .tuple _ items, keys, p, he, hp => by
    rw [Build.operand, Draft.operand]
    by_cases hitems : (tuples && items.length == 3) = true
    · rw [if_pos hitems, if_pos hitems]
      rw [Bool.and_eq_true, beq_iff_eq] at hitems
      obtain ⟨rfl, hlen⟩ := hitems
      exact (simulates_operands false items he.items hp).bind (fun xs => Draft.Keeps.vector xs)
        fun values sketches keys' q hq _ hvalues =>
          simulates_vector hq (hvalues.1.trans hlen) hvalues.2
    · rw [if_neg hitems, if_neg hitems]
      exact Simulates.throw hp _
  | .binary .., keys, p, he, hp => by
    rw [Build.operand, Draft.operand]
    exact Simulates.throw hp _
  | .unary .., keys, p, he, hp => by
    rw [Build.operand, Draft.operand]
    exact Simulates.throw hp _

/-- Expressions are built as drafted, from left to right. -/
theorem simulates_operands (tuples : Bool) : ∀ (es : List Expr) {keys : List Key} {p : Pass},
    Expr.LiteralsAll c.pos es → OnPlan c (Spent keys) keys p →
    Simulates c keys p (Build.operands (.atInterface sink) tuples es)
      (Draft.operands c.name c.sockets tuples es)
      fun xs ss q => xs.length = es.length ∧ Results c tuples p xs ss q
  | [], keys, p, hes, hp => by
    rw [Build.operands, Draft.operands]
    exact Simulates.pure hp ⟨rfl, .nil⟩
  | e :: es, keys, p, hes, hp => by
    rw [Build.operands, Draft.operands]
    have hhead := hes e List.mem_cons_self
    have htail : Expr.LiteralsAll c.pos es := fun e' he' => hes e' (List.mem_cons_of_mem _ he')
    refine (simulates_operand tuples e hhead hp).bind (fun x => ?_) fun x y keys' q hq _ hx => ?_
    · exact (Draft.Keeps.operands _ _ tuples es).bind fun xs => Draft.Keeps.pure _
    · refine (simulates_operands tuples es htail hq).bind (fun xs => Draft.Keeps.pure _)
        fun xs ys keys'' r hr hgrown hxs => Simulates.pure hr ⟨congrArg Nat.succ hxs.1, ?_⟩
      exact hx.cons hq hxs.2 hgrown hr.charted.wf.hasEntry

end

/-- **A whole expression is built as drafted.** -/
theorem simulates_root {e : Expr} (he : e.Literals c.pos) (hp : OnPlan c (Spent keys) keys p) :
    Simulates c keys p (Build.root (.atInterface sink) e) (Draft.root c.name c.sockets e)
      fun o s q => Results c true p [.socket o] [s] q := by
  refine (simulates_operand sink true e he hp).bind (fun s => ?_) fun x s keys' q hq _ hx => ?_
  · cases s with
    | socket id type outcome => exact Draft.Keeps.pure _
    | literal v =>
      cases v with
      | float a => exact Draft.Keeps.node _ _ _
      | vector w => exact Draft.Keeps.node _ _ _
  · -- a constant becomes a node, and so it is a result of numbers alone
    have hnew : ∀ v, x = .literal v → ∀ n ∈ q.touched, n ∈ p.touched := by
      rintro v rfl n hn
      rcases hx.reached n hn with hn | ⟨o, ho, -⟩
      · exact hn
      · cases List.mem_singleton.1 ho
    have hstands := (List.forall₂_cons.1 hx.stand).1
    cases x with
    | socket o =>
      cases s with
      | socket id type outcome => exact Simulates.pure hq hx
      | literal v => exact hstands.elim
    | literal v =>
      cases s with
      | socket id type outcome => exact hstands.elim
      | literal w =>
        obtain rfl : v = w := hstands
        have hpos := (hx.literals v (List.mem_singleton_self _)).1
        cases v with
        | float a =>
          refine simulates_node hq rfl rfl ⟨?_, fun w hw => ?_, fun n hn => ?_⟩ true
          · exact List.Forall₂.cons (by exact rfl) .nil
          · cases List.mem_singleton.1 hw
            exact ⟨hpos, fun _ => rfl⟩
          · exact Or.inl (hnew _ rfl n hn)
        | vector v =>
          refine simulates_node hq rfl rfl ⟨?_, fun w hw => ?_, fun n hn => ?_⟩ true
          · exact List.Forall₂.cons (by exact rfl) (.cons (by exact rfl) (.cons (by exact rfl) .nil))
          · obtain ⟨a, ha, heq⟩ := List.mem_map.1 hw
            cases heq
            refine ⟨?_, fun _ => rfl⟩
            obtain ⟨hx, hy, hz⟩ := hpos
            simp only [Vec3.toList, List.mem_cons, List.not_mem_nil, or_false] at ha
            rcases ha with rfl | rfl | rfl
            · exact hx
            · exact hy
            · exact hz
          · exact Or.inl (hnew _ rfl n hn)

end

end NodeFormula
