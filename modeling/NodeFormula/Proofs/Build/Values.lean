import Mathlib.Data.Fintype.Basic
import Mathlib.Tactic.FinCases
import NodeFormula.Proofs.Build.Numbers
import NodeFormula.Proofs.Build.Simulation
/-!
# NodeFormula — what sketches mean

A sketch has a meaning for given inputs: a value of its type, and so a number for each
component (`Sketch.Means`). The stages of a function compute on sketches what they compute
on numbers, component by component (`Builtin.sketch_means`), and so an expression that is
drafted has the value of its components (`operand_means`).
-/

namespace NodeFormula

open Graph Pass

/-- A number for each component. -/
abbrev Triple := Fin 3 → Float

/-- **A sketch means a number for each component.** -/
def Sketch.Means (inputs : String → Option Value) (s : Sketch) (a : Triple) : Prop :=
  ∃ v, s.outcome inputs = .ok v ∧ v.type = s.type ∧ ∀ k, v.component k = a k

variable {inputs : String → Option Value} {xs : List Sketch} {as : List Triple} {s : Sketch}
  {a : Triple}

namespace Sketch.Means

theorem literal (v : Value) : (Sketch.literal v).Means inputs fun k => v.component k :=
  ⟨v, rfl, rfl, fun _ => rfl⟩

/-- A zero of either type is zero in all components. -/
theorem zero (type : SocketType) : (Sketch.literal (.zero type)).Means inputs fun _ => 0 := by
  cases type with
  | float => exact literal (.float 0)
  | vector =>
    refine ⟨.vector (Vec3.splat 0), rfl, rfl, fun k => ?_⟩
    fin_cases k
    · rfl
    · rfl
    · rfl

/-- A number is the same in all components. -/
theorem const (h : s.Means inputs a) (hs : s.isVector = false) :
    ∃ x, s.outcome inputs = .ok (.float x) ∧ ∀ k, a k = x := by
  obtain ⟨v, hv, htype, hcomponent⟩ := h
  cases v with
  | float x => exact ⟨x, hv, fun k => (hcomponent k).symm⟩
  | vector v =>
    rw [isVector, ← htype] at hs
    cases hs

end Sketch.Means

theorem exists_means (h : List.Forall₂ (Sketch.Means inputs) xs as) :
    ∃ vs, (xs.map (Sketch.outcome inputs)).mapM id = .ok vs ∧
      List.Forall₂ (fun v (s : Sketch) => v.type = s.type) vs xs ∧
      ∀ k, vs.map (Value.component k) = as.map (· k) := by
  induction h with
  | nil => exact ⟨[], rfl, .nil, fun _ => rfl⟩
  | cons hx _ ih =>
    obtain ⟨v, hv, htype, hcomponent⟩ := hx
    obtain ⟨vs, hvs, htypes, hcomponents⟩ := ih
    refine ⟨v :: vs, ?_, .cons htype htypes, fun k => ?_⟩
    · rw [List.map_cons, List.mapM_cons, hv, hvs]
      rfl
    · rw [List.map_cons, List.map_cons, hcomponent k, hcomponents k]

/-- The values of numbers are floats. -/
theorem floats_of_types {vs : List Value}
    (h : List.Forall₂ (fun v (s : Sketch) => v.type = s.type) vs xs)
    (hxs : xs.any Sketch.isVector = false) (k : Fin 3) :
    vs = (vs.map (Value.component k)).map Value.float := by
  induction h with
  | nil => rfl
  | @cons v s vs xs hv _ ih =>
    rw [List.any_cons, Bool.or_eq_false_iff] at hxs
    rw [List.map_cons, List.map_cons, ← ih hxs.2]
    cases v with
    | float x => rfl
    | vector w =>
      have hs := hxs.1
      rw [Sketch.isVector, ← hv] at hs
      cases hs

namespace Stage

variable {st : Stage} {t : Tag} {last : Sketch} {b : Triple}

theorem args_mean (hxs : List.Forall₂ (Sketch.Means inputs) xs as) (hlast : last.Means inputs b)
    (args : List StageArg) :
    List.Forall₂ (Sketch.Means inputs) (args.map (argSketch xs last))
      (args.map fun x k => argValue (as.map (· k)) (b k) x) := by
  have harg : ∀ x : StageArg, (argSketch xs last x).Means inputs
      fun k => argValue (as.map (· k)) (b k) x := by
    intro x
    cases x with
    | param i =>
      simp only [argSketch, argValue, List.getD_eq_getElem?_getD, List.getElem?_map]
      cases hx : xs[i]? with
      | some s =>
        obtain ⟨hlt, rfl⟩ := List.getElem?_eq_some_iff.1 hx
        have hlt' : i < as.length := hxs.length_eq ▸ hlt
        rw [List.getElem?_eq_getElem hlt']
        exact hxs.get hlt hlt'
      | none =>
        rw [List.getElem?_eq_none_iff.2 (hxs.length_eq ▸ List.getElem?_eq_none_iff.1 hx)]
        exact .literal (.float 0)
    | constant x => exact .literal (.float x)
    | zero => exact .zero _
    | previous => exact hlast
  induction args with
  | nil => exact .nil
  | cons x args ih => exact .cons (harg x) ih

/-- A node of fixed kind on numbers computes what its stage computes. -/
theorem kind_means {args : List Sketch} {values : List Triple}
    (h : List.Forall₂ (Sketch.Means inputs) args values) (hargs : args.any Sketch.isVector = false)
    {kind : NodeKind} (hout : kind.outputs.length = 1) (hresult : kind.resultType = .float)
    (id : String) :
    (Sketch.socket id kind.resultType fun inputs => kind.outcome (args.map (Sketch.outcome inputs))).Means
      inputs fun k => Builtin.evalKind kind (values.map (· k)) := by
  obtain ⟨vs, hvs, htypes, hcomponents⟩ := exists_means h
  have hfloats : ∀ k, (values.map (· k)).map Value.float = vs := fun k => by
    rw [← hcomponents k]
    exact (floats_of_types htypes hargs k).symm
  simp only [Builtin.evalKind, hfloats]
  refine ⟨(kind.evaluate vs).getD 0 (.float 0), ?_, ?_, fun k => ?_⟩
  · change kind.outcome (args.map (Sketch.outcome inputs)) = _
    rw [NodeKind.outcome, hvs]
    rfl
  all_goals
    have htype := kind.type_evaluate vs
    obtain ⟨spec, hspec⟩ := List.length_eq_one_iff.1 hout
    rw [hspec, List.map_singleton] at htype
    obtain ⟨v, hv, hvtype⟩ := List.map_eq_singleton_iff.1 htype
    have hfloat : v.type = .float := by
      rw [NodeKind.resultType, hspec] at hresult
      exact hvtype.trans hresult
    rw [hv]
  · rw [Sketch.type, hresult]
    exact hfloat
  · cases v with
    | float x => rfl
    | vector w => cases hfloat

/-- A vector node computes on each component what its stage computes on numbers. -/
theorem vectorMath_means {args : List Sketch} {values : List Triple}
    (h : List.Forall₂ (Sketch.Means inputs) args values) (op : VectorOp) (id : String) :
    (Sketch.socket id .vector fun inputs =>
      (NodeKind.vectorMath op).outcome (args.map (Sketch.outcome inputs))).Means inputs
      fun k => op.component.apply (values.map (· k)) := by
  obtain ⟨vs, hvs, -, hcomponents⟩ := exists_means h
  refine ⟨.vector (op.apply (vs.map Value.toVec3)), ?_, rfl, fun k => ?_⟩
  · change (NodeKind.vectorMath op).outcome (args.map (Sketch.outcome inputs)) = _
    rw [NodeKind.outcome, hvs]
    rfl
  · rw [Value.component, VectorOp.get_apply, List.map_map]
    have hmap : vs.map ((Vec3.get · k) ∘ Value.toVec3) = values.map (· k) := by
      rw [← hcomponents k]
      exact List.map_congr_left fun v _ => v.get_toVec3 k
    rw [hmap]

/-- **A stage computes on sketches what it computes on numbers.** -/
theorem sketch_means (hsane : st.Sane) (hxs : List.Forall₂ (Sketch.Means inputs) xs as)
    (hlast : last.Means inputs b)
    (hfixed : st.node.isFixed → (st.args.map (argSketch xs last)).any Sketch.isVector = false ∧
      ∀ v, (st.node.kind v).resultType = .float) :
    (st.sketch t xs last).Means inputs fun k => st.value (as.map (· k)) (b k) := by
  have hargs := args_mean hxs hlast st.args
  have hvalues : ∀ k, st.args.map (argValue (as.map (· k)) (b k))
      = (st.args.map fun x k => argValue (as.map (· k)) (b k) x).map (· k) := by
    intro k
    rw [List.map_map]
    rfl
  simp only [value, hvalues]
  cases hnode : st.node with
  | fixed kind =>
    obtain ⟨hscalar, hresult⟩ := hfixed (by rw [hnode]; rfl)
    have hkind : ∀ v, st.node.kind v = kind := fun v => by rw [hnode]; rfl
    have hmeans := kind_means hargs hscalar (hkind true ▸ hsane.outputs true : kind.outputs.length = 1)
      (hkind true ▸ hresult true) (socketIdentity (st.tag t).text 0)
    rw [sketch, hkind]
    exact hmeans
  | componentwise scalar vector =>
    rw [sketch, hnode]
    cases hany : (st.args.map (argSketch xs last)).any Sketch.isVector with
    | false =>
      have hout : (NodeKind.math scalar).outputs.length = 1 := rfl
      exact kind_means hargs hany hout rfl (socketIdentity (st.tag t).text 0)
    | true =>
      -- the operation on components is the one on numbers
      have hpaired := hsane.paired
      rw [hnode] at hpaired
      obtain rfl : scalar = vector.component := hpaired
      simp only [StageNode.kind, Builtin.evalKind_math]
      exact vectorMath_means hargs vector (socketIdentity (st.tag t).text 0)

end Stage

/-! ## Functions -/

/-- A vector among the arguments is an operand, or what came before. -/
theorem isVector_of_args {last : Sketch} {args : List StageArg}
    (h : (args.map (Stage.argSketch xs last)).any Sketch.isVector = true)
    (hlast : last.isVector = true → xs.any Sketch.isVector = true) :
    xs.any Sketch.isVector = true := by
  obtain ⟨y, hy, hvector⟩ := List.any_eq_true.1 h
  obtain ⟨x, -, rfl⟩ := List.mem_map.1 hy
  cases x with
  | param i =>
    rw [Stage.argSketch, List.getD_eq_getElem?_getD] at hvector
    cases hx : xs[i]? with
    | some s =>
      rw [hx] at hvector
      exact List.any_eq_true.2 ⟨s, List.mem_of_getElem? hx, hvector⟩
    | none =>
      rw [hx] at hvector
      cases hvector
  | constant x => cases hvector
  | zero =>
    cases hany : xs.any Sketch.isVector with
    | true => rfl
    | false =>
      rw [Stage.argSketch, hany] at hvector
      cases hvector
  | previous => exact hlast hvector

section

variable {f : Builtin} (hf : f ∈ Catalogue.functions) (t : Tag)

include hf

/-- A stage gives a vector only if an operand is one. -/
theorem isVector_of_stage {st : Stage} (hst : st ∈ f.stages) {last : Sketch}
    (hlast : last.isVector = true → xs.any Sketch.isVector = true)
    (h : (st.sketch t xs last).isVector = true) : xs.any Sketch.isVector = true := by
  cases hany : (st.args.map (Stage.argSketch xs last)).any Sketch.isVector with
  | true => exact isVector_of_args hany hlast
  | false =>
    have htype : (st.node.kind false).resultType = .float := by
      cases hnode : st.node with
      | fixed kind => exact hnode ▸ resultType_of_isFixed hf hst (by rw [hnode]; rfl) false
      | componentwise scalar vector => rfl
    rw [Stage.sketch, hany, Sketch.isVector, Sketch.type, htype] at h
    cases h

theorem isVector_of_foldl {stages : List Stage} (hstages : stages ⊆ f.stages) {last : Sketch}
    (hlast : last.isVector = true → xs.any Sketch.isVector = true)
    (h : (stages.foldl (Stage.sketch t xs) last).isVector = true) :
    xs.any Sketch.isVector = true := by
  induction stages generalizing last with
  | nil => exact hlast h
  | cons st stages ih =>
    obtain ⟨hst, hrest⟩ := List.cons_subset.1 hstages
    exact ih hrest (isVector_of_stage hf t hst hlast) h

/-- **A function gives a vector only if an operand is one.** -/
theorem Builtin.isVector_of_sketch (h : (f.sketch t xs).isVector = true) :
    xs.any Sketch.isVector = true :=
  isVector_of_foldl hf t (List.Subset.refl _) (fun h => by cases h) h

variable (hscalar : f.support = .scalarOnly → xs.any Sketch.isVector = false)

include hscalar

/-- A stage of fixed kind is one of a function of numbers. -/
theorem args_of_isFixed {st : Stage} (hst : st ∈ f.stages) {last : Sketch}
    (hlast : last.isVector = true → xs.any Sketch.isVector = true) (hfixed : st.node.isFixed) :
    (st.args.map (Stage.argSketch xs last)).any Sketch.isVector = false := by
  rw [isFixed_eq hf hst, beq_iff_eq] at hfixed
  rw [Bool.eq_false_iff]
  intro hany
  have hsome := isVector_of_args hany hlast
  rw [hscalar hfixed] at hsome
  cases hsome

variable (hxs : List.Forall₂ (Sketch.Means inputs) xs as)

include hxs

/-- The stages compute on sketches what they compute on numbers. -/
theorem foldl_means {stages : List Stage} (hstages : stages ⊆ f.stages) {last : Sketch}
    {b : Triple} (hlast : last.Means inputs b)
    (hvector : last.isVector = true → xs.any Sketch.isVector = true) :
    (stages.foldl (Stage.sketch t xs) last).Means inputs
      (fun k => stages.foldl (Stage.value (as.map (· k))) (b k)) := by
  induction stages generalizing last b with
  | nil => exact hlast
  | cons st stages ih =>
    obtain ⟨hst, hrest⟩ := List.cons_subset.1 hstages
    have hmeans := Stage.sketch_means (t := t) ((orderly_of_mem hf).sane st hst) hxs hlast
      fun hfixed => ⟨args_of_isFixed hf hscalar hst hvector hfixed,
        resultType_of_isFixed hf hst hfixed⟩
    exact ih hrest hmeans (isVector_of_stage hf t hst hvector)

/-- **A function computes on sketches what it computes on numbers**, component by component. -/
theorem Builtin.sketch_means (hlen : xs.length = f.arity) :
    (f.sketch t xs).Means inputs (fun k => f.value (as.map (· k))) := by
  have hagrees : ∀ k, f.value (as.map (· k)) = f.stages.foldl (Stage.value (as.map (· k))) 0 :=
    fun k => Catalogue.agrees_of_mem hf _ (by rw [List.length_map, ← hxs.length_eq, hlen])
  simp only [hagrees]
  exact foldl_means hf t hscalar hxs (List.Subset.refl _) (.zero .float) fun h => by cases h

end

/-! ## Expressions -/

/-- An input of the graph is a vector. -/
def isVectorInput (sockets : List Socket) (x : String) : Bool :=
  (findSocket? x sockets).any (·.2 == .vector)

namespace Draft

theorem ofExcept_eq_ok {α : Type} {r : Except BuildError α} {keys keys' : List Key} {a : α}
    (h : ofExcept r keys = .ok a keys') : r = .ok a := by
  cases r with
  | ok b =>
    cases h
    rfl
  | error e => cases h

end Draft

/-- A function has a value on as many numbers as it has parameters. -/
theorem applyFunction_eq_ok {name : String} {f : Builtin} (hf : Catalogue.get? name = some f)
    {values : List Float} (hlen : values.length = f.arity) :
    Expr.applyFunction name values = .ok (f.value values) := by
  rw [Expr.applyFunction, Catalogue.eval, Catalogue.require_eq_ok.2 hf]
  change ((f.eval values).mapError BuildError.call) = _
  rw [Builtin.eval, Builtin.checkArity_eq_ok.2 hlen]
  rfl

theorem Expr.anyVector_eq_true {vector : String → Bool} {es : List Expr}
    (h : Expr.anyVector vector es = true) : ∃ e ∈ es, e.isVector vector = true := by
  induction es with
  | nil => cases h
  | cons e es ih =>
    rw [anyVector, Bool.or_eq_true] at h
    rcases h with h | h
    · exact ⟨e, List.mem_cons_self, h⟩
    · obtain ⟨x, hx, hvector⟩ := ih h
      exact ⟨x, List.mem_cons_of_mem _ hx, hvector⟩

/-- Each value is that of an expression. -/
theorem Expr.evaluate_of_evaluateAll {vars : String → Option Float} {es : List Expr}
    {values : List Float} (h : Expr.evaluateAll vars es = .ok values) {i : Nat} {v : Float}
    (hi : values[i]? = some v) : ∃ e, es[i]? = some e ∧ e.evaluate vars = .ok v := by
  induction es generalizing values i with
  | nil =>
    rw [evaluateAll] at h
    cases h
    cases hi
  | cons e es ih =>
    rw [evaluateAll] at h
    cases he : e.evaluate vars with
    | error err => rw [he] at h; cases h
    | ok a =>
      cases hes : Expr.evaluateAll vars es with
      | error err => rw [he, hes] at h; cases h
      | ok as =>
        rw [he, hes] at h
        cases h
        cases i with
        | zero =>
          cases hi
          exact ⟨e, rfl, he⟩
        | succ i => exact ih hes hi

/-- A node that combines three numbers means the vector of them. -/
theorem combine_means (t : Tag) (hxs : List.Forall₂ (Sketch.Means inputs) xs as)
    (hlen : xs.length = 3) (hflat : xs.any Sketch.isVector = false) :
    ((Stage.single .combineXyz).sketch t xs (.literal (.float 0))).Means inputs
      fun k => (as.map (· k)).getD k 0 := by
  obtain ⟨vs, hvs, htypes, hcomponents⟩ := exists_means hxs
  have hargs : (Stage.single .combineXyz).args.map (Stage.argSketch xs (.literal (.float 0))) = xs := by
    obtain ⟨x, y, z, rfl⟩ := List.length_eq_three.1 hlen
    rfl
  refine ⟨(NodeKind.combineXyz.evaluate vs).getD 0 (.float 0), ?_, rfl, fun k => ?_⟩
  · rw [Stage.sketch, hargs]
    change NodeKind.combineXyz.outcome (xs.map (Sketch.outcome inputs)) = _
    rw [NodeKind.outcome, hvs]
    rfl
  · change _ = (as.map (· k)).getD k 0
    rw [← hcomponents k]
    have hfloats := floats_of_types htypes hflat k
    have hlen' : vs.length = 3 := htypes.length_eq.trans hlen
    obtain ⟨u, v, w, rfl⟩ := List.length_eq_three.1 hlen'
    simp only [List.map_cons, List.map_nil, List.cons.injEq, and_true] at hfloats
    obtain ⟨hu, hv, hw⟩ := hfloats
    rw [hu, hv, hw]
    fin_cases k
    · rfl
    · rfl
    · rfl

/-- **Three numbers make a vector of them**, as a constant or as a node. -/
theorem vector_means [TagDigest] {keys keys' : List Key}
    (hxs : List.Forall₂ (Sketch.Means inputs) xs as) (hlen : xs.length = 3)
    (hflat : xs.any Sketch.isVector = false) (h : Draft.vector xs keys = .ok s keys') :
    s.Means inputs fun k => (as.map (· k)).getD k 0 := by
  rw [Draft.vector] at h
  cases hv : Sketch.numbers? xs with
  | none =>
    rw [hv] at h
    obtain ⟨t, keys₁, -, h⟩ := run_bind_eq_ok h
    cases h
    exact combine_means t hxs hlen hflat
  | some v =>
    rw [hv] at h
    cases h
    obtain ⟨vs, hvs, -, hcomponents⟩ := exists_means hxs
    rw [Sketch.numbers?_eq_some.1 hv] at hvs
    cases hvs
    refine ⟨.vector v, rfl, rfl, fun k => ?_⟩
    change _ = (as.map (· k)).getD k 0
    rw [← hcomponents k]
    fin_cases k
    · rfl
    · rfl
    · rfl

/-- Every input of the graph has a value, and the variables are its components. -/
def Assigns (sockets : List Socket) (inputs : String → Option Value)
    (vars : Fin 3 → String → Option Float) : Prop :=
  ∀ x index type, findSocket? x sockets = some (index, type) →
    ∃ v, inputs x = some v ∧ ∀ k, vars k x = some ((v.convert type).component k)

section

variable [TagDigest] {name : String} {sockets : List Socket} {vars : Fin 3 → String → Option Float}

omit [TagDigest] in
/-- A variable means the components of the value of its input. -/
theorem given_means (hgiven : Assigns sockets inputs vars) {x : String} {index : Nat}
    {type : SocketType} (hx : findSocket? x sockets = some (index, type)) (id : String)
    (span : Span) : ∃ a, (Sketch.socket id type (Draft.given x type)).Means inputs a ∧
      (type = .vector → (Expr.ident span x).isVector (isVectorInput sockets) = true) ∧
      ∀ k, ((Expr.ident span x).component k).evaluate (vars k) = .ok (a k) := by
  obtain ⟨v, hv, hvars⟩ := hgiven x index type hx
  refine ⟨fun k => (v.convert type).component k, ⟨v.convert type, ?_, Value.type_convert v type,
    fun _ => rfl⟩, fun h => ?_, fun k => ?_⟩
  · simp only [Sketch.outcome, Draft.given, hv]
  · rw [Expr.isVector, isVectorInput, hx, h]
    rfl
  · rw [Expr.component, Expr.evaluate]
    simp only [hvars k]

omit [TagDigest] in
/-- A call means the values of its function on the components of its arguments, and is a vector
only where the function takes vectors and is given one. -/
theorem call_means {f : String} {function : Builtin} {args : List Expr}
    (hget : Catalogue.get? f = some function)
    (hcheck : function.checkVectors (xs.map Sketch.isVector) = .ok ())
    (hmeans : List.Forall₂ (Sketch.Means inputs) xs as)
    (hvectors : xs.any Sketch.isVector = true →
      Expr.anyVector (isVectorInput sockets) args = true)
    (hevals : ∀ k, Expr.evaluateAll (vars k) (Expr.componentAll k args) = .ok (as.map (· k)))
    (t : Tag) (span : Span) :
    ∃ a, (function.sketch t xs).Means inputs a ∧
      ((function.sketch t xs).isVector = true →
        (Expr.call span f args).isVector (isVectorInput sockets) = true) ∧
      ∀ k, ((Expr.call span f args).component k).evaluate (vars k) = .ok (a k) := by
  obtain ⟨hmem, -⟩ := mem_of_get? hget
  obtain ⟨harity, hscalar⟩ := Builtin.checkVectors_eq_ok.1 hcheck
  have hnone : function.support = .scalarOnly → xs.any Sketch.isVector = false := by
    intro hs
    rw [List.any_eq_false]
    exact fun y hy => by rw [hscalar hs _ (List.mem_map_of_mem hy)]; exact Bool.false_ne_true
  rw [List.length_map] at harity
  refine ⟨_, Builtin.sketch_means hmem t hnone hmeans harity, fun h => ?_, fun k => ?_⟩
  · have hany := Builtin.isVector_of_sketch hmem t h
    rw [Expr.isVector, hget, Option.any_some, hvectors hany, Bool.and_true]
    cases hs : function.support with
    | scalarOrVector => rfl
    | scalarOnly =>
      rw [hnone hs] at hany
      cases hany
  · rw [Expr.component, Expr.evaluate, hevals k]
    refine applyFunction_eq_ok hget ?_
    rw [List.length_map, ← hmeans.length_eq, harity]

omit [TagDigest] in
/-- The component of a tuple is the element in its place. -/
theorem evaluate_component_tuple {items : List Expr} (hlen : as.length = 3)
    (hevals : ∀ k, Expr.evaluateAll (vars k) (Expr.componentAll k items) = .ok (as.map (· k)))
    (span : Span) (k : Fin 3) :
    ((Expr.tuple span items).component k).evaluate (vars k) = .ok ((as.map (· k)).getD k 0) := by
  have hlt : k < (as.map (· k)).length := by
    rw [List.length_map, hlen]
    exact k.isLt
  obtain ⟨e, he, heval⟩ := Expr.evaluate_of_evaluateAll (hevals k) (List.getElem?_eq_getElem hlt)
  rw [Expr.component, List.getD_eq_getElem?_getD, he, Option.getD_some, heval,
    List.getD_eq_getElem?_getD, List.getElem?_eq_getElem hlt]
  rfl

mutual

/-- **An expression that is drafted means the values of its components.** -/
theorem operand_means (hgiven : Assigns sockets inputs vars) (tuples : Bool) :
    ∀ (e : Expr) {keys keys' : List Key} {s : Sketch},
    Draft.operand name sockets tuples e keys = .ok s keys' →
    e.FlatTuples (isVectorInput sockets) →
    ∃ a, s.Means inputs a ∧
      (s.isVector = true → e.isVector (isVectorInput sockets) = true) ∧
      ∀ k, (e.component k).evaluate (vars k) = .ok (a k)
  | .number _ v _, keys, keys', s, h, _ => by
    rw [Draft.operand] at h
    cases h
    refine ⟨_, .literal (.float v), fun h => ?_, fun k => ?_⟩
    · cases h
    · rw [Expr.component, Expr.evaluate]
      rfl
  | .ident span x, keys, keys', s, h, _ => by
    rw [Draft.operand] at h
    cases hx : findSocket? x sockets with
    | none => rw [hx] at h; cases h
    | some found =>
      rw [hx] at h
      cases h
      obtain ⟨a, hmeans, hvector, heval⟩ := given_means hgiven hx _ span
      exact ⟨a, hmeans, fun h => hvector (beq_iff_eq.1 h), heval⟩
  | .call span f args, keys, keys', s, h, hflat => by
    rw [Draft.operand] at h
    obtain ⟨function, keys₁, hfunction, h⟩ := run_bind_eq_ok h
    obtain ⟨xs, keys₂, hargs, h⟩ := run_bind_eq_ok h
    obtain ⟨t, keys₃, -, h⟩ := run_bind_eq_ok h
    obtain ⟨_, keys₄, hcheck, h⟩ := run_bind_eq_ok h
    cases h
    obtain ⟨-, as, hmeans, hvectors, hevals⟩ :=
      operands_mean hgiven true args hargs fun e he span' items hitems =>
        hflat span' items (Expr.preorder_subset_call he span f hitems)
    exact call_means (Catalogue.require_eq_ok.1 (mapError_eq_ok (Draft.ofExcept_eq_ok hfunction)))
      (mapError_eq_ok (Draft.ofExcept_eq_ok hcheck)) hmeans hvectors hevals t span
  | .tuple span items, keys, keys', s, h, hflat => by
    rw [Draft.operand] at h
    split at h
    · rename_i hitems
      rw [Bool.and_eq_true, beq_iff_eq] at hitems
      obtain ⟨xs, keys₁, hxs, h⟩ := run_bind_eq_ok h
      obtain ⟨hlen, as, hmeans, hvectors, hevals⟩ :=
        operands_mean hgiven false items hxs fun e he span' items' hitems' =>
          hflat span' items' (Expr.preorder_subset_tuple he span hitems')
      have hlen' := hlen.trans hitems.2
      -- no element is a vector: the tuple is flat
      have hnone : xs.any Sketch.isVector = false := by
        rw [Bool.eq_false_iff]
        intro hany
        obtain ⟨e, he, hvector⟩ := Expr.anyVector_eq_true (hvectors hany)
        rw [hflat span items (by rw [Expr.preorder]; exact List.mem_cons_self) e he] at hvector
        cases hvector
      exact ⟨_, vector_means hmeans hlen' hnone h, fun _ => by rw [Expr.isVector],
        evaluate_component_tuple (hmeans.length_eq.symm.trans hlen') hevals span⟩
    · cases h
  | .binary .., keys, keys', s, h, _ => by
    rw [Draft.operand] at h
    cases h
  | .unary .., keys, keys', s, h, _ => by
    rw [Draft.operand] at h
    cases h

theorem operands_mean (hgiven : Assigns sockets inputs vars) (tuples : Bool) :
    ∀ (es : List Expr) {keys keys' : List Key} {xs : List Sketch},
    Draft.operands name sockets tuples es keys = .ok xs keys' →
    (∀ e ∈ es, e.FlatTuples (isVectorInput sockets)) →
    xs.length = es.length ∧ ∃ as, List.Forall₂ (Sketch.Means inputs) xs as ∧
      (xs.any Sketch.isVector = true →
        Expr.anyVector (isVectorInput sockets) es = true) ∧
      ∀ k, Expr.evaluateAll (vars k) (Expr.componentAll k es) = .ok (as.map (· k))
  | [], keys, keys', xs, h, _ => by
    rw [Draft.operands] at h
    cases h
    refine ⟨rfl, [], .nil, fun h => ?_, fun k => ?_⟩
    · cases h
    · rw [Expr.componentAll, Expr.evaluateAll]
      rfl
  | e :: es, keys, keys', xs, h, hflat => by
    rw [Draft.operands] at h
    obtain ⟨x, keys₁, hx, h⟩ := run_bind_eq_ok h
    obtain ⟨xs', keys₂, hxs, h⟩ := run_bind_eq_ok h
    cases h
    obtain ⟨a, hmeans, hvector, heval⟩ := operand_means hgiven tuples e hx (hflat e List.mem_cons_self)
    obtain ⟨hlen, as, hmeans', hvectors, hevals⟩ :=
      operands_mean hgiven tuples es hxs fun y hy => hflat y (List.mem_cons_of_mem _ hy)
    refine ⟨congrArg Nat.succ hlen, a :: as, .cons hmeans hmeans', fun h => ?_, fun k => ?_⟩
    · rw [List.any_cons, Bool.or_eq_true] at h
      rw [Expr.anyVector, Bool.or_eq_true]
      exact h.imp hvector hvectors
    · rw [Expr.componentAll, Expr.evaluateAll, heval k, hevals k]
      rfl

end

end

end NodeFormula
