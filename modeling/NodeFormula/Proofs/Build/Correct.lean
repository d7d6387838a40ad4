import NodeFormula.Proofs.Build.Drafted
import NodeFormula.Proofs.Build.Values
import NodeFormula.Proofs.Expr.CallForm
/-!
# NodeFormula — a build computes its expression

A build into a graph without tagged nodes succeeds as its draft does, and the output has
the value of the expression: of the expression itself where all inputs are numbers, and of
its components where vectors are among them (`build_computes`).
-/

namespace NodeFormula

open Graph Pass

/-! ## What a draft accepts -/

theorem Expr.length_of_evaluateAll {vars : String → Option Float} {es : List Expr}
    {values : List Float} (h : Expr.evaluateAll vars es = .ok values) : values.length = es.length := by
  induction es generalizing values with
  | nil =>
    rw [evaluateAll] at h
    cases h
    rfl
  | cons e es ih =>
    rw [evaluateAll] at h
    obtain ⟨v, -, h⟩ := bind_eq_ok h
    obtain ⟨vs, hvs, h⟩ := bind_eq_ok h
    cases h
    rw [List.length_cons, List.length_cons, ih hvs]

section

variable [TagDigest] {name : String} {sockets : List Socket}

/-- A whole expression that is drafted means the values of its components. -/
theorem root_means {inputs : String → Option Value} {vars : Fin 3 → String → Option Float}
    (hgiven : Assigns sockets inputs vars) {e : Expr} {keys keys' : List Key} {s : Sketch}
    (h : Draft.root name sockets e keys = .ok s keys') (hflat : e.FlatTuples (isVectorInput sockets)) :
    ∃ a, s.Means inputs a ∧ ∀ k, (e.component k).evaluate (vars k) = .ok (a k) := by
  obtain ⟨x, keys₁, hx, h⟩ := run_bind_eq_ok h
  obtain ⟨a, hmeans, -, heval⟩ := operand_means hgiven true e hx hflat
  refine ⟨a, ?_, heval⟩
  cases x with
  | socket id type outcome =>
    cases h
    exact hmeans
  | literal v =>
    obtain ⟨w, hw, -, hcomponent⟩ := hmeans
    cases hw
    cases v with
    | float x =>
      obtain ⟨t, keys₂, -, h⟩ := run_bind_eq_ok h
      cases h
      exact ⟨.float x, rfl, rfl, hcomponent⟩
    | vector v =>
      obtain ⟨t, keys₂, -, h⟩ := run_bind_eq_ok h
      cases h
      have hparts : List.Forall₂ (Sketch.Means inputs)
          (v.toList.map fun a => Sketch.literal (.float a)) (v.toList.map fun a (_ : Fin 3) => a) :=
        .cons (.literal (.float v.x)) (.cons (.literal (.float v.y)) (.cons (.literal (.float v.z)) .nil))
      obtain ⟨u, hu, htype, hu'⟩ := combine_means t hparts rfl rfl
      refine ⟨u, hu, htype, fun k => ?_⟩
      rw [hu' k, ← hcomponent k]
      fin_cases k
      · rfl
      · rfl
      · rfl

/-- What is drafted as a number is a number as a whole. -/
theorem root_of_operand {e : Expr} {keys keys' : List Key} {s : Sketch}
    (h : Draft.operand name sockets true e keys = .ok s keys') (hs : s.isVector = false) :
    ∃ s keys', Draft.root name sockets e keys = .ok s keys' ∧ s.isVector = false := by
  have hroot : Draft.root name sockets e keys =
      EStateM.bind (Draft.operand name sockets true e) _ keys := rfl
  rw [hroot, EStateM.bind, h]
  cases s with
  | socket id type outcome => exact ⟨_, _, rfl, hs⟩
  | literal v =>
    cases v with
    | float a => exact ⟨_, _, rfl, rfl⟩
    | vector v => cases hs

/-- A call is drafted as a number when its operands are, as many as the function takes. -/
theorem call_drafted {tuples : Bool} {span : Span} {f : String} {args : List Expr}
    {function : Builtin} {xs : List Sketch} {keys keys' : List Key}
    (hfunction : Catalogue.require f = .ok function)
    (hxs : Draft.operands name sockets true args keys = .ok xs keys')
    (hlen : xs.length = function.arity) (hnone : ∀ x ∈ xs, x.isVector = false) :
    ∃ s keys', Draft.operand name sockets tuples (.call span f args) keys = .ok s keys' ∧
      s.isVector = false := by
  have hcheck : function.checkVectors (xs.map Sketch.isVector) = .ok () := by
    refine Builtin.checkVectors_eq_ok.2 ⟨by rw [List.length_map, hlen], fun _ v hv => ?_⟩
    obtain ⟨y, hy, rfl⟩ := List.mem_map.1 hv
    exact hnone y hy
  have hany : xs.any Sketch.isVector = false := by
    rw [List.any_eq_false]
    exact fun y hy => by rw [hnone y hy]; exact Bool.false_ne_true
  obtain ⟨t, keys'', ht⟩ : ∃ t keys'', Draft.tagFor f xs keys' = .ok t keys'' := ⟨_, _, rfl⟩
  refine ⟨function.sketch t xs, keys'', ?_, ?_⟩
  · rw [Draft.operand, hfunction, run_bind_of_ok
      (x := Draft.ofExcept ((Except.ok function : Except CallError Builtin).mapError .call)) rfl,
      run_bind_of_ok hxs, run_bind_of_ok ht, hcheck]
    rfl
  · rw [Bool.eq_false_iff]
    intro hvector
    have hget := Catalogue.require_eq_ok.1 hfunction
    rw [Builtin.isVector_of_sketch (mem_of_get? hget).1 t hvector] at hany
    cases hany

mutual

/-- **An expression on numbers that has a value can be drafted.** -/
theorem operand_of_evaluate {vars : String → Option Float}
    (hfloat : ∀ s ∈ sockets, s.type = .float)
    (hvars : ∀ x, (vars x).isSome → (findSocket? x sockets).isSome) (tuples : Bool) :
    ∀ (e : Expr) {v : Float} (keys : List Key), e.TupleFree →
      (∀ n ∈ e.preorder, n.isOperator = false) → e.evaluate vars = .ok v →
      ∃ s keys', Draft.operand name sockets tuples e keys = .ok s keys' ∧ s.isVector = false
  | .number _ a _, v, keys, _, _, _ => by
    rw [Draft.operand]
    exact ⟨_, _, rfl, rfl⟩
  | .ident _ x, v, keys, _, _, h => by
    rw [Expr.evaluate] at h
    cases hx : vars x with
    | none => rw [hx] at h; cases h
    | some a =>
      obtain ⟨⟨index, type⟩, hs⟩ := Option.isSome_iff_exists.1 (hvars x (by rw [hx]; rfl))
      obtain ⟨s, hmem, -, htype⟩ := findSocket?_eq_some hs
      rw [Draft.operand, hs]
      refine ⟨_, _, rfl, ?_⟩
      rw [Sketch.isVector, Sketch.type, ← htype, hfloat s (List.mem_of_getElem? hmem)]
      rfl
  | .call span f args, v, keys, hfree, hcall, h => by
    rw [Expr.evaluate] at h
    obtain ⟨values, hvalues, h⟩ := bind_eq_ok h
    rw [Expr.applyFunction, Catalogue.eval] at h
    obtain ⟨function, hfunction, h⟩ := bind_eq_ok (mapError_eq_ok h)
    rw [Builtin.eval] at h
    obtain ⟨_, harity, -⟩ := bind_eq_ok h
    have hlen := Builtin.checkArity_eq_ok.1 harity
    obtain ⟨xs, keys', hxs, hlength, hnone⟩ := operands_of_evaluate hfloat hvars true args keys
      (fun e he span' items hitems => hfree span' items (Expr.preorder_subset_call he span f hitems))
      (fun e he n hn => hcall n (Expr.preorder_subset_call he span f hn)) hvalues
    exact call_drafted hfunction hxs
      (by rw [hlength, ← Expr.length_of_evaluateAll hvalues, hlen]) hnone
  | .tuple span items, v, keys, hfree, _, _ =>
    absurd (by rw [Expr.preorder]; exact List.mem_cons_self) (hfree span items)
  | .binary span op l r, v, keys, _, hcall, _ => by
    have h := hcall (.binary span op l r) (by rw [Expr.preorder]; exact List.mem_cons_self)
    cases h
  | .unary span op x, v, keys, _, hcall, _ => by
    have h := hcall (.unary span op x) (by rw [Expr.preorder]; exact List.mem_cons_self)
    cases h

theorem operands_of_evaluate {vars : String → Option Float}
    (hfloat : ∀ s ∈ sockets, s.type = .float)
    (hvars : ∀ x, (vars x).isSome → (findSocket? x sockets).isSome) (tuples : Bool) :
    ∀ (es : List Expr) {vs : List Float} (keys : List Key), (∀ e ∈ es, e.TupleFree) →
      (∀ e ∈ es, ∀ n ∈ e.preorder, n.isOperator = false) → Expr.evaluateAll vars es = .ok vs →
      ∃ xs keys', Draft.operands name sockets tuples es keys = .ok xs keys' ∧
        xs.length = es.length ∧ ∀ x ∈ xs, x.isVector = false
  | [], vs, keys, _, _, _ => by
    rw [Draft.operands]
    exact ⟨[], keys, rfl, rfl, fun _ hx => absurd hx List.not_mem_nil⟩
  | e :: es, vs, keys, hfree, hcall, h => by
    rw [Expr.evaluateAll] at h
    obtain ⟨v, hv, h⟩ := bind_eq_ok h
    obtain ⟨vs', hvs, -⟩ := bind_eq_ok h
    obtain ⟨x, keys₁, hx, hxnone⟩ := operand_of_evaluate hfloat hvars tuples e keys
      (hfree e List.mem_cons_self) (hcall e List.mem_cons_self) hv
    obtain ⟨xs, keys₂, hxs, hlen, hnone⟩ := operands_of_evaluate hfloat hvars tuples es keys₁
      (fun y hy => hfree y (List.mem_cons_of_mem _ hy))
      (fun y hy => hcall y (List.mem_cons_of_mem _ hy)) hvs
    refine ⟨x :: xs, keys₂, ?_, congrArg Nat.succ hlen, fun y hy => ?_⟩
    · rw [Draft.operands, run_bind_of_ok hx, run_bind_of_ok hxs]
      rfl
    · rcases List.mem_cons.1 hy with rfl | hy
      · exact hxnone
      · exact hnone y hy

end

variable {g : Graph} (sink : InputRef)

mutual

/-- **What can be drafted passes the check.** -/
theorem nodeError?_of_operand (hg : g.inputSockets = sockets) (tuples : Bool) :
    ∀ (e : Expr) {keys keys' : List Key} {s : Sketch},
      Draft.operand name sockets tuples e keys = .ok s keys' →
      ∀ n ∈ e.preorder, Build.nodeError? (.atInterface sink) g n = none
  | .number .., keys, keys', s, _ => by
    intro n hn
    rw [Expr.preorder, List.mem_singleton] at hn
    subst hn
    rfl
  | .ident _ x, keys, keys', s, h => by
    rw [Draft.operand] at h
    intro n hn
    rw [Expr.preorder, List.mem_singleton] at hn
    subst hn
    rw [Build.nodeError?, resolve?_atInterface, hg]
    cases hx : findSocket? x sockets with
    | none => rw [hx] at h; cases h
    | some found => rfl
  | .call _ f args, keys, keys', s, h => by
    rw [Draft.operand] at h
    obtain ⟨function, keys₁, hfunction, h⟩ := run_bind_eq_ok h
    obtain ⟨xs, keys₂, hxs, -⟩ := run_bind_eq_ok h
    intro n hn
    rw [Expr.preorder, List.mem_cons] at hn
    rcases hn with rfl | hn
    · rw [Build.nodeError?, mapError_eq_ok (Draft.ofExcept_eq_ok hfunction)]
    · exact nodeError?_of_operands hg true args hxs n hn
  | .tuple _ items, keys, keys', s, h => by
    rw [Draft.operand] at h
    split at h
    · obtain ⟨xs, keys₁, hxs, -⟩ := run_bind_eq_ok h
      intro n hn
      rw [Expr.preorder, List.mem_cons] at hn
      rcases hn with rfl | hn
      · rfl
      · exact nodeError?_of_operands hg false items hxs n hn
    · cases h
  | .binary .., keys, keys', s, h => by
    rw [Draft.operand] at h
    cases h
  | .unary .., keys, keys', s, h => by
    rw [Draft.operand] at h
    cases h

theorem nodeError?_of_operands (hg : g.inputSockets = sockets) (tuples : Bool) :
    ∀ (es : List Expr) {keys keys' : List Key} {xs : List Sketch},
      Draft.operands name sockets tuples es keys = .ok xs keys' →
      ∀ n ∈ Expr.preorderAll es, Build.nodeError? (.atInterface sink) g n = none
  | [], keys, keys', xs, _ => by
    intro n hn
    rw [Expr.preorderAll] at hn
    cases hn
  | e :: es, keys, keys', xs, h => by
    rw [Draft.operands] at h
    obtain ⟨x, keys₁, hx, h⟩ := run_bind_eq_ok h
    obtain ⟨xs', keys₂, hxs, -⟩ := run_bind_eq_ok h
    intro n hn
    rw [Expr.preorderAll, List.mem_append] at hn
    rcases hn with hn | hn
    · exact nodeError?_of_operand hg tuples e hx n hn
    · exact nodeError?_of_operands hg tuples es hxs n hn

end

theorem check_of_root {e : Expr} {o : BuildOptions} (hdepth : e.depth ≤ o.maxDepth)
    (hg : g.inputSockets = sockets) {keys keys' : List Key} {s : Sketch}
    (h : Draft.root name sockets e keys = .ok s keys') :
    Build.check (.atInterface sink) o e g = .ok () := by
  obtain ⟨x, keys₁, hx, -⟩ := run_bind_eq_ok h
  have hnone : e.preorder.findSome? (Build.nodeError? (.atInterface sink) g) = none :=
    List.findSome?_eq_none_iff.2 (nodeError?_of_operand sink hg true e hx)
  rw [Build.check, if_neg (Nat.not_lt.2 hdepth), hnone]

end

/-- The check reads nothing but the inputs of the interface. -/
theorem check_congr {g g' : Graph} (h : g'.inputSockets = g.inputSockets) (b : Bindings)
    (o : BuildOptions)
    (e : Expr) : Build.check b o e g' = Build.check b o e g := by
  have hresolve : ∀ x, b.resolve? g' x = b.resolve? g x := fun x => by
    simp only [Bindings.resolve?, input?, h]
  have hnode : Build.nodeError? b g' = Build.nodeError? b g := by
    funext n
    cases n with
    | ident _ x => simp only [Build.nodeError?, hresolve]
    | number | binary | unary | call | tuple => rfl
  rw [Build.check, Build.check, hnode]

/-! ## Clean graphs -/

section

variable [TagDigest] {g : Graph} {e : Expr} {o : BuildOptions} {name : String} {b : Bindings}
  {i : InputRef} {type : SocketType}

/-- A graph without tagged nodes is on record, with nothing on it. -/
theorem Graph.WellFormed.onRecord (hg : g.WellFormed) (hclean : ∀ n ∈ g.nodes, n.tag = none)
    (pos : Float → Prop) : ∃ entryName, g.OnRecord [] pos entryName g.inputSockets := by
  obtain ⟨node, hnode⟩ := hasNode_iff.1 hg.hasEntry
  have hnone : ∀ n node t, g.node? n = some node → node.tag = some t → False := by
    intro n node t hnode ht
    rw [hclean node (mem_of_node? hnode).1] at ht
    cases ht
  refine ⟨node.name, ⟨hg, ?_, ?_, ?_, ?_, ?_⟩, by rw [name?, hnode]; rfl, rfl⟩
  · exact fun n node t hn ht => (hnone n node t hn ht).elim
  · exact fun n node t hn ht => (hnone n node t hn ht).elim
  · exact fun n node t hn ht => (hnone n node t hn ht).elim
  · exact fun n node t hn ht => (hnone n node t hn ht).elim
  · exact fun m n a b t ha hb ht => (hnone m a t ha ht).elim

/-- The course of a build into a clean graph: nothing is asked of its constants. -/
def Course.clean (entryName : String) (sockets : List Socket) (keys : List Key) : Course where
  known := []
  next := keys
  pos _ := True
  name := entryName
  sockets := sockets
  distinct _ ha := absurd ha List.not_mem_nil
  same h := absurd rfl h
  unpointed h := absurd rfl h
  zero := trivial
  constants _ _ _ _ _ _ := trivial

omit [TagDigest] in
theorem ofInterface_eq_ok (hb : Bindings.ofInterface g name = .ok b)
    (hout : g.output? name = some (i, type)) : b = .atInterface i := by
  rw [Bindings.ofInterface, hout] at hb
  cases hb
  rfl

omit [TagDigest] in
theorem exists_of_ofInterface (hb : Bindings.ofInterface g name = .ok b) :
    ∃ i type, g.output? name = some (i, type) ∧ b = .atInterface i := by
  cases hout : g.output? name with
  | none =>
    rw [Bindings.ofInterface, hout] at hb
    cases hb
  | some found => exact ⟨found.1, found.2, rfl, ofInterface_eq_ok hb hout⟩

/-- **A build into a clean graph succeeds as its draft does**, and the output has the outcome
of the sketch. -/
theorem build_clean (hg : g.WellFormed) (hclean : ∀ n ∈ g.nodes, n.tag = none)
    (hdepth : e.depth ≤ o.maxDepth) (hout : g.output? name = some (i, type)) :
    ∃ entryName, ((build o (.atInterface i) e g).1.isOk ↔
        ∃ s keys, Draft.root entryName g.inputSockets e [] = .ok s keys) ∧
      ∀ s keys, Draft.root entryName g.inputSockets e [] = .ok s keys →
        ∀ inputs, (build o (.atInterface i) e g).2.evaluate inputs name
          = (s.outcome inputs).map (·.convert type) := by
  obtain ⟨entryName, hrecord⟩ := hg.onRecord hclean fun _ => True
  have hliterals : e.Literals fun _ => True := fun _ _ _ _ => trivial
  have hok : ∀ s keys, Draft.root entryName g.inputSockets e [] = .ok s keys →
      (build o (.atInterface i) e g).1.isOk ∧
      ∀ inputs, (build o (.atInterface i) e g).2.evaluate inputs name
        = (s.outcome inputs).map (·.convert type) := by
    intro s keys hdraft
    obtain ⟨r, g', hbuild, -, heval, -⟩ := build_of_draft_ok (c := .clean entryName g.inputSockets keys)
      hrecord hliterals hout (fun k hk => hk) hdraft (check_of_root i hdepth rfl hdraft)
    rw [hbuild]
    exact ⟨rfl, heval⟩
  refine ⟨entryName, ⟨fun hbuild => ?_, fun ⟨s, keys, hdraft⟩ => (hok s keys hdraft).1⟩,
    fun s keys hdraft => (hok s keys hdraft).2⟩
  cases hdraft : Draft.root entryName g.inputSockets e [] with
  | ok s keys => exact ⟨s, keys, rfl⟩
  | error err keys =>
    cases hcheck : Build.check (.atInterface i) o e g with
    | error err' =>
      rw [build, hcheck] at hbuild
      cases hbuild
    | ok _ =>
      obtain ⟨g', hfail, -⟩ := build_of_draft_error (c := .clean entryName g.inputSockets keys)
        hrecord hliterals (fun k hk => hk) hdraft hcheck
      rw [hfail] at hbuild
      cases hbuild

/-! ## What a build computes -/

/-- The numbers that the inputs of a graph hand in. -/
def Graph.numbers (g : Graph) (inputs : String → Option Value) (x : String) : Option Float :=
  if (g.input? x).isSome then (inputs x).map Value.toFloat else none

/-- The numbers for a component: a vector input hands in its component, any other the same
number for all of them. -/
def Graph.components (g : Graph) (inputs : String → Option Value) (k : Fin 3) (x : String) :
    Option Float :=
  (g.input? x).bind fun input => (inputs x).map fun v => (v.convert input.2).component k

omit [TagDigest] in
theorem Graph.assigns_components {inputs : String → Option Value}
    (hinputs : ∀ s ∈ g.inputSockets, (inputs s.name).isSome) :
    Assigns g.inputSockets inputs (g.components inputs) := by
  intro x index type hx
  obtain ⟨s, hs, rfl, -⟩ := findSocket?_eq_some hx
  obtain ⟨v, hv⟩ := Option.isSome_iff_exists.1 (hinputs s (List.mem_of_getElem? hs))
  refine ⟨v, hv, fun k => ?_⟩
  rw [components, input?, hx, hv]
  rfl

omit [TagDigest] in
/-- Numbers are the same in all components. -/
theorem Graph.components_eq_numbers (hfloat : ∀ s ∈ g.inputSockets, s.type = .float)
    (inputs : String → Option Value) (k : Fin 3) : g.components inputs k = g.numbers inputs := by
  funext x
  rw [components, numbers, input?]
  cases hx : findSocket? x g.inputSockets with
  | none => rfl
  | some found =>
    obtain ⟨index, type⟩ := found
    obtain ⟨s, hs, -, rfl⟩ := findSocket?_eq_some hx
    rw [hfloat s (List.mem_of_getElem? hs)]
    cases inputs x <;> rfl

/-- On numbers, an expression with a value is drafted, and as a number. -/
theorem root_of_evaluate {entryName : String} {keys : List Key} {a : Float}
    {inputs : String → Option Value} (hfloat : ∀ s ∈ g.inputSockets, s.type = .float)
    (hfree : e.TupleFree) (hcall : ∀ n ∈ e.preorder, n.isOperator = false)
    (ha : e.evaluate (g.numbers inputs) = .ok a) :
    ∃ s keys', Draft.root entryName g.inputSockets e keys = .ok s keys' ∧ s.isVector = false := by
  have hknown : ∀ x, (g.numbers inputs x).isSome → (findSocket? x g.inputSockets).isSome := by
    intro x hx
    rw [numbers, input?, Option.isSome_map] at hx
    by_contra hnone
    rw [if_neg hnone] at hx
    cases hx
  obtain ⟨s, keys', hs, hvector⟩ : ∃ s keys',
      Draft.operand entryName g.inputSockets true e keys = .ok s keys' ∧ s.isVector = false :=
    operand_of_evaluate hfloat hknown true e keys hfree hcall ha
  exact root_of_operand hs hvector

/-- On numbers, what is drafted means the value of the expression: all its components are
that value. -/
theorem root_means_numbers {entryName : String} {keys keys' : List Key} {s : Sketch}
    {inputs : String → Option Value} (hfloat : ∀ s ∈ g.inputSockets, s.type = .float)
    (hinputs : ∀ s ∈ g.inputSockets, (inputs s.name).isSome) (hfree : e.TupleFree)
    (hs : Draft.root entryName g.inputSockets e keys = .ok s keys') :
    ∃ a, s.Means inputs a ∧ ∀ k, e.evaluate (g.numbers inputs) = .ok (a k) := by
  obtain ⟨a, ha, hvalues⟩ := root_means (assigns_components hinputs) hs
    fun span items hmem => absurd hmem (hfree span items)
  refine ⟨a, ha, fun k => ?_⟩
  rw [← components_eq_numbers hfloat inputs k, ← hvalues k, Expr.component_eq k hfree]

/-- **A build into a clean graph computes its expression.** On numbers it succeeds exactly
when the expression has a value, and the output has that value. With vectors, an output of
vectors has in each component the value of the expression for that component. -/
theorem build_computes (hg : g.WellFormed) (hclean : ∀ n ∈ g.nodes, n.tag = none) {limit : Nat}
    {text : String} (he : lower limit text = .ok e) (hdepth : e.depth ≤ o.maxDepth)
    (hout : g.output? name = some (i, type)) (hb : Bindings.ofInterface g name = .ok b)
    {inputs : String → Option Value} (hinputs : ∀ s ∈ g.inputSockets, (inputs s.name).isSome) :
    ((∀ s ∈ g.inputSockets, s.type = .float) → e.TupleFree →
      ((build o b e g).1.isOk ↔ (e.evaluate (g.numbers inputs)).isOk) ∧
      ∀ a, e.evaluate (g.numbers inputs) = .ok a →
        (build o b e g).2.evaluate inputs name = .ok ((Value.float a).convert type)) ∧
    (e.FlatTuples (isVectorInput g.inputSockets) → type = .vector → (build o b e g).1.isOk →
      ∃ v, (build o b e g).2.evaluate inputs name = .ok (.vector v) ∧
        ∀ k, (e.component k).evaluate (g.components inputs k) = .ok (v.get k)) := by
  obtain rfl := ofInterface_eq_ok hb hout
  obtain ⟨entryName, hok, heval⟩ := build_clean (e := e) hg hclean hdepth hout
  constructor
  · intro hfloat hfree
    have hvalue : ∀ a, e.evaluate (g.numbers inputs) = .ok a → ∃ s keys,
        Draft.root entryName g.inputSockets e [] = .ok s keys ∧ s.isVector = false :=
      fun a ha => root_of_evaluate hfloat hfree (isCallForm_of_lower he) ha
    refine ⟨hok.trans ⟨fun hdraft => ?_, fun hsome => ?_⟩, fun a ha => ?_⟩
    · obtain ⟨s, keys, hs⟩ := hdraft
      obtain ⟨a, -, hvalues⟩ := root_means_numbers hfloat hinputs hfree hs
      rw [hvalues 0]
      rfl
    · cases ha : e.evaluate (g.numbers inputs) with
      | error err =>
        rw [ha] at hsome
        cases hsome
      | ok a =>
        obtain ⟨s, keys, hs, -⟩ := hvalue a ha
        exact ⟨s, keys, hs⟩
    · obtain ⟨s, keys, hs, hvector⟩ := hvalue a ha
      obtain ⟨a', hs', hvalues⟩ := root_means_numbers hfloat hinputs hfree hs
      obtain ⟨x, hx, hconst⟩ := hs'.const hvector
      have hsame := hvalues 0
      rw [ha, hconst 0] at hsame
      cases hsame
      rw [heval s keys hs inputs, hx]
      rfl
  · rintro hflat rfl hbuilt
    obtain ⟨s, keys, hs⟩ := hok.1 hbuilt
    obtain ⟨a, ⟨v, hv, -, hcomponent⟩, hvalues⟩ :=
      root_means (assigns_components hinputs) hs hflat
    refine ⟨v.toVec3, ?_, fun k => ?_⟩
    · rw [heval s keys hs inputs, hv]
      rfl
    · rw [hvalues k, v.get_toVec3 k, hcomponent k]

end

/-- The call form of a text, if it has one. -/
def callForm? (text : String) : Option Expr := (lower defaultDepth text).toOption

theorem lower_of_callForm? {text : String} {e : Expr} (h : callForm? text = some e) :
    lower defaultDepth text = .ok e := by
  rw [callForm?] at h
  cases hlower : lower defaultDepth text with
  | error err => rw [hlower] at h; cases h
  | ok e' =>
    rw [hlower] at h
    cases h
    rfl

/-- A number goes in and a number comes out. -/
def plain : Graph := ((withInterface [("x", .float)] [("a", .float)]).toOption).getD empty

/-- A number and a vector go in, and a vector comes out. -/
def mixed : Graph :=
  ((withInterface [("x", .float), ("v", .vector)] [("a", .vector)]).toOption).getD empty

/-- A number is doubled, and a vector is scaled by a tuple with a variable in it. -/
theorem build_computes_scaled :
    (∃ e, callForm? "x*2" = some e ∧
      ∀ inputs : String → Option Value, (∀ s ∈ plain.inputSockets, (inputs s.name).isSome) →
        ∀ a, e.evaluate (plain.numbers inputs) = .ok a →
          (build .standard (.atInterface ⟨exit, 0⟩) e plain).2.evaluate inputs "a" = .ok (.float a)) ∧
    ∃ e, callForm? "v*(x,1,2)" = some e ∧
      ∀ inputs : String → Option Value, (∀ s ∈ mixed.inputSockets, (inputs s.name).isSome) →
        ∃ v, (build .standard (.atInterface ⟨exit, 0⟩) e mixed).2.evaluate inputs "a"
            = .ok (.vector v) ∧
          ∀ k, (e.component k).evaluate (mixed.components inputs k) = .ok (v.get k) := by
  constructor
  · have hface : withInterface [("x", .float)] [("a", .float)] = .ok plain := by rfl
    have hout : plain.output? "a" = some (⟨exit, 0⟩, .float) := by decide +kernel
    have hb : Bindings.ofInterface plain "a" = .ok (.atInterface ⟨exit, 0⟩) := by decide +kernel
    have hclean : ∀ n ∈ plain.nodes, n.tag = none := by decide +kernel
    have hsome : (callForm? "x*2").isSome := by decide +kernel
    have hchecks : ∀ e ∈ callForm? "x*2",
        e.depth ≤ BuildOptions.standard.maxDepth ∧ e.TupleFree := by decide +kernel
    obtain ⟨e, he⟩ := Option.isSome_iff_exists.1 hsome
    obtain ⟨hdepth, hfree⟩ := hchecks e he
    exact ⟨e, he, fun inputs hinputs =>
      ((build_computes (wellFormed_of_withInterface hface) hclean (lower_of_callForm? he) hdepth
        hout hb hinputs).1 (by decide +kernel) hfree).2⟩
  · have hface : withInterface [("x", .float), ("v", .vector)] [("a", .vector)] = .ok mixed := by rfl
    have hout : mixed.output? "a" = some (⟨exit, 0⟩, .vector) := by decide +kernel
    have hb : Bindings.ofInterface mixed "a" = .ok (.atInterface ⟨exit, 0⟩) := by decide +kernel
    have hclean : ∀ n ∈ mixed.nodes, n.tag = none := by decide +kernel
    have hsome : (callForm? "v*(x,1,2)").isSome := by decide +kernel
    have hchecks : ∀ e ∈ callForm? "v*(x,1,2)", e.depth ≤ BuildOptions.standard.maxDepth ∧
        e.FlatTuples (isVectorInput mixed.inputSockets) ∧
        (build .standard (.atInterface ⟨exit, 0⟩) e mixed).1.isOk := by decide +kernel
    obtain ⟨e, he⟩ := Option.isSome_iff_exists.1 hsome
    obtain ⟨hdepth, hflat, hok⟩ := hchecks e he
    exact ⟨e, he, fun inputs hinputs =>
      (build_computes (wellFormed_of_withInterface hface) hclean (lower_of_callForm? he) hdepth
        hout hb hinputs).2 hflat rfl hok⟩

end NodeFormula
